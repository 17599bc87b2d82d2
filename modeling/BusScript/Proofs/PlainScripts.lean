import BusScript.Proofs.LoweredScripts
import BusScript.Proofs.PlainStatements

namespace BusScript

open Stmt (allPlain execAll hoisted isPlain)

open Outcome (bind bind_iff get_iff ok_iff)

open CodeWriter Draft Item Sketch

def Declarator.IsVariable : Declarator → Prop
  | .mk _ init _ => ∀ catalog, init.bind (Lowering.roleService? catalog) = none

theorem Declarator.isVariable_of_allPlain {scope : List String} {ds : List Declarator} (h : allPlain scope ds = true) :
    ∀ d ∈ ds, d.IsVariable := by
  induction ds generalizing scope with
  | nil => nofun
  | cons d rest ih =>
    obtain ⟨id, init, span⟩ := d
    rw [allPlain, Bool.and_eq_true] at h
    refine List.forall_mem_cons.2 ⟨fun catalog => ?_, ih h.2⟩
    cases init with
    | none => rfl
    | some init => exact roleService?_of_isPlain h.1 catalog

variable {scope : List String}

theorem Lowering.declareFunctions_eq {script : List Stmt} (hplain : allPlain scope script = true) :
    declareFunctions script = pure () := by
  induction script generalizing scope with
  | nil => rfl
  | cons s rest ih =>
    rw [allPlain, Bool.and_eq_true] at hplain
    cases s with
    | function span head body => cases hplain.1
    | _ => exact ih hplain.2

theorem Stmt.hoisted_cons (s : Stmt) (rest : List Stmt) :
    hoisted (s :: rest) = hoisted [s] ++ hoisted rest := by
  cases s with
  | var span kind declarators => cases kind <;> simp [hoisted]
  | _ => rfl

namespace Sketch

variable {x x' : Sketch} {roles : List (String × ServiceSpec)} {scope : List String} {items new : List Item}

/-- Globals were added, each under a name of its own. -/
def Declares (x x' : Sketch) (names : List String) : Prop :=
  x' = { x with names := x.names ++ names } ∧ (x.names.Nodup → x'.names.Nodup)

theorem Declares.refl (x : Sketch) : Declares x x [] := ⟨by rw [List.append_nil], id⟩

theorem Declares.trans {x'' : Sketch} {names more : List String} (h : Declares x x' names) (h' : Declares x' x'' more) :
    Declares x x'' (names ++ more) := by
  obtain ⟨rfl, hnodup⟩ := h
  obtain ⟨rfl, hnodup'⟩ := h'
  exact ⟨by rw [List.append_assoc], fun hx => hnodup' (hnodup hx)⟩

theorem declareGlobal_leads {d : Declarator} (h : d.IsVariable) :
    Leads x (fun roles' x' => roles' = roles ∧ Declares x x' [d.name]) (Lowering.declareGlobal roles d) := by
  obtain ⟨id, init, span⟩ := d
  refine .bind (requireFree_leads id) ?_
  rintro _ _ ⟨rfl, hfree⟩
  dsimp only
  split
  · trivial
  · refine .get_bind ?_
    rw [h]
    refine .bind (addGlobal_leads id.name) ?_
    rintro slot _ ⟨-, rfl⟩
    refine .pure ⟨rfl, rfl, fun hnodup => ?_⟩
    grind

theorem declareGlobals_comes {ds : List Declarator} (h : ∀ d ∈ ds, d.IsVariable) :
    Comes x (fun roles' x' => roles' = roles ∧ Declares x x' (ds.map Declarator.name))
      (Lowering.declareGlobals roles ds) := by
  induction ds generalizing x with
  | nil => exact .pure ⟨rfl, .refl x⟩
  | cons d rest ih =>
    obtain ⟨hfirst, hrest⟩ := List.forall_mem_cons.1 h
    refine (Comes.of_leads (declareGlobal_leads hfirst)).attempt_bind ?_
      (fun _ => inferInstance) (Lowering.Fair.reported inferInstance)
    rintro _ x1 ⟨rfl, hx1⟩
    refine (ih hrest).mono ?_
    rintro _ x2 ⟨rfl, hx2⟩
    exact ⟨rfl, hx1.trans hx2⟩

theorem declareVariables_comes {script : List Stmt} (hplain : allPlain scope script = true) :
    Comes x (fun roles' x' => roles' = roles ∧ Declares x x' (hoisted script))
      (Lowering.declareVariables roles script) := by
  induction script generalizing x scope with
  | nil => exact .pure ⟨rfl, .refl x⟩
  | cons s rest ih =>
    rw [allPlain, Bool.and_eq_true] at hplain
    cases s with
    | var span kind declarators =>
      rw [isPlain, Bool.and_eq_true] at hplain
      cases of_decide_eq_true hplain.1.1
      refine (declareGlobals_comes (Declarator.isVariable_of_allPlain hplain.1.2)).bind ?_
        fun _ => inferInstance
      rintro _ x1 ⟨rfl, hx1⟩
      refine (ih hplain.2).mono ?_
      rintro _ x2 ⟨rfl, hx2⟩
      exact ⟨rfl, hx1.trans hx2⟩
    | _ => exact ih hplain.2

theorem nestedVariables_cons (hlevel : x.topLevel = true) (s : Stmt) (rest : List Stmt) :
    Stmt.nestedVariables (s :: rest) = x.added s ++ Stmt.nestedVariables rest := by
  cases s with
  | var span kind declarators =>
    rw [added, fresh, if_pos hlevel]
    rfl
  | _ => rfl

theorem mem_hoisted_or_added {s : Stmt} (hplain : s.isPlain scope = true) {name : String} (hname : name ∈ s.declares) :
    name ∈ hoisted [s] ∨ name ∈ x.added s := by
  cases s with
  | var span kind declarators =>
    rw [isPlain, Bool.and_eq_true] at hplain
    cases of_decide_eq_true hplain.1
    rw [hoisted, hoisted, List.append_nil]
    exact .inl hname
  | _ => exact .inr hname

theorem lowerTopLevel_comes {script : List Stmt} (hplain : allPlain scope script = true)
    (hx : Steady x scope items) (htop : ∀ name ∈ hoisted script, name ∈ x.names) :
    Comes x (fun _ x' => x'.names = x.names ++ Stmt.nestedVariables script ∧ ∃ new, Written { x with topLevel := false }
        { x' with topLevel := false } items new (execAll script))
      (Lowering.lowerTopLevel script) := by
  induction script generalizing x scope items with
  | nil =>
    have hempty := written_names (hx.leveled false) [] (by rw [List.append_nil]; exact hx.nodup)
    rw [List.append_nil] at hempty
    exact .pure ⟨(List.append_nil _).symm, [], hempty⟩
  | cons s rest ih =>
    rw [allPlain, Bool.and_eq_true] at hplain
    rw [Stmt.hoisted_cons, List.forall_mem_append] at htop
    refine .modify_bind (show _ = draft { x with topLevel := true } from rfl) ?_
    refine (lowerStmt_comes s hplain.1 (hx.leveled true) fun _ => htop.1).bind ?_
      fun _ => inferInstance
    rintro _ x1 ⟨hnames1, new, hnew⟩
    have hnew' := hnew.leveled false
    have hx1 : Steady x1 (scope ++ s.declares) (items ++ new) := by
      refine (hnew.grows.steady (hx.leveled true)).extend fun name hname => ?_
      rw [hnames1]
      exact List.mem_append.2 ((mem_hoisted_or_added hplain.1 hname).imp_left (htop.1 name))
    refine (ih hplain.2 hx1 fun name hname => hnew.grows.names.subset (htop.2 name hname)).mono ?_
    rintro _ x2 ⟨hnames2, more, hmore⟩
    refine ⟨?_, new ++ more, ?_⟩
    · rw [hnames2, hnames1, List.append_assoc, ← nestedVariables_cons rfl]
    · rw [show execAll (s :: rest) = fun env => (s.exec env).andThen (execAll rest) from
        funext fun env => by rw [execAll]]
      exact hnew'.trans hmore

/-- A main procedure with its return, which does what `meaning` says. -/
structure Finished (x : Sketch) (body : List Item) (meaning : Env → Progress) : Prop where
  lays : x.writer.Lays (body ++ [.instr .ret])
  returns : x.writer.offset? retLabel = some (extent body)
  nodup : x.names.Nodup
  runs : ∀ p : Program, p.Loaded → p.body = body → p.Includes x body → ∀ (m : Machine) (f : Fiber) env s,
    m.image = p.image → s.Holds p.names env → ∃ s', s'.Holds p.names (meaning env).env ∧
      m.RunsTo f p.start s (p.start + extent body) s'

theorem emitReturn_leads {body : List Item} {meaning : Env → Progress} (hx : Steady x scope [])
    (hbody : Written x x' [] body meaning) :
    Leads x' (fun _ x'' => x''.names = x'.names ∧ Finished x'' body meaning) Lowering.emitReturn := by
  have hx' := hbody.grows.steady hx
  refine .bind (bindLabel_leads hx'.registers hx'.lays hx'.ret hx'.unbound) fun _ x1 hbound => ?_
  refine (emit_leads hbound.registers .ret).mono ?_
  rintro _ x2 ⟨hret, -⟩
  have hoffsets : ∀ l, x2.writer.offset? l = x1.writer.offset? l := offset?_congr hret.labels
  refine ⟨hret.names_eq.trans hbound.names_eq, hret.lays _ hbound.lays, ?_, ?_,
    fun p hp hpbody hin m f env s hm hs => ?_⟩
  · rw [hoffsets, hbound.offset, if_pos rfl]
    rfl
  · rw [hret.names_eq, hbound.names_eq]
    exact hx'.nodup
  · have hin1 : p.Includes x1 body :=
      ⟨hin.items, hret.names_eq ▸ hin.names, fun i y hy => hin.floats i y (hret.floats i y hy),
        fun l o ho => hin.offsets l o ((hoffsets l).trans ho)⟩
    obtain ⟨s', hs', hrun⟩ := hbody.runs p hp (hbound.includes hx'.unbound hin1) m f env s hm hs
    refine ⟨s', hs', ?_⟩
    have hplace : p.place ([] ++ body) (meaning env) = extent body := by
      rw [← hpbody]
      cases meaning env <;> rfl
    rwa [hplace] at hrun

def start (catalog : Catalog) (options : CompileOptions) : Sketch := ⟨catalog, options, .new, [], #[], {}, false⟩

theorem steady_declared {catalog : Catalog} {options : CompileOptions} {names : List String}
    (h : Declares (start catalog options) x names) : Steady x names [] := by
  obtain ⟨rfl, hnodup⟩ := h
  exact ⟨registers_new, lays_new, fun name hname => hname, hnodup List.nodup_nil,
    show retLabel < CodeWriter.new.labels.size by decide, rfl⟩

end Sketch

namespace Lowering

theorem dispatchers_comes {x : Sketch} {Q : Unit → Sketch → Prop} (h : Q () x) : Comes x Q dispatchers := by
  have hnone : dispatchers x.draft = .ok () x.draft := by
    have hroles : x.draft.roles = #[] := rfl
    simp only [dispatchers, get_bind_apply, hroles]
    rw [if_neg (by simp)]
    rfl
  rw [Comes, hnone]
  exact fun _ => ⟨x, rfl, h⟩

variable {script : List Stmt} (catalog : Catalog) (options : CompileOptions)

theorem lowerScript_comes (hplain : isPlainScript script = true) :
    Comes (start catalog options) (fun _ x => x.names = scriptVariables script ∧
      ∃ body, Finished x body (execAll script)) (lowerScript script) := by
  rw [lowerScript, declareFunctions_eq hplain, pure_bind]
  refine (declareVariables_comes hplain).bind ?_ fun _ => inferInstance
  rintro _ x ⟨rfl, hx⟩
  have hsteady := steady_declared hx
  rw [addRoles, List.mergeSort_nil]
  refine .modify_bind (show _ = x.draft from rfl) ?_
  refine (lowerTopLevel_comes hplain hsteady hsteady.names).bind ?_ fun _ => inferInstance
  rintro _ x1 ⟨hnames, body, hbody⟩
  refine .modify_bind (show _ = Sketch.draft { x1 with topLevel := false } from rfl) ?_
  refine (emitReturn_leads (hsteady.leveled false) hbody).bind_comes fun _ x2 hx2 => ?_
  refine dispatchers_comes ⟨?_, body, hx2.2⟩
  rw [hx2.1]
  exact hnames.trans (congrArg (· ++ _) (hx.1 ▸ rfl))

/-- Lowering a plain script leaves a main procedure that does what the script means, unless it has problems. -/
theorem wholeScript_comes (hplain : isPlainScript script = true) :
    Comes (start catalog options) (fun _ x => x.names = scriptVariables script ∧
      ∃ body, Finished x body (execAll script)) (wholeScript script) := by
  refine (lowerScript_comes catalog options hplain).bind (fun _ x hx => ?_) fun _ =>
    .read (fun _ => inferInstance) fun _ _ _ => rfl
  refine .get_bind ((checkSavedRegs_outcome _ x.draft).mono (fun _ d hd hclean => ?_) fun _ _ => False.elim)
  exact ⟨x, (hd.2 hclean).1, hx⟩

end Lowering

end BusScript
