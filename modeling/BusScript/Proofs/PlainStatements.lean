import BusScript.Proofs.Programs

namespace BusScript

open Lowering (Fair assign constantCondition? declare ifElse inReg located nested returnResult roleService? write)

open CodeWriter Draft Item

namespace Sketch

variable {x x' x'' : Sketch} {scope : List String} {items new more : List Item}

/-! ### Assignments -/

def Stores (x x' : Sketch) (i : Nat) (Pre : Env → Store → Prop) (f : Env → Number) : Prop :=
  ∃ code, Computes x x' code ∧ ∀ (pool : Array Number),
    (∀ (j : Nat) (y : Number), x'.floats[j]? = some y → pool[j]? = some y) →
    ∀ env s, s.Matches x.names env → Pre env s → ∃ s' z, Instr.effects pool s code = some s' ∧
      s'.globals = s.globals.setIfInBounds i z ∧ z.Alike (f env)

variable {f : Env → Number} {i : Nat} {name : String} {p : Part} {names declared : List String} {x1 : Sketch}
  {meaning : Env → Progress}

variable {s : Store} {env : Env} {id : Ident}

theorem lt_size_of_matches (h : s.Matches names env)
    (hi : i < names.length) : i < s.globals.size := by
  obtain ⟨z, hz, -⟩ := h i _ (List.getElem?_eq_getElem hi)
  exact (Array.getElem?_eq_some_iff.1 hz).1

theorem Effect.stores {regs : List Nat} {Pre Mid : Env → Store → Prop}
    (h : Effect x x1 regs Pre Mid) (h' : Stores x1 x' i Mid f) : Stores x x' i Pre f := by
  obtain ⟨code, hcode, hrun⟩ := h
  obtain ⟨code', hcode', hrun'⟩ := h'
  refine ⟨code ++ code', hcode.trans hcode', fun pool hpool env s hs hpre => ?_⟩
  obtain ⟨s1, heff, hglobals, -, hmid⟩ := hrun pool (fun j y hy => hpool j y (hcode'.floats j y hy)) env s hs hpre
  have hs1 : s1.Matches x1.names env := by
    rw [hcode.names_eq, Store.Matches, hglobals]
    exact hs
  obtain ⟨s2, z, heff', hglobals', hz⟩ := hrun' pool hpool env s1 hs1 hmid
  refine ⟨s2, z, ?_, hglobals ▸ hglobals', hz⟩
  rw [Instr.effects_append, heff, Option.bind_some, heff']

theorem Computes.stores {r : Nat} (h : Computes x x' [.store r .global i 0]) (hi : i < x.names.length)
    (f : Env → Number) : Stores x x' i (fun env s => (Value.reg r).Denotes s (f env)) f := by
  refine ⟨_, h, fun pool _ env s hs hden => ?_⟩
  refine ⟨{ s with globals := s.globals.setIfInBounds i (s.get r) }, s.get r, ?_, rfl, hden.2⟩
  rw [Instr.effects, Instr.effect, if_pos (lt_size_of_matches hs hi)]
  rfl

theorem Stores.popped {Pre : Env → Store → Prop} (h : Stores x x1 i Pre f)
    (hpop : Computes x1 x' []) : Stores x x' i Pre f := by
  obtain ⟨code, hcode, hrun⟩ := h
  refine ⟨code ++ [], hcode.trans hpop, fun pool hpool => ?_⟩
  rw [List.append_nil]
  exact hrun pool fun j y hy => hpool j y (hpop.floats j y hy)

theorem assign_leads (h : Usable x scope) (hi : i < x.names.length) (v : Value) (f : Env → Number) :
    Leads x (fun _ x' => x'.writer.scopes = x.writer.scopes ∧ Stores x x' i (fun env s => v.Denotes s (f env)) f)
      (assign (.cell .global i) v) := by
  have hother : Leads x (fun _ x' => x'.writer.scopes = x.writer.scopes ∧
      Stores x x' i (fun env s => v.Denotes s (f env)) f) (do
        push
        let r ← Lowering.forceReg v
        emitStore r .global i 0
        pop) := by
    refine .bind (push_leads h.registers) ?_
    rintro _ x1 ⟨hpush, hscopes1⟩
    refine .bind (forceReg_leads (h.pushed hpush hscopes1) v f) ?_
    rintro r x2 ⟨regs, hscopes2, -, heff⟩
    refine .bind (emit_leads heff.registers _) ?_
    rintro _ x3 ⟨hstore, hscopes3⟩
    rw [hscopes2, hscopes1, grow_cons] at hscopes3
    refine (pop_leads hstore.registers hscopes3).mono ?_
    rintro _ x4 ⟨hpop, hscopes4⟩
    refine ⟨hscopes4, ((hpush.effect x1.live _).stores (heff.stores (hstore.stores ?_ f))).popped hpop⟩
    rwa [heff.names_eq, hpush.names_eq]
  cases v with
  | reg r =>
    refine (emit_leads h.registers (.store r .global i 0)).mono ?_
    rintro _ x' ⟨hstore, hscopes⟩
    exact ⟨hscopes, hstore.stores hi f⟩
  | cell | float => exact hother
  | _ => trivial

theorem matches_set {s' : Store} (h : s.Matches names env) (hnodup : names.Nodup)
    (hi : names[i]? = some name) {z y : Number} (hz : z.Alike y)
    (hs' : s'.globals = s.globals.setIfInBounds i z) : s'.Matches names (env.set name y) := by
  intro j other hj
  rw [hs']
  by_cases hji : j = i
  · subst hji
    cases hi.symm.trans hj
    refine ⟨z, ?_, by rwa [Env.set_self]⟩
    rw [Array.getElem?_setIfInBounds_self_of_lt (lt_size_of_matches h (List.getElem?_eq_some_iff.1 hi).1)]
  · have hne : other ≠ name := by
      rintro rfl
      obtain ⟨hlt, hgeti⟩ := List.getElem?_eq_some_iff.1 hi
      obtain ⟨hlt', hgetj⟩ := List.getElem?_eq_some_iff.1 hj
      exact hji ((hnodup.getElem_inj_iff).1 (hgetj.trans hgeti.symm))
    rw [Env.set_of_ne hne, Array.getElem?_setIfInBounds_ne (Ne.symm hji)]
    exact h j other hj

theorem getElem?_of_isPrefix {more : List String} (h : names <+: more)
    (hi : names[i]? = some name) : more[i]? = some name := by
  obtain ⟨rest, rfl⟩ := h
  rw [List.getElem?_append_left (List.getElem?_eq_some_iff.1 hi).1, hi]

theorem matches_of_isPrefix {more : List String} (hs : s.Matches more env)
    (h : names <+: more) : s.Matches names env := fun i name hi => hs i name (getElem?_of_isPrefix h hi)

theorem Stores.written (h : Stores x x' i (fun _ _ => True) f)
    (hx : Steady x scope items) (hname : x.names[i]? = some name)
    (hscopes : ∃ regs, x'.writer.scopes = grow regs x.writer.scopes) :
    ∃ new, Written x x' items new fun env => .goesOn (env.set name (f env)) := by
  obtain ⟨code, hcode, hrun⟩ := h
  refine ⟨code.map .instr, hcode.grows hx.lays, hscopes, fun p hp hin m fiber env s hm hs => ?_⟩
  have hnames : x.names <+: p.names := hcode.names_eq ▸ hin.names
  obtain ⟨s', z, heff, hglobals, hz⟩ := hrun p.image.floats hin.floats env s
    (matches_of_isPrefix hs.values hnames) trivial
  refine ⟨s', ⟨?_, matches_set hs.values hp.nodup (getElem?_of_isPrefix hnames hname) hz hglobals⟩,
    hp.runs_code hm hin.items heff⟩
  rw [hglobals, Array.size_setIfInBounds, hs.size]

theorem variableNamed_leads (id : Ident) :
    Leads x (fun v x' => x' = x ∧ ∃ i, v = .cell .global i ∧ x.names[i]? = some id.name)
      (Lowering.variableNamed id) := by
  refine .get_bind ?_
  rw [resolve?_draft]
  cases hfound : x.names.findIdx? (· == id.name) with
  | none => trivial
  | some i => exact .pure ⟨rfl, i, rfl, getElem?_of_findIdx? hfound⟩

theorem assign_held {v : Value} (hv : Held x x1 [v] [f])
    (hx : Steady x scope items) (hne : x.writer.scopes ≠ []) (hname : x.names[i]? = some name) (span : Span) :
    Leads x1 (fun _ x' => x'.names = x.names ∧ ∃ new, Written x x' items new fun env => .goesOn (env.set name (f env)))
      (located span (assign (.cell .global i) v)) := by
  have hi : i < x1.names.length := by
    rw [hv.effect.names_eq]
    exact (List.getElem?_eq_some_iff.1 hname).1
  refine .located ((assign_leads (hv.usable (hx.usable hne)) hi v f).mono ?_)
  rintro _ x2 ⟨hscopes2, hstores⟩
  obtain ⟨regs, hscopes1, -⟩ := hv.scopes
  have hheld := hv.effect.mono (fun _ => id) (fun _ _ => id) fun env s hs => (List.forall₂_cons.1 hs).1
  have hall := hheld.stores hstores
  refine ⟨?_, hall.written hx hname ⟨regs, hscopes2.trans hscopes1⟩⟩
  obtain ⟨code, hcode, -⟩ := hall
  exact hcode.names_eq

theorem assignVariable_leads (hp : p.Means scope f) (hx : Steady x scope items)
    (hne : x.writer.scopes ≠ []) (id : Ident) : Leads x (fun _ x' => x'.names = x.names ∧
        ∃ new, Written x x' items new fun env => .goesOn (env.set id.name (f env)))
      (Lowering.assignVariable id p) := by
  refine .bind (variableNamed_leads id) ?_
  rintro _ x ⟨rfl, i, rfl, hname⟩
  refine .bind (hp _ (hx.usable hne)) fun v x1 hv => ?_
  exact .bind (assign_held hv hx hne hname p.expr.span) fun _ x' hx' => .pure hx'

/-! ### Declarations -/

/-- The variables of the top level are there from the start; others become globals when they are declared. -/
def fresh (x : Sketch) (names : List String) : List String := if x.topLevel then [] else names

theorem requireFree_leads (id : Ident) :
    Leads x (fun _ x' => x' = x ∧ id.name ∉ x.names) (Lowering.requireFree id) := by
  refine .get_bind ?_
  rw [resolve?_draft]
  split
  · trivial
  · next hnone =>
    refine .pure ⟨rfl, fun hmem => hnone ?_⟩
    simp_all

theorem addGlobal_leads (name : String) :
    Leads x (fun slot x' => slot = x.names.length ∧ x' = { x with names := x.names ++ [name] })
      (Lowering.addGlobal name) := by
  have hadd : { x.draft with globals := x.draft.globals.add name } = draft { x with names := x.names ++ [name] } := by
    simp [draft, globals, Variables.add]
  refine .get_bind (.modify_bind hadd (.pure ⟨?_, rfl⟩))
  change (x.names.map _).toArray.size = _
  rw [List.size_toArray, List.length_map]

theorem written_names (hx : Steady x scope items) (added : List String) (hnodup : (x.names ++ added).Nodup) :
    Written x { x with names := x.names ++ added } items [] .goesOn := by
  have hlays : x.writer.Lays (items ++ []) := by
    rw [List.append_nil]
    exact hx.lays
  refine ⟨⟨rfl, hx.registers, hlays, Nat.le_refl _, fun _ _ => rfl, List.prefix_append .., fun _ => hnodup,
    fun _ _ => id⟩,
    ⟨[], (grow_nil _).symm⟩, fun p _ _ m f env s _ hs => ⟨s, hs, ?_⟩⟩
  rw [Program.place, List.append_nil]
  exact .refl ..

theorem declaredVariable?_leads (hx : Steady x scope items)
    (htop : x.topLevel = true → id.name ∈ x.names) :
    Leads x (fun v x' => x' = { x with names := x.names ++ x.fresh [id.name] } ∧ x'.names.Nodup ∧
        ∃ i, v = some (.cell .global i) ∧ x'.names[i]? = some id.name) (Lowering.declaredVariable? id) := by
  refine .get_bind ?_
  rw [atTopLevel_draft]
  by_cases hlevel : x.topLevel = true
  · obtain ⟨i, hi⟩ := exists_findIdx?_of_mem (htop hlevel)
    rw [if_pos hlevel, show x.draft.globals = x.globals from rfl, find?_globals, hi, fresh, if_pos hlevel,
      List.append_nil]
    exact .pure ⟨rfl, hx.nodup, i, rfl, getElem?_of_findIdx? hi⟩
  · rw [if_neg hlevel, fresh, if_neg hlevel]
    refine .bind (requireFree_leads id) ?_
    rintro _ _ ⟨rfl, hfree⟩
    refine .bind (addGlobal_leads id.name) ?_
    rintro slot _ ⟨rfl, rfl⟩
    refine .pure ⟨rfl, ?_, _, rfl, List.getElem?_concat_length⟩
    rw [List.nodup_append]
    exact ⟨hx.nodup, List.nodup_singleton _, fun a ha b hb heq => hfree (List.mem_singleton.1 hb ▸ heq ▸ ha)⟩

theorem roleService?_of_isPlain {e : Expr} (h : e.isPlain scope = true) (catalog : Catalog) :
    roleService? catalog e = none := by
  cases e with
  | call span callee args =>
    cases callee with
    | member span' object name =>
      rw [Expr.isPlain, Bool.and_eq_true, Bool.and_eq_true] at h
      have hmath := h.1.1
      rw [Expr.isNamed] at hmath
      refine if_neg ?_
      rw [Expr.isNamed]
      cases hid : object.ident? with
      | none => nofun
      | some id => simp_all
    | _ => cases h
  | _ => rfl

theorem declare_leads
    (hservice : roleService? x.catalog p.expr = none) (hp : p.Means (scope ++ [id.name]) f) (hx : Steady x scope items) (hne : x.writer.scopes ≠ [])
    (htop : x.topLevel = true → id.name ∈ x.names) (span : Span) :
    Leads x (fun _ x' => x'.names = x.names ++ x.fresh [id.name] ∧
        ∃ new, Written x x' items new fun env => .goesOn (env.set id.name (f env)))
      (declare id (some p) span) := by
  refine .get_bind ?_
  rw [show (some p).bind (fun p => roleService? x.draft.catalog p.expr) = none from hservice]
  refine .bind (declaredVariable?_leads hx htop) ?_
  rintro _ _ ⟨rfl, hnodup, i, rfl, hname⟩
  have hadded := written_names hx (x.fresh [id.name]) hnodup
  have hsteady := hadded.grows.steady hx
  rw [List.append_nil] at hsteady
  have hscope := hsteady.extend (List.forall_mem_singleton.2 (List.mem_of_getElem? hname))
  refine .bind (hp _ (hscope.usable hne)) fun v x2 hv => ?_
  refine (assign_held hv hscope hne hname p.expr.span).mono ?_
  rintro _ x3 ⟨hnames, new, hnew⟩
  have hnew' : Written _ x3 (items ++ []) new _ := (List.append_nil items).symm ▸ hnew
  exact ⟨hnames, new, hadded.trans hnew'⟩

theorem declare_none_leads (hx : Steady x scope items) (htop : x.topLevel = true → id.name ∈ x.names)
    (span : Span) :
    Leads x (fun _ x' => x'.names = x.names ++ x.fresh [id.name] ∧ ∃ new, Written x x' items new .goesOn)
      (declare id none span) := by
  refine .get_bind (.bind (declaredVariable?_leads hx htop) ?_)
  rintro _ _ ⟨rfl, hnodup, i, rfl, hname⟩
  exact .pure ⟨rfl, [], written_names hx (x.fresh [id.name]) hnodup⟩

theorem Grows.topLevel_eq (h : Grows x x' items new) : x'.topLevel = x.topLevel := by
  rw [h.rest]

theorem Grows.fresh_eq (h : Grows x x' items new) (names : List String) : x'.fresh names = x.fresh names := by
  rw [fresh, h.topLevel_eq, fresh]

theorem Written.isOpen (h : Written x x' items new meaning)
    (hne : x.writer.scopes ≠ []) : x'.writer.scopes ≠ [] := by
  obtain ⟨regs, hscopes⟩ := h.scopes
  rw [hscopes, ← List.length_pos_iff, length_grow, List.length_pos_iff]
  exact hne

theorem fresh_append (x : Sketch) (names more : List String) :
    x.fresh (names ++ more) = x.fresh names ++ x.fresh more := by
  rw [fresh, fresh, fresh]
  split <;> rfl

theorem mem_declared (htop : x.topLevel = true → name ∈ x.names) : name ∈ x.names ++ x.fresh [name] := by
  rw [fresh]
  grind

theorem lowerDeclarators_leads {ds : List Declarator} (hplain : Declarator.allPlain scope ds = true)
    (hx : Steady x scope items) (hne : x.writer.scopes ≠ []) (htop : x.topLevel = true → ∀ d ∈ ds, d.name ∈ x.names) :
    Leads x (fun _ x' => x'.names = x.names ++ x.fresh (ds.map Declarator.name) ∧
        ∃ new, Written x x' items new fun env => .goesOn (Declarator.execAll ds env)) (lowerDeclarators ds) := by
  induction ds generalizing x scope items with
  | nil =>
    have hnone : x.fresh [] = [] := ite_self []
    have hempty := written_names hx [] (by rw [List.append_nil]; exact hx.nodup)
    rw [List.append_nil] at hempty
    exact .pure ⟨by rw [List.map_nil, hnone, List.append_nil], [], hempty⟩
  | cons d rest ih =>
    obtain ⟨id, init, span⟩ := d
    rw [Declarator.allPlain, Bool.and_eq_true] at hplain
    have hid : x.topLevel = true → id.name ∈ x.names := fun h => htop h _ List.mem_cons_self
    have hrest : ∀ {meaning : Env → Env} {x1 : Sketch} {new : List Item}, x1.names = x.names ++ x.fresh [id.name] →
        Written x x1 items new (fun env => .goesOn (meaning env)) →
        Leads x1 (fun _ x' => x'.names = x.names ++ x.fresh (id.name :: rest.map Declarator.name) ∧
          ∃ new, Written x x' items new fun env => .goesOn (Declarator.execAll rest (meaning env)))
            (lowerDeclarators rest) := by
      intro meaning x1 new hnames hnew
      have hsteady := (hnew.grows.steady hx).extend (List.forall_mem_singleton.2 (hnames ▸ mem_declared hid))
      refine (ih hplain.2 hsteady (hnew.isOpen hne) fun hlevel d hd => ?_).mono ?_
      · rw [hnew.grows.topLevel_eq] at hlevel
        exact hnew.grows.names.subset (htop hlevel d (List.mem_cons_of_mem _ hd))
      · rintro _ x2 ⟨hnames2, more, hmore⟩
        refine ⟨?_, new ++ more, hnew.trans hmore⟩
        rw [hnames2, hnames, hnew.grows.fresh_eq, List.append_assoc, ← fresh_append, List.singleton_append]
    cases init with
    | none =>
      rw [lowerDeclarators]
      refine .bind (declare_none_leads hx hid span) ?_
      rintro _ x1 ⟨hnames, new, hnew⟩
      exact hrest hnames hnew
    | some init =>
      rw [lowerDeclarators]
      have hinit := lowerExpr_means init hplain.1
      refine .bind (declare_leads (roleService?_of_isPlain hplain.1 _) hinit hx hne hid span) ?_
      rintro _ x1 ⟨hnames, new, hnew⟩
      exact hrest hnames hnew

/-! ### Labels -/

theorem newLabel_leads (h : x.writer.Registers) (hlays : x.writer.Lays items) (name : String) :
    Leads x (fun l x' => l = x.writer.labels.size ∧ x'.writer.labels.size = l + 1 ∧ x'.writer.offset? l = none ∧
        x'.writer.scopes = x.writer.scopes ∧ x'.names = x.names ∧ Grows x x' items [])
          (write (newLabel name)) := by
  refine .write ((newLabel_outcome hlays name).imp ?_)
  rintro l w ⟨rfl, hw, rfl⟩
  refine ⟨rfl, Array.size_push .., ?_, rfl, rfl, rfl, ⟨h.nodup, h.allocated, h.small⟩, ?_,
    by rw [Array.size_push]; exact Nat.le_succ _, fun l _ => offset?_newLabel .., List.prefix_rfl, id, fun _ _ => id⟩
  · rw [offset?_newLabel, offset?, Array.getElem?_eq_none (Nat.le_refl _)]
    rfl
  · rwa [List.append_nil]

theorem emitJump_leads (h : x.writer.Registers) (hlays : x.writer.Lays items) {l : Nat} (hl : l < x.writer.labels.size)
    (hopen : x.writer.offset? l = none) {ifZero : Option Nat} (hcond : ∀ r, ifZero = some r → r < 16) :
    Leads x (fun _ x' => x'.writer.scopes = x.writer.scopes ∧ x'.writer.labels.size = x.writer.labels.size ∧
        (∀ l, x'.writer.offset? l = x.writer.offset? l) ∧ x'.names = x.names ∧ Grows x x' items [.jump l ifZero])
      (write (emitJump l ifZero)) := by
  obtain ⟨label, hlabel, hoffset⟩ := Draft.exists_label hl
  refine .write ((emitJump_outcome hlays hlabel (by rw [hoffset, hopen]; nofun) hcond).imp ?_)
  rintro _ w ⟨hw, heq⟩
  have hscopes : w.scopes = x.writer.scopes := by rw [heq]
  have hallocated : w.allocated = x.writer.allocated := by rw [heq]
  have hsize : w.labels.size = x.writer.labels.size := by
    rw [heq]
    exact Array.size_modify
  have hoffsets : ∀ l, w.offset? l = x.writer.offset? l := fun m => by
    rw [heq]
    exact offset?_emitJump ..
  refine ⟨hscopes, hsize, hoffsets, rfl, rfl, ⟨?_, ?_, ?_⟩, hw, Nat.le_of_eq hsize.symm,
    fun m _ => hoffsets m, List.prefix_rfl, id, fun _ _ => id⟩
  · rw [hscopes]
    exact h.nodup
  · rw [hscopes, hallocated]
    exact h.allocated
  · rw [hscopes]
    exact h.small

structure Bound (x x' : Sketch) (l : Nat) (items : List Item) : Prop where
  rest : x' = { x with writer := x'.writer }
  registers : x'.writer.Registers
  scopes : x'.writer.scopes = x.writer.scopes
  lays : x'.writer.Lays items
  size : x'.writer.labels.size = x.writer.labels.size
  offset : ∀ m, x'.writer.offset? m = if m = l then some (extent items) else x.writer.offset? m

theorem bindLabel_leads (h : x.writer.Registers) (hlays : x.writer.Lays items) {l : Nat} (hl : l < x.writer.labels.size)
    (hopen : x.writer.offset? l = none) : Leads x (fun _ x' => Bound x x' l items) (write (bindLabel l)) := by
  obtain ⟨label, hlabel, hoffset⟩ := Draft.exists_label hl
  refine .write ((bindLabel_outcome hlays hlabel (hoffset.trans hopen)).imp ?_)
  rintro _ _ ⟨hw, rfl⟩
  refine ⟨rfl, ⟨h.nodup, h.allocated, h.small⟩, rfl, hw, Array.size_modify, fun m => ?_⟩
  rw [← hlays.location_eq]
  exact offset?_bindLabel _ hl _ m

namespace Bound

variable {l : Nat}

theorem names_eq (h : Bound x x' l items) : x'.names = x.names := by
  rw [h.rest]

theorem grows (h : Bound x' x'' l (items ++ new)) (hgrows : Grows x x' items new) (hl : x.writer.labels.size ≤ l) :
    Grows x x'' items new := by
  refine ⟨by rw [h.rest, hgrows.rest], h.registers, h.lays, ?_, fun m hm => ?_,
    by rw [h.names_eq]; exact hgrows.names, by rw [h.names_eq]; exact hgrows.nodup, by rw [h.rest]; exact hgrows.floats⟩
  · rw [h.size]
    exact hgrows.size
  · rw [h.offset, if_neg (by omega), hgrows.offsets m hm]

theorem includes (h : Bound x x' l items) (hopen : x.writer.offset? l = none) {p : Program} (hp : p.Includes x' items) :
    p.Includes x items := by
  refine ⟨hp.items, h.names_eq ▸ hp.names, by rw [h.rest] at hp; exact hp.floats, fun m o ho => hp.offsets m o ?_⟩
  have hne : m ≠ l := by
    rintro rfl
    rw [hopen] at ho
    cases ho
  rw [h.offset, if_neg hne, ho]

theorem place (h : Bound x x' l items) {p : Program} (hp : p.Includes x' items) : p.offset? l = some (extent items) :=
  hp.offsets l _ (by rw [h.offset, if_pos rfl])

end Bound

/-! ### Branches -/

/-- Code that goes on if a condition holds, and to a label otherwise. -/
structure Branches (x x' : Sketch) (items new : List Item) (l : Nat) (condition : Env → Number) : Prop where
  grows : Grows x x' items new
  scopes : x'.writer.scopes = x.writer.scopes
  isNew : x.writer.labels.size ≤ l
  isThere : l < x'.writer.labels.size
  isOpen : x'.writer.offset? l = none
  runs : ∀ p : Program, p.Loaded → p.Includes x' (items ++ new) → ∀ t, p.offset? l = some t →
    extent (items ++ new) ≤ t → ∀ (m : Machine) (f : Fiber) env s, m.image = p.image → s.Holds p.names env → ∃ s', s'.Holds p.names env ∧
      m.RunsTo f (p.start + extent items) s
        (p.start + if (condition env).truthy then extent (items ++ new) else t) s'

theorem branch_bind {α : Type} {R : α → Sketch → Prop} {k : Nat → Lowering α}
    (hp : p.Means scope f) (hx : Steady x scope items)
    (hk : ∀ l x' new, x'.names = x.names → Branches x x' items new l f → Comes x' R (k l)) : Comes x R (do
      let l ← newLabel name
      push
      let r ← inReg p
      emitJump l (some r)
      pop
      k l) := by
  refine (newLabel_leads hx.registers hx.lays name).bind_comes ?_
  rintro l x1 ⟨rfl, hsize1, hopen1, hscopes1, hnames1, hgrows1⟩
  have hx1 := hgrows1.steady hx
  refine (push_leads hx1.registers).bind_comes ?_
  rintro _ x2 ⟨hpush, hscopes2⟩
  have hx2 := hx1.computes hpush
  have hu2 := hx2.usable (by rw [hscopes2]; nofun)
  refine (inReg_leads hu2 (hp x2 hu2)).bind_comes fun r x3 hr => ?_
  obtain ⟨regs, hscopes3, hlow⟩ := hr.scopes
  obtain ⟨code, hcode, hrun⟩ := hr.effect
  have hcode3 : Computes x1 x3 code := hpush.trans hcode
  have hgrows3 : Grows x x3 items (code.map .instr) := hgrows1.trans (hcode3.grows hgrows1.lays)
  have hthere : x.writer.labels.size < x3.writer.labels.size := by
    rw [hcode3.labels, hsize1]
    exact Nat.lt_succ_self _
  have hopen3 : x3.writer.offset? x.writer.labels.size = none := (offset?_congr hcode3.labels _).trans hopen1
  have hcond : ∀ q, some r = some q → q < 16 := by
    rintro q ⟨⟩
    exact (hlow _ (List.mem_singleton_self _) r (List.mem_singleton_self r)).2
  refine (emitJump_leads hcode3.registers hgrows3.lays hthere hopen3 hcond).bind_comes ?_
  rintro _ x4 ⟨hscopes4, hsize4, hoffsets4, hnames4, hgrows4⟩
  rw [hscopes3, hscopes2, grow_cons, hscopes1] at hscopes4
  refine (pop_leads hgrows4.registers hscopes4).bind_comes ?_
  rintro _ x5 ⟨hpop, hscopes5⟩
  have hjump := hgrows4.computes hpop
  have hnames : x5.names = x.names := by rw [hpop.names_eq, hnames4, hcode3.names_eq, hnames1]
  refine hk _ x5 _ hnames ⟨hgrows3.trans hjump, hscopes5, Nat.le_refl _, ?_, ?_,
    fun p hp hin t ht hle m fiber env s hm hs => ?_⟩
  · rwa [hpop.labels, hsize4]
  · rw [offset?_congr hpop.labels, hoffsets4, hopen3]
  · rw [← List.append_assoc] at hin hle ⊢
    have hin3 := hjump.includes hin
    obtain ⟨s', heff, hglobals, -, hden⟩ := hrun p.image.floats hin3.floats env s
      (matches_of_isPrefix hs.values (hcode.names_eq ▸ hin3.names)) trivial
    have hlike : (s'.get r).Alike (f env) := (List.forall₂_cons.1 hden).1.2
    refine ⟨s', hs.congr hglobals, (hp.runs_code hm hin3.items heff).trans ?_⟩
    have hrun' := hp.runs_jump (f := fiber) (s := s') hm hin.items ht (by rw [extent_append] at hle; exact hle)
    rwa [Option.any_some, hlike.truthy_eq] at hrun'

/-- Below the top level, lowering adds globals for the variables `declared` and writes code that does what `meaning`
says. -/
def Does (act : Lowering Unit) (scope declared : List String) (meaning : Env → Progress) : Prop :=
  ∀ (x : Sketch) items, Steady x scope items → x.topLevel = false →
    Comes x (fun _ x' => x'.names = x.names ++ declared ∧ ∃ new, Written x x' items new meaning) act

theorem nested_does {act : Lowering Unit} (hact : Does act scope declared meaning) (hx : Steady x scope items) :
    Comes x (fun _ x' => x'.names = x.names ++ declared ∧ ∃ new, Written x x' items new meaning)
      (nested act) := by
  refine nested_comes (hact _ items (hx.leveled false) rfl) ?_
  rintro _ x' ⟨hnames, new, hnew⟩
  exact ⟨hnames, new, hnew.leveled x.topLevel⟩

theorem ifElse_none_comes {branch : Lowering Unit}
    (hconst : constantCondition? p.expr = none) (hp : p.Means scope f)
    (hx : Steady x scope items) (hbranch : Does branch scope declared meaning) :
    Comes x (fun _ x' => x'.names = x.names ++ declared ∧
        ∃ new, Written x x' items new fun env => if (f env).truthy then meaning env else .goesOn env)
      (ifElse p branch none) := by
  rw [ifElse, hconst]
  dsimp only
  refine branch_bind hp hx fun l x1 front hnames1 hfront => ?_
  have hx1 := hfront.grows.steady hx
  refine (nested_does hbranch hx1).bind ?_ fun _ => inferInstance
  rintro _ x2 ⟨hnames2, new, hnew⟩
  have hopen2 : x2.writer.offset? l = none := (hnew.grows.offsets l hfront.isThere).trans hfront.isOpen
  refine .of_leads ((bindLabel_leads hnew.grows.registers hnew.grows.lays
    (Nat.lt_of_lt_of_le hfront.isThere hnew.grows.size) hopen2).mono ?_)
  intro _ x3 hbound
  rw [List.append_assoc] at hbound
  refine ⟨by rw [hbound.names_eq, hnames2, hnames1], front ++ new,
    hbound.grows (hfront.grows.trans hnew.grows) hfront.isNew, ?_, fun p hp hin m fiber env s hm hs => ?_⟩
  · rw [hbound.scopes, ← hfront.scopes]
    exact hnew.scopes
  · have hin2 := hbound.includes hopen2 hin
    rw [← List.append_assoc] at hin2
    have hle : extent (items ++ front) ≤ extent (items ++ (front ++ new)) := by
      rw [← List.append_assoc, extent_append _ new]
      exact Nat.le_add_right ..
    obtain ⟨s1, hs1, hrun⟩ := hfront.runs p hp (hnew.grows.includes hin2) _ (hbound.place hin) hle m fiber env s hm hs
    cases hcond : (f env).truthy with
    | true =>
      rw [hcond, if_pos rfl] at hrun
      obtain ⟨s2, hs2, hrun2⟩ := hnew.runs p hp hin2 m fiber env s1 hm hs1
      refine ⟨s2, hs2, hrun.trans ?_⟩
      simp_all
    | false =>
      rw [hcond, if_neg Bool.false_ne_true] at hrun
      exact ⟨s1, hs1, hrun⟩

theorem ifElse_some_comes {branch other : Lowering Unit}
    {meaning' : Env → Progress} {declared' : List String} (hconst : constantCondition? p.expr = none) (hp : p.Means scope f)
    (hx : Steady x scope items) (hbranch : Does branch scope declared meaning)
    (hother : Does other (scope ++ declared) declared' meaning') (hfair : Fair other) :
    Comes x (fun _ x' => x'.names = x.names ++ (declared ++ declared') ∧
        ∃ new, Written x x' items new fun env => if (f env).truthy then meaning env else meaning' env)
      (ifElse p branch (some other)) := by
  rw [ifElse, hconst]
  dsimp only
  refine branch_bind hp hx fun l x1 front hnames1 hfront => ?_
  have hx1 := hfront.grows.steady hx
  refine (nested_does hbranch hx1).bind ?_ fun _ => inferInstance
  rintro _ x2 ⟨hnames2, new, hnew⟩
  have hgrows2 := hfront.grows.trans hnew.grows
  refine (newLabel_leads hgrows2.registers hgrows2.lays _).bind_comes ?_
  rintro e x3 ⟨rfl, hsize3, hopen3, hscopes3, hnames3, hlabel⟩
  have hgrows3 := hgrows2.trans hlabel
  rw [List.append_nil] at hgrows3
  refine (emitJump_leads hgrows3.registers hgrows3.lays (hsize3 ▸ Nat.lt_succ_self _) hopen3
    (fun _ hr => by cases hr)).bind_comes ?_
  rintro _ x4 ⟨hscopes4, hsize4, hoffsets4, hnames4, hjump⟩
  have hgrows4 := hgrows3.trans hjump
  have hthere2 : l < x2.writer.labels.size := Nat.lt_of_lt_of_le hfront.isThere hnew.grows.size
  have hopen4 : x4.writer.offset? l = none := by
    rw [hoffsets4, hlabel.offsets l hthere2, hnew.grows.offsets l hfront.isThere, hfront.isOpen]
  refine (bindLabel_leads hgrows4.registers hgrows4.lays (by omega) hopen4).bind_comes ?_
  intro _ x5 hbound
  have hgrows5 := hbound.grows hgrows4 hfront.isNew
  have hnames5 : x5.names = x.names ++ declared := by
    rw [hbound.names_eq, hnames4, hnames3, hnames2, hnames1]
  have hx5 := (hgrows5.steady hx).extend (fun name hname => hnames5 ▸ List.mem_append_right _ hname)
  refine (nested_does hother hx5).bind ?_ fun _ => inferInstance
  rintro _ x6 ⟨hnames6, new', hnew'⟩
  have hgrows6 := hgrows5.trans hnew'.grows
  have hsize5 : x5.writer.labels.size = x2.writer.labels.size + 1 := by rw [hbound.size, hsize4, hsize3]
  have hopen6 : x6.writer.offset? x2.writer.labels.size = none := by
    rw [hnew'.grows.offsets _ (by omega), hbound.offset, if_neg (Nat.ne_of_gt hthere2), hoffsets4, hopen3]
  refine .of_leads ((bindLabel_leads hgrows6.registers hgrows6.lays ?_ hopen6).mono ?_)
  · have := hnew'.grows.size
    omega
  intro _ x7 hbound'
  refine ⟨?_, _, hbound'.grows hgrows6 hgrows2.size, ?_, fun p hp hin m fiber env s hm hs => ?_⟩
  · rw [hbound'.names_eq, hnames6, hnames5, List.append_assoc]
  · obtain ⟨regs, hregs⟩ := hnew.scopes
    obtain ⟨regs', hregs'⟩ := hnew'.scopes
    refine ⟨regs ++ regs', ?_⟩
    rw [hbound'.scopes, hregs', hbound.scopes, hscopes4, hscopes3, hregs, hfront.scopes, grow_grow]
  · have hin6 := hbound'.includes hopen6 hin
    rw [← List.append_assoc] at hin6
    have hin5 := hnew'.grows.includes hin6
    have hin4 := hbound.includes hopen4 hin5
    rw [← List.append_assoc] at hin4
    have hin2 := hlabel.includes (by rw [List.append_nil]; exact hjump.includes hin4)
    rw [← List.append_assoc] at hin2
    have hle : extent (items ++ front) ≤ extent (items ++ (front ++ new ++ [.jump x2.writer.labels.size none])) := by
      simp only [extent_append]
      omega
    obtain ⟨s1, hs1, hrun⟩ := hfront.runs p hp (hnew.grows.includes hin2) _ (hbound.place hin5) hle m fiber env s hm hs
    cases hcond : (f env).truthy with
    | true =>
      rw [hcond, if_pos rfl] at hrun
      obtain ⟨s2, hs2, hrun2⟩ := hnew.runs p hp hin2 m fiber env s1 hm hs1
      refine ⟨s2, hs2, (hrun.trans hrun2).trans ?_⟩
      cases hmeaning : meaning env with
      | returned env2 => exact .refl ..
      | goesOn env2 =>
        -- the end of the first branch jumps over the second one
        have hend := hp.runs_jump (f := fiber) (s := s2) hm hin4.items (hbound'.place hin) (by
          simp only [extent_append, extent_jump]
          omega)
        rw [← List.append_assoc] at hend
        exact hend
    | false =>
      rw [hcond, if_neg Bool.false_ne_true] at hrun
      obtain ⟨s2, hs2, hrun2⟩ := hnew'.runs p hp hin6 m fiber env s1 hm hs1
      rw [List.append_assoc items] at hrun2
      exact ⟨s2, hs2, hrun.trans hrun2⟩

/-! ### Returns -/

theorem return_held {v : Value} (hv : Held x x1 [v] [f]) (hx : Steady x scope items) (hne : x.writer.scopes ≠ []) :
    Leads x1 (fun _ x' => x'.names = x.names ∧ ∃ new, Written x x' items new .returned) (do
      push
      let _ ← allocArgs 1
      Lowering.loadValue 0 v
      emitJump retLabel none
      pop) := by
  have hu1 := hv.usable (hx.usable hne)
  obtain ⟨regs, hscopes1, -⟩ := hv.scopes
  refine .bind (push_leads hu1.registers) ?_
  rintro _ x2 ⟨hpush, hscopes2⟩
  refine .bind (allocArgs_leads hpush.registers (by rw [hscopes2]; nofun) (by decide)) ?_
  rintro _ x3 ⟨-, halloc, hscopes3⟩
  refine .bind (loadValue_leads halloc.registers (by decide) List.not_mem_nil v f) ?_
  rintro _ x4 ⟨hscopes4, hload⟩
  rw [hscopes3, hscopes2, grow_cons] at hscopes4
  have heffect := ((hv.effect.mono (List.nil_subset _) (fun _ _ => id) fun env s hs => (List.forall₂_cons.1 hs).1).trans
    ((hpush.trans halloc).effect [] _)).trans hload
  obtain ⟨code, hcode, hrun⟩ := heffect
  have hx4 := hx.computes hcode
  refine .bind (emitJump_leads hx4.registers hx4.lays hx4.ret hx4.unbound fun _ hr => by cases hr) ?_
  rintro _ x5 ⟨hscopes5, -, -, hnames5, hjump⟩
  refine (pop_leads hjump.registers (hscopes5.trans hscopes4)).mono ?_
  rintro _ x6 ⟨hpop, hscopes6⟩
  have hgrows := (hjump.computes hpop)
  refine ⟨by rw [hpop.names_eq, hnames5, hcode.names_eq], _, (hcode.grows hx.lays).trans hgrows,
    ⟨regs, hscopes6.trans hscopes1⟩, ?_⟩
  intro p hp hin m fiber env s hm hs
  rw [← List.append_assoc] at hin
  have hin4 := hgrows.includes hin
  obtain ⟨s', heff, hglobals, -, -⟩ := hrun p.image.floats hin4.floats env s
    (matches_of_isPrefix hs.values (hcode.names_eq ▸ hin4.names)) trivial
  refine ⟨s', hs.congr hglobals, (hp.runs_code hm hin4.items heff).trans ?_⟩
  have hle := extent_le_of_isPrefix hin.items
  rw [extent_append, extent_jump] at hle
  exact hp.runs_jump (f := fiber) (s := s') hm hin.items hp.returns hle

theorem returnResult_leads (hp : p.Means scope f) (hx : Steady x scope items) (hne : x.writer.scopes ≠ []) :
    Leads x (fun _ x' => x'.names = x.names ∧ ∃ new, Written x x' items new .returned)
      (returnResult (some p)) :=
  .bind (number_leads hp (hx.usable hne)) fun _ _ hv => return_held hv hx hne

theorem returnResult_none_leads (hx : Steady x scope items) (hne : x.writer.scopes ≠ []) :
    Leads x (fun _ x' => x'.names = x.names ∧ ∃ new, Written x x' items new .returned) (returnResult none) :=
  return_held (held_float hx.registers (by decide +kernel) fun _ => .refl _) hx hne

end Sketch

/-! ### Trees -/

open Sketch

variable {scope : List String}

variable {c : Expr} {x : Sketch}

theorem Expr.truthy_eval (hplain : c.isPlain scope = true) {taken : Bool}
    (hc : constantCondition? c = some taken) (env : Env) : (c.eval env).truthy = taken := by
  cases c with
  | literal span value =>
    cases hc
    cases value with
    | number c => exact truthy_literal c
    | bool b =>
      change (Number.ofBool b).truthy = b
      cases b <;> decide +kernel
    | null => exact Number.isQuiet_nan.truthy
    | string s => cases hplain
  | _ => cases hc

theorem does_pure (scope : List String) : Does (pure ()) scope [] .goesOn := by
  intro x items hx _
  have hempty := written_names hx [] (by rw [List.append_nil]; exact hx.nodup)
  rw [List.append_nil] at hempty
  exact .pure ⟨(List.append_nil _).symm, [], hempty⟩

def Sketch.added (x : Sketch) : Stmt → List String
  | .var _ _ declarators => x.fresh (declarators.map Declarator.name)
  | s => s.declares

theorem Sketch.added_of_nested (h : x.topLevel = false) (s : Stmt) : x.added s = s.declares := by
  cases s with
  | var span kind declarators =>
    rw [added, fresh, h, Stmt.declares]
    rfl
  | _ => rfl

theorem Stmt.isPlain_of_ifElse {span : Span} {s : Stmt} (h : (Stmt.ifElse span c s none).isPlain scope = true) :
    c.isPlain scope = true ∧ (constantCondition? c ≠ some false → s.isPlain scope = true) := by
  rw [isPlain, Bool.and_eq_true] at h
  grind

theorem Stmt.isPlain_of_ifElse_some {span : Span} {s t : Stmt}
    (h : (Stmt.ifElse span c s (some t)).isPlain scope = true) :
    c.isPlain scope = true ∧ (constantCondition? c ≠ some false → s.isPlain scope = true) ∧
      (constantCondition? c = some false → t.isPlain scope = true) ∧
      (constantCondition? c = none → t.isPlain (scope ++ s.declares) = true) := by
  rw [isPlain, Bool.and_eq_true] at h
  grind

theorem ifElse_comes {span : Span} {s : Stmt} {items : List Item}
    (hplain : (Stmt.ifElse span c s none).isPlain scope = true)
    (hs : constantCondition? c ≠ some false → Does (lowerStmt s) scope s.declares s.exec)
    (hx : Steady x scope items) : Comes x (fun _ x' => x'.names = x.names ++ (Stmt.ifElse span c s none).declares ∧
        ∃ new, Written x x' items new (Stmt.ifElse span c s none).exec)
      (ifElse ⟨c, lowerExpr c, lowerBody c⟩ (lowerStmt s) none) := by
  have hc := (Stmt.isPlain_of_ifElse hplain).1
  have hexec : (Stmt.ifElse span c s none).exec = fun env => if (c.eval env).truthy then s.exec env else .goesOn env :=
    funext fun env => by rw [Stmt.exec]
  rw [hexec, Stmt.declares]
  cases hconst : constantCondition? c with
  | none =>
    rw [hconst] at hs
    exact ifElse_none_comes hconst (lowerExpr_means c hc) hx (hs (by rintro ⟨⟩))
  | some taken =>
    rw [ifElse, hconst]
    simp only [Expr.truthy_eval hc hconst]
    cases taken with
    | true => exact nested_does (hs (by rw [hconst]; rintro ⟨⟩)) hx
    | false => exact nested_does (does_pure scope) hx

theorem ifElse_else_comes {span : Span} {s t : Stmt} {items : List Item}
    (hplain : (Stmt.ifElse span c s (some t)).isPlain scope = true)
    (hs : constantCondition? c ≠ some false → Does (lowerStmt s) scope s.declares s.exec)
    (ht : constantCondition? c = some false → Does (lowerStmt t) scope t.declares t.exec)
    (ht' : constantCondition? c = none → Does (lowerStmt t) (scope ++ s.declares) t.declares t.exec)
    (hx : Steady x scope items) :
    Comes x (fun _ x' => x'.names = x.names ++ (Stmt.ifElse span c s (some t)).declares ∧
        ∃ new, Written x x' items new (Stmt.ifElse span c s (some t)).exec)
      (ifElse ⟨c, lowerExpr c, lowerBody c⟩ (lowerStmt s) (some (lowerStmt t))) := by
  obtain ⟨hc, -, -, hother⟩ := Stmt.isPlain_of_ifElse_some hplain
  have hexec : (Stmt.ifElse span c s (some t)).exec =
      fun env => if (c.eval env).truthy then s.exec env else t.exec env :=
    funext fun env => by rw [Stmt.exec]
  rw [hexec, Stmt.declares]
  cases hconst : constantCondition? c with
  | none =>
    rw [hconst] at hs
    exact ifElse_some_comes hconst (lowerExpr_means c hc) hx (hs (by rintro ⟨⟩)) (ht' hconst)
      (fair_lowerStmt t)
  | some taken =>
    rw [ifElse, hconst]
    simp only [Expr.truthy_eval hc hconst]
    cases taken with
    | true => exact nested_does (hs (by rw [hconst]; rintro ⟨⟩)) hx
    | false => exact nested_does (ht hconst) hx

mutual

/-- The variables of the top level have to be there when their declarations are lowered. -/
theorem lowerStmt_comes {scope : List String} (s : Stmt) (hplain : s.isPlain scope = true) {x : Sketch}
    {items : List Item} (hx : Steady x scope items) (htop : x.topLevel = true → ∀ name ∈ Stmt.hoisted [s], name ∈ x.names) :
    Comes x (fun _ x' => x'.names = x.names ++ x.added s ∧ ∃ new, Written x x' items new s.exec) (lowerStmt s) := by
  cases s with
  | var span kind declarators =>
    rw [Stmt.isPlain, Bool.and_eq_true] at hplain
    rw [lowerStmt, if_pos (of_decide_eq_true hplain.1),
      show Stmt.exec (.var span kind declarators) = fun env => .goesOn (Declarator.execAll declarators env) from
        funext fun env => by rw [Stmt.exec]]
    cases of_decide_eq_true hplain.1
    refine statement_comes (N := (· = _)) hx fun x1 hlevel hnames hx1 hne => .of_leads ?_
    refine (lowerDeclarators_leads hplain.2 hx1 hne fun hl d hd => ?_).mono ?_
    · rw [hnames]
      refine htop (hlevel ▸ hl) _ ?_
      rw [Stmt.hoisted, Stmt.hoisted, List.append_nil]
      exact List.mem_map_of_mem hd
    · rintro _ x' ⟨hnames', hnew⟩
      refine ⟨?_, hnew⟩
      rw [hnames', hnames, Sketch.added, fresh, hlevel, fresh]
  | expr span value =>
    cases value with
    | assign span' target value =>
      cases target with
      | ident id =>
        rw [Stmt.isPlain] at hplain
        rw [lowerStmt, lowerExpr, show Stmt.exec (.expr span (.assign span' (.ident id) value)) = fun env =>
          .goesOn (env.set id.name (value.eval env)) from funext fun env => by rw [Stmt.exec]]
        refine statement_comes (N := (· = _)) hx fun x1 _ hnames hx1 hne => .of_leads ?_
        have hassign := assignVariable_leads (lowerExpr_means value hplain) hx1 hne id
        rw [hnames] at hassign
        exact Outcome.discard_iff.2 (Leads.located (hassign.mono fun _ _ h =>
          ⟨h.1.trans (List.append_nil _).symm, h.2⟩))
      | _ => cases hplain
    | _ => cases hplain
  | ifElse span c s other =>
    cases other with
    | none =>
      rw [lowerStmt]
      refine statement_comes (N := (· = _)) hx fun x1 _ hnames hx1 _ => ?_
      rw [← hnames]
      exact ifElse_comes hplain (fun h => lowerStmt_does s ((Stmt.isPlain_of_ifElse hplain).2 h)) hx1
    | some t =>
      obtain ⟨-, hs, ht, ht'⟩ := Stmt.isPlain_of_ifElse_some hplain
      rw [lowerStmt]
      refine statement_comes (N := (· = _)) hx fun x1 _ hnames hx1 _ => ?_
      rw [← hnames]
      exact ifElse_else_comes hplain (fun h => lowerStmt_does s (hs h)) (fun h => lowerStmt_does t (ht h))
        (fun h => lowerStmt_does t (ht' h)) hx1
  | block span stmts =>
    rw [Stmt.isPlain] at hplain
    rw [lowerStmt, show Stmt.exec (.block span stmts) = Stmt.execAll stmts from funext fun env => by rw [Stmt.exec]]
    refine statement_comes (N := (· = _)) hx fun x1 _ hnames hx1 _ => ?_
    rw [← hnames]
    exact nested_does (lowerStmts_does stmts hplain) hx1
  | ret span value =>
    rw [show Stmt.exec (.ret span value) = .returned from funext fun env => by rw [Stmt.exec],
      show x.added (.ret span value) = [] from rfl, List.append_nil]
    cases value with
    | none =>
      rw [lowerStmt]
      refine statement_comes (N := (· = _)) hx fun x1 _ hnames hx1 hne => .of_leads ?_
      rw [← hnames]
      exact returnResult_none_leads hx1 hne
    | some value =>
      rw [Stmt.isPlain] at hplain
      rw [lowerStmt]
      refine statement_comes (N := (· = _)) hx fun x1 _ hnames hx1 hne => .of_leads ?_
      rw [← hnames]
      exact returnResult_leads (lowerExpr_means value hplain) hx1 hne
  | function span head body => cases hplain

theorem lowerStmt_does {scope : List String} (s : Stmt) (hplain : s.isPlain scope = true) :
    Does (lowerStmt s) scope s.declares s.exec := by
  intro x items hx hlevel
  rw [← added_of_nested hlevel s]
  exact lowerStmt_comes s hplain hx fun htop => absurd (hlevel.symm.trans htop) nofun

theorem lowerStmts_does {scope : List String} (ss : List Stmt) (hplain : Stmt.allPlain scope ss = true) :
    Does (lowerStmts ss) scope (Stmt.declaresAll ss) (Stmt.execAll ss) := by
  cases ss with
  | nil => exact does_pure scope
  | cons s rest =>
    rw [Stmt.allPlain, Bool.and_eq_true] at hplain
    intro x items hx hlevel
    rw [lowerStmts]
    refine (lowerStmt_does s hplain.1 x items hx hlevel).bind ?_ fun _ => fair_lowerStmts rest
    rintro _ x1 ⟨hnames1, new, hnew⟩
    have hx1 := (hnew.grows.steady hx).extend fun name hname => hnames1 ▸ List.mem_append_right _ hname
    refine (lowerStmts_does rest hplain.2 x1 _ hx1 (hnew.grows.topLevel_eq.trans hlevel)).mono ?_
    rintro _ x2 ⟨hnames2, more, hmore⟩
    refine ⟨?_, new ++ more, ?_⟩
    · rw [hnames2, hnames1, List.append_assoc, Stmt.declaresAll]
    · rw [show Stmt.execAll (s :: rest) = fun env => (s.exec env).andThen (Stmt.execAll rest) from
        funext fun env => by rw [Stmt.execAll]]
      exact hnew.trans hmore

end

end BusScript
