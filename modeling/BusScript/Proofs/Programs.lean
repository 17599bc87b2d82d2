import BusScript.Proofs.FoundProblems
import BusScript.Proofs.PlainExpressions

/-!
Code while it is written, and what it does in the end. Jumps are open while code is written, so what the code does is
said of every finished program that the code becomes a part of. Problems are reported when they are found and lowering
goes on, so what is written is said only if there are none in the end.
-/

namespace BusScript

open CodeWriter Draft Item

/-- A main procedure in an image: what stands in front of its return, the places of its labels, and the names of the
globals. -/
structure Program where
  image : Image
  start : Nat
  body : List Item
  offset? : Nat → Option Nat
  names : List String

namespace Program

structure Loaded (p : Program) : Prop where
  placed : ∃ target more, Placed p.image p.start target (p.body ++ .instr .ret :: more) ∧
    ∀ place l, (place, l) ∈ jumps 0 p.body → target place = p.offset? l
  returns : p.offset? retLabel = some (extent p.body)
  nodup : p.names.Nodup

/-- What was written so far is a part of the program. -/
structure Includes (p : Program) (x : Sketch) (items : List Item) : Prop where
  items : items <+: p.body
  names : x.names <+: p.names
  floats : ∀ (i : Nat) (y : Number), x.floats[i]? = some y → p.image.floats[i]? = some y
  offsets : ∀ l o, x.writer.offset? l = some o → p.offset? l = some o

def place (p : Program) (items : List Item) : Progress → Nat
  | .goesOn _ => extent items
  | .returned _ => extent p.body

variable {p : Program} {m : Machine} {f : Fiber} {front : List Item} {s s' : Store}

theorem Loaded.runs_code (h : p.Loaded) (hm : m.image = p.image) {code : List Instr}
    (hitems : front ++ code.map .instr <+: p.body) (heff : Instr.effects p.image.floats s code = some s') :
    m.RunsTo f (p.start + extent front) s (p.start + extent (front ++ code.map .instr)) s' := by
  obtain ⟨target, more, hplaced, -⟩ := h.placed
  obtain ⟨rest, hrest⟩ := hitems
  rw [← hrest, List.append_assoc, List.append_assoc, ← hm] at hplaced
  rw [← hm] at heff
  exact hplaced.runsTo_instrs heff

theorem Loaded.runs_jump (h : p.Loaded) (hm : m.image = p.image) {l t : Nat} {ifZero : Option Nat}
    (hitems : front ++ [.jump l ifZero] <+: p.body) (ht : p.offset? l = some t) (hahead : extent front + 2 ≤ t) :
    m.RunsTo f (p.start + extent front) s
      (p.start + if ifZero.any fun r => (s.get r).truthy then extent (front ++ [.jump l ifZero]) else t) s := by
  obtain ⟨target, more, hplaced, htarget⟩ := h.placed
  obtain ⟨rest, hrest⟩ := hitems
  have hmem : (extent front, l) ∈ jumps 0 p.body := by
    rw [← hrest, jumps_append, jumps_append, Nat.zero_add]
    exact List.mem_append_left _ (List.mem_append_right _ List.mem_cons_self)
  rw [← hrest, List.append_assoc, List.append_assoc, ← hm] at hplaced
  exact hplaced.runsTo_jump ((htarget _ l hmem).trans ht) hahead

end Program

theorem Item.extent_le_of_isPrefix {items more : List Item} (h : items <+: more) : extent items ≤ extent more := by
  obtain ⟨rest, rfl⟩ := h
  simp_all

theorem Item.extent_jump (l : Nat) (ifZero : Option Nat) : extent [.jump l ifZero] = 2 := rfl

/-- Globals for the variables `names`, and no others. -/
structure Store.Holds (s : Store) (names : List String) (env : Env) : Prop where
  size : s.globals.size = names.length
  values : s.Matches names env

theorem Store.Holds.congr {s s' : Store} {names : List String} {env : Env} (h : s.Holds names env)
    (hglobals : s'.globals = s.globals) : s'.Holds names env := by
  refine ⟨hglobals ▸ h.size, ?_⟩
  rw [Store.Matches, hglobals]
  exact h.values

namespace Sketch

variable {x x' x'' : Sketch} {scope : List String} {items new more : List Item}

/-- Code was written, and globals and constants were added. -/
structure Grows (x x' : Sketch) (items new : List Item) : Prop where
  rest : x' = { x with writer := x'.writer, names := x'.names, floats := x'.floats }
  registers : x'.writer.Registers
  lays : x'.writer.Lays (items ++ new)
  size : x.writer.labels.size ≤ x'.writer.labels.size
  offsets : ∀ l, l < x.writer.labels.size → x'.writer.offset? l = x.writer.offset? l
  names : x.names <+: x'.names
  nodup : x.names.Nodup → x'.names.Nodup
  floats : ∀ (i : Nat) (y : Number), x.floats[i]? = some y → x'.floats[i]? = some y

/-- Statements may be lowered, with the variables in `scope`. -/
structure Steady (x : Sketch) (scope : List String) (items : List Item) : Prop where
  registers : x.writer.Registers
  lays : x.writer.Lays items
  names : ∀ name ∈ scope, name ∈ x.names
  nodup : x.names.Nodup
  ret : retLabel < x.writer.labels.size
  unbound : x.writer.offset? retLabel = none

/-- Code was written that does what `meaning` says. -/
structure Written (x x' : Sketch) (items new : List Item) (meaning : Env → Progress) : Prop where
  grows : Grows x x' items new
  scopes : ∃ regs, x'.writer.scopes = grow regs x.writer.scopes
  runs : ∀ p : Program, p.Loaded → p.Includes x' (items ++ new) → ∀ (m : Machine) (f : Fiber) env s, m.image = p.image →
    s.Holds p.names env → ∃ s', s'.Holds p.names (meaning env).env ∧
      m.RunsTo f (p.start + extent items) s (p.start + p.place (items ++ new) (meaning env)) s'

theorem lt_size_of_offset? {w : CodeWriter} {l o : Nat} (h : w.offset? l = some o) : l < w.labels.size := by
  obtain ⟨label, hlabel, -⟩ := Option.bind_eq_some_iff.1 h
  exact (Array.getElem?_eq_some_iff.1 hlabel).1

namespace Grows

theorem trans (h : Grows x x' items new) (h' : Grows x' x'' (items ++ new) more) : Grows x x'' items (new ++ more) := by
  refine ⟨by rw [h'.rest, h.rest], h'.registers, ?_, Nat.le_trans h.size h'.size, fun l hl => ?_,
    h.names.trans h'.names, fun hx => h'.nodup (h.nodup hx), fun i y hy => h'.floats i y (h.floats i y hy)⟩
  · rw [← List.append_assoc]
    exact h'.lays
  · rw [h'.offsets l (Nat.lt_of_lt_of_le hl h.size), h.offsets l hl]

theorem includes (h : Grows x x' items new) {p : Program} (hp : p.Includes x' (items ++ new)) : p.Includes x items := by
  refine ⟨(List.prefix_append ..).trans hp.items, h.names.trans hp.names,
    fun i y hy => hp.floats i y (h.floats i y hy), ?_⟩
  intro l o ho
  refine hp.offsets l o ?_
  rw [h.offsets l (lt_size_of_offset? ho), ho]

theorem steady (h : Grows x x' items new) (hx : Steady x scope items) : Steady x' scope (items ++ new) := by
  refine ⟨h.registers, h.lays, fun name hname => h.names.subset (hx.names name hname), h.nodup hx.nodup,
    Nat.lt_of_lt_of_le hx.ret h.size, ?_⟩
  rw [h.offsets _ hx.ret, hx.unbound]

end Grows

theorem Computes.grows {code : List Instr} (h : Computes x x' code) (hitems : x.writer.Lays items) :
    Grows x x' items (code.map .instr) := by
  refine ⟨by rw [h.rest], h.registers, h.lays items hitems, by rw [h.labels], fun l _ => offset?_congr h.labels l,
    h.names_eq ▸ List.prefix_rfl, ?_, h.floats⟩
  rw [h.names_eq]
  exact id

theorem Steady.leveled (h : Steady x scope items) (level : Bool) : Steady { x with topLevel := level } scope items :=
  ⟨h.registers, h.lays, h.names, h.nodup, h.ret, h.unbound⟩

variable {meaning : Env → Progress}

theorem Written.leveled (h : Written x x' items new meaning) (level : Bool) :
    Written { x with topLevel := level } { x' with topLevel := level } items new meaning := by
  have hgrows := h.grows
  refine ⟨⟨?_, hgrows.registers, hgrows.lays, hgrows.size, hgrows.offsets, hgrows.names, hgrows.nodup, hgrows.floats⟩,
    h.scopes, fun p hp hin => h.runs p hp ⟨hin.items, hin.names, hin.floats, hin.offsets⟩⟩
  rw [hgrows.rest]

theorem Written.trans {meaning' : Env → Progress} (h : Written x x' items new meaning)
    (h' : Written x' x'' (items ++ new) more meaning') :
    Written x x'' items (new ++ more) fun env => (meaning env).andThen meaning' := by
  obtain ⟨regs, hregs⟩ := h.scopes
  obtain ⟨regs', hregs'⟩ := h'.scopes
  refine ⟨h.grows.trans h'.grows, ⟨regs ++ regs', by rw [hregs', hregs, grow_grow]⟩, fun p hp hin m f env s hm hs => ?_⟩
  rw [← List.append_assoc] at hin ⊢
  obtain ⟨s1, hs1, hrun⟩ := h.runs p hp (h'.grows.includes hin) m f env s hm hs
  cases hmeaning : meaning env with
  | goesOn env1 =>
    rw [hmeaning] at hs1 hrun
    obtain ⟨s2, hs2, hrun'⟩ := h'.runs p hp hin m f env1 s1 hm hs1
    exact ⟨s2, hs2, hrun.trans hrun'⟩
  | returned env1 =>
    rw [hmeaning] at hs1 hrun
    exact ⟨s1, hs1, hrun⟩

/-- What `act` leads to if it succeeds without problems. -/
def Comes {α : Type} (x : Sketch) (Q : α → Sketch → Prop) (act : Lowering α) : Prop :=
  Outcome (fun a d => d.findings.count = 0 → ∃ x' : Sketch, d = x'.draft ∧ Q a x') (fun _ _ => True) (act x.draft)

namespace Comes

variable {α β : Type} {Q : α → Sketch → Prop} {R : β → Sketch → Prop} {act : Lowering α} {f : α → Lowering β}

theorem of_leads (h : Leads x Q act) : Comes x Q act := Outcome.imp h fun _ _ ha _ => ha

theorem mono {Q' : α → Sketch → Prop} (h : Comes x Q act) (hq : ∀ a x', Q a x' → Q' a x') : Comes x Q' act := by
  refine Outcome.imp h fun a d ha hclean => ?_
  grind

theorem bind (h : Comes x Q act) (hf : ∀ a x', Q a x' → Comes x' R (f a)) (hfair : ∀ a, Lowering.Fair (f a)) :
    Comes x R (act >>= f) := by
  refine Outcome.bind h (fun a d ha => ?_) fun _ _ => id
  by_cases hclean : d.findings.count = 0
  · obtain ⟨x', rfl, hq⟩ := ha hclean
    exact hf a x' hq
  · exact ((hfair a).recalled d).mono (fun b d' hd' hnone => absurd (hd'.clean hnone) hclean) fun _ _ _ => trivial

theorem pure {a : α} (h : Q a x) : Comes x Q (Pure.pure a) := of_leads (.pure h)

theorem get_bind {f : Draft → Lowering β} (h : Comes x R (f x.draft)) : Comes x R (get >>= f) := h

theorem modify_bind {g : Draft → Draft} {f : Unit → Lowering β} (hx : g x.draft = x'.draft) (h : Comes x' R (f ())) :
    Comes x R (modify g >>= f) := by
  change Outcome _ _ (f () (g x.draft))
  rw [hx]
  exact h

theorem attempt_bind {f : Except Diagnostic α → Lowering β} (h : Comes x Q act)
    (hf : ∀ a x', Q a x' → Comes x' R (f (.ok a))) (hfair : ∀ a, Lowering.Fair (f (.ok a)))
    (herror : ∀ p d, Outcome (fun _ d' => d'.findings.count ≠ 0) (fun _ _ => True) (f (.error p) d)) :
    Comes x R (Lowering.attempt act >>= f) := by
  have hact := h.bind hf hfair
  rw [Comes, Outcome.bind_iff] at hact ⊢
  rw [Lowering.attempt]
  revert hact
  cases act x.draft with
  | ok a d => exact id
  | error stop d =>
    cases stop with
    | reject p => exact fun _ => (herror p d).imp fun _ _ hne hclean => absurd hclean hne
    | abort defect => exact fun _ => trivial

end Comes

theorem Leads.bind_comes {α β : Type} {Q : α → Sketch → Prop} {R : β → Sketch → Prop} {act : Lowering α}
    {f : α → Lowering β} (h : Leads x Q act) (hf : ∀ a x', Q a x' → Comes x' R (f a)) : Comes x R (act >>= f) := by
  refine Outcome.bind h ?_ fun _ _ => id
  rintro a _ ⟨x', rfl, hq⟩
  exact hf a x' hq

theorem nested_comes {α : Type} {Q R : α → Sketch → Prop} {act : Lowering α}
    (h : Comes { x with topLevel := false } Q act)
    (hq : ∀ a x', Q a x' → R a { x' with topLevel := x.topLevel }) : Comes x R (Lowering.nested act) := by
  refine .get_bind (.modify_bind (show _ = draft { x with topLevel := false } from rfl) ?_)
  refine h.attempt_bind (fun a x' ha => ?_) (fun a => .bind (.modify fun _ _ _ => rfl) fun _ => .pure a)
    fun _ _ => trivial
  exact .modify_bind (show _ = draft { x' with topLevel := x.topLevel } from rfl) (.pure (hq a x' ha))

theorem numScopes_leads : Leads x (fun n x' => n = x.writer.scopes.length ∧ x' = x) Lowering.numScopes :=
  .get_bind (.pure ⟨rfl, rfl⟩)

theorem guarded_comes {Q R : Unit → Sketch → Prop} {act : Lowering Unit} {span : Span} (h : x.writer.Registers)
    (hact : ∀ x1, Computes x x1 [] → x1.writer.scopes = [] :: x.writer.scopes → Comes x1 Q act)
    (hopen : ∀ x2, Q () x2 → x2.writer.Registers ∧ ∃ scope, x2.writer.scopes = scope :: x.writer.scopes)
    (hq : ∀ x2 x3, Q () x2 → Computes x2 x3 [] → x3.writer.scopes = x.writer.scopes → R () x3) :
    Comes x R (Lowering.guarded span act) := by
  refine numScopes_leads.bind_comes ?_
  rintro depth _ ⟨rfl, rfl⟩
  refine (push_leads h).bind_comes ?_
  rintro _ x1 ⟨hcode, hscopes⟩
  refine (hact x1 hcode hscopes).attempt_bind (fun _ x2 hx2 => ?_) (fun _ => inferInstance)
    fun p => Lowering.Fair.reported inferInstance (p.orAt span)
  obtain ⟨hregs, scope, hscopes2⟩ := hopen x2 hx2
  refine (pop_leads hregs hscopes2).bind_comes ?_
  rintro _ x3 ⟨hpop, hscopes3⟩
  refine numScopes_leads.bind_comes ?_
  rintro found _ ⟨rfl, rfl⟩
  rw [hscopes3, if_neg fun hne => hne rfl]
  exact .pure (hq x2 _ hx2 hpop hscopes3)

theorem remark_leads (h : x.writer.Registers) {act : Writing Unit} {g : CodeWriter → CodeWriter} (hact : act = modify g)
    (hg : ∀ w, ∃ runs statement, g w = { w with sourceMap := runs, statement }) :
    Leads x (fun _ x' => Computes x x' [] ∧ x'.writer.scopes = x.writer.scopes) (Lowering.write act) := by
  obtain ⟨runs, statement, hw⟩ := hg x.writer
  subst hact
  refine .write (E := fun _ _ => True) ?_
  change _ ∧ _
  rw [hw]
  refine ⟨⟨rfl, ⟨h.nodup, h.allocated, h.small⟩, rfl, fun items hitems => ?_, fun _ _ => id⟩, rfl⟩
  rw [List.map_nil, List.append_nil]
  exact hitems.congr rfl rfl

theorem exists_closeRun (w : CodeWriter) (statement : Option (Nat × Nat)) :
    ∃ runs, { closeRun w with statement } = { w with sourceMap := runs, statement } := by
  rw [closeRun]
  split
  · exact ⟨w.sourceMap, rfl⟩
  · exact ⟨_, rfl⟩

theorem Steady.computes {code : List Instr} (h : Steady x scope items) (hcode : Computes x x' code) :
    Steady x' scope (items ++ code.map .instr) := by
  refine ⟨hcode.registers, hcode.lays items h.lays, ?_, ?_, ?_, ?_⟩
  · rw [hcode.names_eq]
    exact h.names
  · rw [hcode.names_eq]
    exact h.nodup
  · rw [hcode.labels]
    exact h.ret
  · rw [offset?_congr hcode.labels, h.unbound]

theorem Steady.extend (h : Steady x scope items) {declared : List String} (hnames : ∀ name ∈ declared, name ∈ x.names) :
    Steady x (scope ++ declared) items :=
  ⟨h.registers, h.lays, fun name hname => (List.mem_append.1 hname).elim (h.names name) (hnames name), h.nodup, h.ret,
    h.unbound⟩

theorem Steady.usable (h : Steady x scope items) (hne : x.writer.scopes ≠ []) : Usable x scope :=
  ⟨h.registers, hne, h.names⟩

theorem Grows.of_computes {x1 : Sketch} (h : Computes x x1 []) (hgrows : Grows x1 x' items new) :
    Grows x x' items new := by
  refine ⟨by rw [hgrows.rest, h.rest], hgrows.registers, hgrows.lays, h.labels ▸ hgrows.size, fun l hl => ?_,
    h.names_eq ▸ hgrows.names, h.names_eq ▸ hgrows.nodup, fun i y hy => hgrows.floats i y (h.floats i y hy)⟩
  rw [hgrows.offsets l (by rwa [h.labels]), offset?_congr h.labels]

theorem Grows.computes {x1 : Sketch} (h : Grows x x1 items new) (hafter : Computes x1 x' []) :
    Grows x x' items new := by
  have hgrows := h.trans (hafter.grows h.lays)
  rwa [List.map_nil, List.append_nil] at hgrows

theorem Written.around {x1 x2 : Sketch} (hbefore : Computes x x1 [])
    (h : Written x1 x2 items new meaning) (hafter : Computes x2 x' [])
    (hscopes : ∃ regs, x'.writer.scopes = grow regs x.writer.scopes) : Written x x' items new meaning := by
  refine ⟨(Grows.of_computes hbefore h.grows).computes hafter, hscopes, fun p hp hin => h.runs p hp ?_⟩
  refine (hafter.grows h.grows.lays).includes ?_
  rwa [List.map_nil, List.append_nil]

theorem statement_comes {N : List String → Prop} {act : Lowering Unit} {span : Span} (hx : Steady x scope items)
    (hact : ∀ x1 : Sketch, x1.topLevel = x.topLevel → x1.names = x.names → Steady x1 scope items →
      x1.writer.scopes ≠ [] →
      Comes x1 (fun _ x' => N x'.names ∧ ∃ new, Written x1 x' items new meaning) act) :
    Comes x (fun _ x' => N x'.names ∧ ∃ new, Written x x' items new meaning) (Lowering.statement span act) := by
  refine .get_bind ?_
  refine (remark_leads hx.registers rfl fun w => ⟨_, _, (exists_closeRun w _).choose_spec⟩).bind_comes ?_
  rintro _ xa ⟨hstart, hscopesa⟩
  have hguarded : Comes xa (fun _ x' => x'.writer.scopes = x.writer.scopes ∧ x'.writer.Registers ∧ N x'.names ∧ ∃ new,
      Written x x' items new meaning) (Lowering.guarded span act) := by
    refine guarded_comes (Q := fun _ x2 => N x2.names ∧ ∃ x1 new, Computes x x1 [] ∧
      x1.writer.scopes = [] :: x.writer.scopes ∧ Written x1 x2 items new meaning) hstart.registers ?_ ?_ ?_
    · intro x1 hpush hscopes1
      have hcode : Computes x x1 [] := hstart.trans hpush
      rw [hscopesa] at hscopes1
      have hx1 := hx.computes hcode
      rw [List.map_nil, List.append_nil] at hx1
      refine (hact x1 (by rw [hcode.rest]) hcode.names_eq hx1 (by rw [hscopes1]; nofun)).mono ?_
      rintro _ x2 ⟨hnames, new, hnew⟩
      exact ⟨hnames, x1, new, hcode, hscopes1, hnew⟩
    · rintro x2 ⟨-, x1, new, -, hscopes1, hnew⟩
      obtain ⟨regs, hscopes2⟩ := hnew.scopes
      rw [hscopes1, grow_cons] at hscopes2
      exact ⟨hnew.grows.registers, _, hscopesa ▸ hscopes2⟩
    · rintro x2 x3 ⟨hnames, x1, new, hcode, -, hnew⟩ hpop hscopes3
      rw [hscopesa] at hscopes3
      refine ⟨hscopes3, hpop.registers, hpop.names_eq ▸ hnames, new, .around hcode hnew hpop ⟨[], ?_⟩⟩
      rw [hscopes3, grow_nil]
  refine hguarded.bind ?_ fun _ => inferInstance
  rintro _ x3 ⟨hscopes3, hregs3, hnames, new, hnew⟩
  refine .of_leads ((remark_leads hregs3 rfl fun w => ⟨_, _, (exists_closeRun w _).choose_spec⟩).mono ?_)
  rintro _ x4 ⟨hend, hscopes4⟩
  refine ⟨hend.names_eq ▸ hnames, new, .around (.refl hx.registers) hnew hend ⟨[], ?_⟩⟩
  rw [hscopes4, hscopes3, grow_nil]

end Sketch

end BusScript
