import BusScript.Proofs.Constants
import BusScript.Proofs.Meaning

namespace BusScript

open CodeWriter Draft

def Store.Matches (s : Store) (names : List String) (env : Env) : Prop :=
  ∀ (i : Nat) (name : String), names[i]? = some name → ∃ z, s.globals[i]? = some z ∧ z.Alike (env name)

/-- Whether a value is the number `z`, as far as a plain script has to do with it. -/
def Value.Denotes (v : Value) (s : Store) (z : Number) : Prop :=
  match v with
  | .reg r => r < 16 ∧ (s.get r).Alike z
  | .cell .global index => ∃ y, s.globals[index]? = some y ∧ y.Alike z
  | .float c => c ≠ -0 ∧ (if c.isNaN then Number.nan else c).Alike z
  | _ => False

/-- Whether values are numbers that depend on the variables. -/
def Value.DenoteAll (vs : List Value) (fs : List (Env → Number)) (env : Env) (s : Store) : Prop :=
  List.Forall₂ (fun v f => v.Denotes s (f env)) vs fs

def Value.regs : Value → List Nat
  | .reg r => [r]
  | _ => []

/-- The draft of a script that has no procedure but the main one. -/
structure Sketch where
  catalog : Catalog
  options : CompileOptions
  writer : CodeWriter
  /-- The variables by their slots. -/
  names : List String
  floats : Array Number
  findings : Findings
  topLevel : Bool

namespace Sketch

def globals (x : Sketch) : Variables := ⟨(x.names.map ({ name := · })).toArray⟩

def draft (x : Sketch) : Draft where
  catalog := x.catalog
  options := x.options
  procedures := #[{ name := "main", numParams := 0, writer := x.writer }]
  current := Draft.mainIndex
  roles := #[]
  globals := x.globals
  functions := #[]
  floats := x.floats
  strings := #[]
  findings := x.findings
  topLevel := x.topLevel

def live (x : Sketch) : List Nat := x.writer.scopes.flatten

@[simp] theorem writer_draft (x : Sketch) : x.draft.writer = x.writer := rfl

@[simp] theorem setWriter_draft (x : Sketch) (w : CodeWriter) : x.draft.setWriter w = draft { x with writer := w } := by
  simp [Draft.setWriter, Draft.modifyProcedure, draft, Draft.mainIndex, globals]

theorem atTopLevel_draft (x : Sketch) : x.draft.atTopLevel = x.topLevel := Bool.and_true _

theorem find?_globals (x : Sketch) (name : String) : x.globals.find? name = x.names.findIdx? (· == name) := by
  rw [Variables.find?, globals, List.findIdx?_toArray, List.findIdx?_map]
  rfl

theorem resolve?_draft (x : Sketch) (name : String) :
    x.draft.resolve? name = (x.names.findIdx? (· == name)).map (.cell .global ·) := by
  have hlocals : x.draft.procedure.locals.find? name = none := Array.findIdx?_empty
  have hroles : x.draft.roles.findIdx? (·.name == name) = none := Array.findIdx?_empty
  have hfunctions : x.draft.functions.findIdx? (·.name == name) = none := Array.findIdx?_empty
  rw [Draft.resolve?, hlocals, hroles, hfunctions, show x.draft.globals = x.globals from rfl, find?_globals]
  cases x.names.findIdx? (· == name) <;> rfl

theorem exists_findIdx?_of_mem {x : Sketch} {name : String} (h : name ∈ x.names) :
    ∃ i, x.names.findIdx? (· == name) = some i := by
  have hany : x.names.any (· == name) = true := List.any_eq_true.2 ⟨name, h, beq_self_eq_true name⟩
  exact Option.isSome_iff_exists.1 (List.findIdx?_isSome.trans hany)

theorem getElem?_of_findIdx? {x : Sketch} {name : String} {i : Nat} (h : x.names.findIdx? (· == name) = some i) :
    x.names[i]? = some name := by
  obtain ⟨hlt, heq, -⟩ := List.findIdx?_eq_some_iff_getElem.1 h
  rw [List.getElem?_eq_getElem hlt, eq_of_beq heq]

/-- Code was appended, and constants were added to the pool. -/
structure Computes (x x' : Sketch) (code : List Instr) : Prop where
  rest : x' = { x with writer := x'.writer, floats := x'.floats }
  registers : x'.writer.Registers
  labels : x'.writer.labels = x.writer.labels
  lays : ∀ items, x.writer.Lays items → x'.writer.Lays (items ++ code.map .instr)
  floats : ∀ (i : Nat) (y : Number), x.floats[i]? = some y → x'.floats[i]? = some y

variable {x x' x'' : Sketch} {code code' : List Instr}

theorem Computes.names_eq (h : Computes x x' code) : x'.names = x.names := by
  rw [h.rest]

theorem Computes.trans (h : Computes x x' code) (h' : Computes x' x'' code') : Computes x x'' (code ++ code') := by
  refine ⟨by rw [h'.rest, h.rest], h'.registers, h'.labels.trans h.labels, fun items hi => ?_,
    fun i y hy => h'.floats i y (h.floats i y hy)⟩
  rw [List.map_append, ← List.append_assoc]
  exact h'.lays _ (h.lays items hi)

theorem Computes.refl (h : x.writer.Registers) : Computes x x [] :=
  ⟨rfl, h, rfl, fun items hitems => by rwa [List.map_nil, List.append_nil], fun _ _ => id⟩

/-- What stays when globals and the registers `regs` do. -/
def Stable (regs : List Nat) (R : Env → Store → Prop) : Prop :=
  ∀ env s s', s'.globals = s.globals → (∀ r ∈ regs, r < 16 → s'.get r = s.get r) → R env s → R env s'

/-- Code that takes a store with `Pre` to one with `Post` and keeps the globals and the registers `regs`, once the
pool is complete. -/
def Effect (x x' : Sketch) (regs : List Nat) (Pre Post : Env → Store → Prop) : Prop :=
  ∃ code, Computes x x' code ∧ ∀ (pool : Array Number),
    (∀ (i : Nat) (y : Number), x'.floats[i]? = some y → pool[i]? = some y) →
    ∀ env s, s.Matches x.names env → Pre env s → ∃ s', Instr.effects pool s code = some s' ∧
      s'.globals = s.globals ∧ (∀ r ∈ regs, r < 16 → s'.get r = s.get r) ∧ Post env s'

namespace Effect

variable {regs regs' : List Nat} {Pre Pre' Mid Post Post' R : Env → Store → Prop}

theorem registers (h : Effect x x' regs Pre Post) : x'.writer.Registers := by
  obtain ⟨code, hcode, -⟩ := h
  exact hcode.registers

theorem names_eq (h : Effect x x' regs Pre Post) : x'.names = x.names := by
  obtain ⟨code, hcode, -⟩ := h
  exact hcode.names_eq

theorem trans (h : Effect x x' regs Pre Mid) (h' : Effect x' x'' regs Mid Post) : Effect x x'' regs Pre Post := by
  obtain ⟨code, hcode, hrun⟩ := h
  obtain ⟨code', hcode', hrun'⟩ := h'
  refine ⟨code ++ code', hcode.trans hcode', fun pool hpool env s hs hpre => ?_⟩
  obtain ⟨s1, heff, hglobals, hkeep, hmid⟩ := hrun pool (fun i y hy => hpool i y (hcode'.floats i y hy)) env s hs hpre
  have hs1 : s1.Matches x'.names env := by
    rw [hcode.names_eq, Store.Matches, hglobals]
    exact hs
  obtain ⟨s2, heff', hglobals', hkeep', hpost⟩ := hrun' pool hpool env s1 hs1 hmid
  refine ⟨s2, ?_, hglobals'.trans hglobals, fun r hr hlow => (hkeep' r hr hlow).trans (hkeep r hr hlow), hpost⟩
  rw [Instr.effects_append, heff, Option.bind_some, heff']

theorem mono (h : Effect x x' regs Pre Post) (hregs : regs' ⊆ regs) (hpre : ∀ env s, Pre' env s → Pre env s)
    (hpost : ∀ env s, Post env s → Post' env s) : Effect x x' regs' Pre' Post' := by
  obtain ⟨code, hcode, hrun⟩ := h
  refine ⟨code, hcode, fun pool hpool env s hs hpre' => ?_⟩
  obtain ⟨s', heff, hglobals, hkeep, hs'⟩ := hrun pool hpool env s hs (hpre env s hpre')
  exact ⟨s', heff, hglobals, fun r hr => hkeep r (hregs hr), hpost env s' hs'⟩

theorem frame (h : Effect x x' regs Pre Post) (hR : Stable regs R) :
    Effect x x' regs (fun env s => R env s ∧ Pre env s) fun env s => R env s ∧ Post env s := by
  obtain ⟨code, hcode, hrun⟩ := h
  refine ⟨code, hcode, fun pool hpool env s hs hpre => ?_⟩
  obtain ⟨s', heff, hglobals, hkeep, hs'⟩ := hrun pool hpool env s hs hpre.2
  exact ⟨s', heff, hglobals, hkeep, hR env s s' hglobals hkeep hpre.1, hs'⟩

theorem and (h : Effect x x' regs Pre R) (h' : Effect x' x'' regs' (fun _ _ => True) Post) (hregs : regs ⊆ regs')
    (hR : Stable regs' R) : Effect x x'' regs Pre fun env s => R env s ∧ Post env s :=
  h.trans ((h'.frame hR).mono hregs (fun _ _ hr => ⟨hr, trivial⟩) fun _ _ => id)

end Effect

theorem Computes.effect (h : Computes x x' []) (regs : List Nat) (P : Env → Store → Prop) : Effect x x' regs P P :=
  ⟨[], h, fun _ _ _ s _ hp => ⟨s, rfl, rfl, fun _ _ _ => rfl, hp⟩⟩

def Leads {α : Type} (x : Sketch) (Q : α → Sketch → Prop) (act : Lowering α) : Prop :=
  Outcome (fun a d => ∃ x' : Sketch, d = x'.draft ∧ Q a x') (fun _ _ => True) (act x.draft)

namespace Leads

variable {α β : Type} {Q : α → Sketch → Prop} {R : β → Sketch → Prop} {act : Lowering α} {f : α → Lowering β}

theorem bind (h : Leads x Q act) (hf : ∀ a x', Q a x' → Leads x' R (f a)) : Leads x R (act >>= f) := by
  refine Outcome.bind h ?_ fun _ _ => id
  rintro a _ ⟨x', rfl, hq⟩
  exact hf a x' hq

theorem mono {Q' : α → Sketch → Prop} (h : Leads x Q act) (hq : ∀ a x', Q a x' → Q' a x') : Leads x Q' act := by
  refine Outcome.imp h ?_
  grind

theorem pure {a : α} (h : Q a x) : Leads x Q (Pure.pure a) := ⟨x, rfl, h⟩

theorem throw (stop : Stop) : Leads x Q (MonadExcept.throw stop) := trivial

theorem get_bind {f : Draft → Lowering β} (h : Leads x R (f x.draft)) : Leads x R (get >>= f) := h

theorem modify_bind {g : Draft → Draft} {f : Unit → Lowering β} (hx : g x.draft = x'.draft) (h : Leads x' R (f ())) :
    Leads x R (modify g >>= f) := by
  change Outcome _ _ (f () (g x.draft))
  rw [hx]
  exact h

theorem located {span : Span} (h : Leads x Q act) : Leads x Q (Lowering.located span act) := by
  rw [Leads, Lowering.located]
  revert h
  rw [Leads]
  cases act x.draft with
  | ok a d => exact id
  | error stop d => exact fun _ => trivial

theorem write {act : Writing α} {E : Stop → CodeWriter → Prop}
    (h : Outcome (fun a w => Q a { x with writer := w }) E (act x.writer)) : Leads x Q (Lowering.write act) := by
  rw [Leads, Lowering.write, writer_draft]
  revert h
  cases act x.writer with
  | ok a w => exact fun h => ⟨_, setWriter_draft x w, h⟩
  | error stop w => exact fun _ => trivial

end Leads

theorem Computes.rescoped {w : CodeWriter} {scopes : List (List Nat)} (h : Rescoped x.writer w scopes) :
    Computes x { x with writer := w } [] := by
  have hcode : w.code = x.writer.code := by rw [h.eq]
  have hlabels : w.labels = x.writer.labels := by rw [h.eq]
  refine ⟨rfl, h.registers, hlabels, fun items hitems => ?_, fun _ _ => id⟩
  rw [List.map_nil, List.append_nil]
  exact hitems.congr hcode hlabels

variable {regs : List Nat} {scope : List String} {rest : List (List Nat)}

section

variable (h : x.writer.Registers)

include h

theorem notMem_of_innermost {scope : List Nat}
    (hscopes : x.writer.scopes = scope :: rest) {r : Nat} (hr : r ∈ scope) : r ∉ rest.flatten := by
  have hnodup := h.nodup
  grind

theorem push_leads :
    Leads x (fun _ x' => Computes x x' [] ∧ x'.writer.scopes = [] :: x.writer.scopes) (Lowering.write push) :=
  .write (h.push.imp fun _ _ hw => ⟨.rescoped hw, hw.scopes_eq⟩)

theorem pop_leads {scope : List Nat} (hscopes : x.writer.scopes = scope :: rest) :
    Leads x (fun _ x' => Computes x x' [] ∧ x'.writer.scopes = rest) (Lowering.write pop) :=
  .write ((h.pop hscopes).imp fun _ _ hw => ⟨.rescoped hw, hw.scopes_eq⟩)

theorem popExcept_leads {scope : List Nat}
    (hscopes : x.writer.scopes = scope :: rest) (hrest : rest ≠ []) {r : Nat} (hr : r ∈ scope) :
    Leads x (fun _ x' => Computes x x' [] ∧ x'.writer.scopes = grow [r] rest)
      (Lowering.write (popExcept (some r))) := by
  refine .write ((h.popExcept hscopes fun _ => hrest).imp fun _ w hw => ?_)
  refine ⟨.rescoped hw, ?_⟩
  rw [hw.scopes_eq, kept, if_pos hr]

theorem allocReg_leads (hne : x.writer.scopes ≠ []) :
    Leads x (fun r x' => Computes x x' [] ∧ x'.writer.scopes = grow [r] x.writer.scopes ∧ r < 16 ∧ r ∉ x.live)
      (Lowering.write allocReg) := by
  refine .write ((h.allocReg hne).imp ?_)
  rintro r w ⟨hw, hlow, hfree⟩
  refine ⟨.rescoped hw, hw.scopes_eq, hlow, fun hmem => ?_⟩
  rw [(h.allocated r).2 hmem] at hfree
  cases hfree

theorem allocArgs_leads (hne : x.writer.scopes ≠ []) {count : Nat} (hcount : count < 256) :
    Leads x (fun regs x' => regs = List.range count ∧ Computes x x' [] ∧
        x'.writer.scopes = grow (List.range count) x.writer.scopes)
      (Lowering.write (allocArgs count)) := by
  refine .write ((h.allocArgs hne count).imp ?_)
  rintro regs w ⟨rfl, hw, -⟩
  rw [Nat.mod_eq_of_lt hcount] at hw ⊢
  exact ⟨rfl, .rescoped hw, hw.scopes_eq⟩

theorem emit_leads (i : Instr) :
    Leads x (fun _ x' => Computes x x' [i] ∧ x'.writer.scopes = x.writer.scopes) (Lowering.write (emit i)) := by
  refine .write (E := fun _ _ => True) ?_
  cases hemit : emit i x.writer with
  | error stop w => trivial
  | ok u w =>
    have hwords := pushWords_outcome i.encode x.writer
    rw [show pushWords i.encode x.writer = .ok u w from hemit] at hwords
    obtain ⟨ws, -, rfl⟩ := hwords
    refine ⟨⟨rfl, ⟨h.nodup, h.allocated, h.small⟩, rfl, fun items hitems => ?_, fun _ _ => id⟩, rfl⟩
    have hlays := emit_outcome hitems i
    rw [hemit] at hlays
    exact hlays.2.1

end

theorem Computes.effect_instr {i : Instr} (h : Computes x x' [i]) {Pre Post : Env → Store → Prop}
    (hi : ∀ (pool : Array Number), PoolKept x'.floats pool →
      ∀ env s, s.Matches x.names env → Pre env s → ∃ s', i.effect pool s = some s' ∧ s'.globals = s.globals ∧
        (∀ r ∈ regs, r < 16 → s'.get r = s.get r) ∧ Post env s') : Effect x x' regs Pre Post := by
  refine ⟨[i], h, fun pool hpool env s hs hpre => ?_⟩
  obtain ⟨s', heff, hrest⟩ := hi pool hpool env s hs hpre
  refine ⟨s', ?_, hrest⟩
  rw [Instr.effects, heff]
  rfl

theorem Computes.effect_put {i : Instr} (h : Computes x x' [i]) {dst : Nat} (hdst : dst < 16)
    (hregs : dst ∉ regs) {Pre Post : Env → Store → Prop}
    (hi : ∀ (pool : Array Number), PoolKept x'.floats pool →
      ∀ env s, s.Matches x.names env → Pre env s → ∃ z, i.effect pool s = some (s.put dst z) ∧ Post env (s.put dst z)) :
    Effect x x' regs Pre Post := by
  refine h.effect_instr fun pool hpool env s hs hpre => ?_
  obtain ⟨z, heff, hpost⟩ := hi pool hpool env s hs hpre
  refine ⟨_, heff, rfl, fun r hr hlow => ?_, hpost⟩
  rw [Store.get_put s hdst hlow, if_neg fun heq : r = dst => hregs (heq ▸ hr)]

theorem emit_put {i : Instr} (h : x.writer.Registers) {dst : Nat} (hdst : dst < 16)
    (hregs : dst ∉ regs) {P Q : Env → Store → Prop}
    (hi : ∀ (pool : Array Number), PoolKept x.floats pool →
      ∀ env s, s.Matches x.names env → P env s → ∃ z, i.effect pool s = some (s.put dst z) ∧ Q env (s.put dst z)) :
    Leads x (fun _ x' => x'.writer.scopes = x.writer.scopes ∧ Effect x x' regs P Q) (Lowering.write (emit i)) := by
  refine (emit_leads h i).mono ?_
  rintro _ x' ⟨hcode, hscopes⟩
  exact ⟨hscopes, hcode.effect_put hdst hregs fun pool hpool => hi pool fun j y hy => hpool j y (hcode.floats j y hy)⟩

theorem loadFloat_leads (h : x.writer.Registers) {dst : Nat} (hdst : dst < 16) (hregs : dst ∉ regs) (c : Number) :
    Leads x (fun _ x' => x'.writer.scopes = x.writer.scopes ∧ Effect x x' regs (fun _ _ => c ≠ -0) fun _ s =>
        s.get dst = if c.isNaN then Number.nan else c)
      (Lowering.loadFloat dst c) := by
  obtain ⟨kind, index, floats, heq, hkept, -, hloaded⟩ := Lowering.loadFloat_eq dst c x.draft
  have hcode : Computes x { x with floats } [] := by
    refine ⟨rfl, h, rfl, fun items hitems => ?_, hkept⟩
    rwa [List.map_nil, List.append_nil]
  rw [Leads, heq]
  change Leads { x with floats } _ _
  refine (emit_put (P := fun _ _ => c ≠ -0) (Q := fun _ s => s.get dst = if c.isNaN then Number.nan else c)
    hcode.registers hdst hregs ?_).mono ?_
  · refine fun pool hpool env s _ hc => ⟨c.asLoaded, ?_, ?_⟩
    · rw [Instr.effect, hloaded pool s hpool, Option.map_some]
    · rw [Store.get_put_self, Number.asLoaded, if_neg hc]
  · rintro _ x2 ⟨hscopes, heff⟩
    exact ⟨hscopes, (hcode.effect regs _).trans heff⟩

theorem stable_denotes {v : Value} (hv : ∀ r ∈ v.regs, r ∈ regs) (f : Env → Number) :
    Stable regs fun env s => v.Denotes s (f env) := by
  intro env s s' hglobals hregs hden
  rw [Value.Denotes.eq_def] at hden ⊢
  split at hden
  · next r => exact ⟨hden.1, by rw [hregs r (hv r (List.mem_singleton_self r)) hden.1]; exact hden.2⟩
  · rwa [hglobals]
  · exact hden
  · exact hden

theorem loadValue_leads (h : x.writer.Registers) {dst : Nat} (hdst : dst < 16) (hregs : dst ∉ regs)
    (v : Value) (f : Env → Number) :
    Leads x (fun _ x' => x'.writer.scopes = x.writer.scopes ∧ Effect x x' regs (fun env s => v.Denotes s (f env))
        fun env s => (s.get dst).Alike (f env))
      (Lowering.loadValue dst v) := by
  rw [Lowering.loadValue.eq_def]
  split
  · next src =>
    split
    · next heq =>
      refine .pure ⟨rfl, ((Computes.refl h).effect regs _).mono (fun _ => id) (fun _ _ hs => heq ▸ hs.2) fun _ _ => id⟩
    · refine emit_put h hdst hregs fun pool _ env s _ hs => ⟨s.get src, ?_, ?_⟩
      · rw [Instr.effect, if_pos ⟨hdst, hs.1⟩]
        rfl
      · rw [Store.get_put_self]
        exact hs.2
  · next c =>
    refine (loadFloat_leads h hdst hregs c).mono ?_
    rintro _ x' ⟨hscopes, heff⟩
    have hstable : Stable regs fun env _ => (if c.isNaN then Number.nan else c).Alike (f env) := fun _ _ _ _ _ => id
    refine ⟨hscopes, (heff.frame hstable).mono (fun _ => id) (fun _ _ => And.symm) fun env s hs => ?_⟩
    rw [hs.2]
    exact hs.1
  · next kind index =>
    refine emit_put h hdst hregs fun pool _ env s _ hs => ?_
    cases kind with
    | global =>
      obtain ⟨y, hy, hlike⟩ := hs
      refine ⟨y, ?_, ?_⟩
      · rw [Instr.effect, Instr.loaded, hy]
        rfl
      · rwa [Store.get_put_self]
    | _ => exact hs.elim
  · exact .throw _

/-- Code may go into the draft, and the variables in `scope` are there. -/
structure Usable (x : Sketch) (scope : List String) : Prop where
  registers : x.writer.Registers
  isOpen : x.writer.scopes ≠ []
  names : ∀ name ∈ scope, name ∈ x.names

theorem Usable.grown (h : Usable x scope) (hcode : Computes x x' code) {new : List Nat}
    (hscopes : x'.writer.scopes = grow new x.writer.scopes) : Usable x' scope := by
  refine ⟨hcode.registers, ?_, hcode.names_eq ▸ h.names⟩
  rw [hscopes, ← List.length_pos_iff, length_grow, List.length_pos_iff]
  exact h.isOpen

theorem Usable.pushed (h : Usable x scope) (hcode : Computes x x' code)
    (hscopes : x'.writer.scopes = [] :: x.writer.scopes) : Usable x' scope :=
  ⟨hcode.registers, by rw [hscopes]; nofun, hcode.names_eq ▸ h.names⟩

theorem mem_live_grow {new : List Nat} (hne : x.writer.scopes ≠ [])
    (hscopes : x'.writer.scopes = grow new x.writer.scopes)
    (r : Nat) : r ∈ x'.live ↔ r ∈ x.live ∨ r ∈ new := by
  rw [live, hscopes, (flatten_grow_perm hne).mem_iff, List.mem_append, live]

theorem notMem_live_of_new {new : List Nat} (h : x'.writer.Registers) (hne : x.writer.scopes ≠ [])
    (hscopes : x'.writer.scopes = grow new x.writer.scopes) {r : Nat} (hr : r ∈ new) : r ∉ x.live := by
  have hnodup := h.nodup
  rw [hscopes, (flatten_grow_perm hne).nodup_iff] at hnodup
  exact fun hmem => (List.nodup_append.1 hnodup).2.2 r hmem r hr rfl

/-- Code that computes numbers: each of the values is one, and if it is in a register, that one was taken for it. -/
structure Held (x x' : Sketch) (vs : List Value) (fs : List (Env → Number)) : Prop where
  length : vs.length = fs.length
  effect : Effect x x' x.live (fun _ _ => True) (Value.DenoteAll vs fs)
  scopes : ∃ new, x'.writer.scopes = grow new x.writer.scopes ∧ ∀ v ∈ vs, ∀ r ∈ v.regs, r ∈ new ∧ r < 16

theorem stable_forall {vs : List Value} (hvs : ∀ v ∈ vs, ∀ r ∈ v.regs, r ∈ regs)
    (fs : List (Env → Number)) : Stable regs (Value.DenoteAll vs fs) := by
  intro env s s' hglobals hregs hall
  induction hall with
  | nil => exact .nil
  | @cons v f vs fs hv _ ih =>
    exact .cons (stable_denotes (hvs v List.mem_cons_self) f env s s' hglobals hregs hv)
      (ih fun w hw => hvs w (List.mem_cons_of_mem v hw))

namespace Held

variable {vs ws : List Value} {fs gs : List (Env → Number)} {scope : List String}

theorem usable (h : Held x x' vs fs) (hx : Usable x scope) : Usable x' scope := by
  obtain ⟨code, hcode, -⟩ := h.effect
  obtain ⟨new, hscopes, -⟩ := h.scopes
  exact hx.grown hcode hscopes

theorem live_subset (h : Held x x' vs fs) (hne : x.writer.scopes ≠ []) : x.live ⊆ x'.live := by
  obtain ⟨new, hscopes, -⟩ := h.scopes
  exact fun r hr => (mem_live_grow hne hscopes r).2 (.inl hr)

theorem regs_subset (h : Held x x' vs fs) (hne : x.writer.scopes ≠ []) : ∀ v ∈ vs, ∀ r ∈ v.regs, r ∈ x'.live := by
  obtain ⟨new, hscopes, hnew⟩ := h.scopes
  exact fun v hv r hr => (mem_live_grow hne hscopes r).2 (.inr (hnew v hv r hr).1)

theorem append (h : Held x x' vs fs) (h' : Held x' x'' ws gs) (hne : x.writer.scopes ≠ []) :
    Held x x'' (vs ++ ws) (fs ++ gs) := by
  have heff := h.effect.and h'.effect (h.live_subset hne) (stable_forall (h.regs_subset hne) fs)
  obtain ⟨new, hscopes, hnew⟩ := h.scopes
  obtain ⟨new', hscopes', hnew'⟩ := h'.scopes
  refine ⟨?_, heff.mono (fun _ => id) (fun _ _ => id) fun env s hs => List.rel_append hs.1 hs.2, new ++ new', ?_, ?_⟩
  · rw [List.length_append, List.length_append, h.length, h'.length]
  · rw [hscopes', hscopes, grow_grow]
  · grind

theorem still (h : x.writer.Registers) (hlen : vs.length = fs.length) (hvs : ∀ v ∈ vs, v.regs = [])
    (hden : ∀ env s, s.Matches x.names env → Value.DenoteAll vs fs env s) : Held x x vs fs := by
  refine ⟨hlen, ⟨[], .refl h, fun _ _ env s hs _ => ?_⟩, [], (grow_nil _).symm, ?_⟩
  · exact ⟨s, rfl, rfl, fun _ _ _ => rfl, hden env s hs⟩
  · simp_all

theorem reg {r : Nat} {f : Env → Number} (heff : Effect x x' x.live (fun _ _ => True) (Value.DenoteAll [.reg r] [f]))
    (hscopes : x'.writer.scopes = grow [r] x.writer.scopes) (hlow : r < 16) : Held x x' [.reg r] [f] := by
  refine ⟨rfl, heff, [r], hscopes, fun v hv q hq => ?_⟩
  cases List.mem_singleton.1 hv
  cases List.mem_singleton.1 hq
  exact ⟨List.mem_singleton_self r, hlow⟩

theorem constants (h : x.writer.Registers) {cs : List Number} (hcs : ∀ c ∈ cs, c ≠ -0 ∧ c.isNaN = false) :
    Held x x (cs.map .float) (cs.map fun c _ => c) := by
  refine .still h (by rw [List.length_map, List.length_map]) (fun v hv => ?_) fun env s _ => ?_
  · obtain ⟨c, -, rfl⟩ := List.mem_map.1 hv
    rfl
  · rw [Value.DenoteAll, List.forall₂_map_left_iff, List.forall₂_map_right_iff, List.forall₂_same]
    intro c hc
    refine ⟨(hcs c hc).1, ?_⟩
    rw [(hcs c hc).2]
    exact .refl c

end Held

theorem forceReg_leads (h : Usable x scope) (v : Value) (f : Env → Number) :
    Leads x (fun r x' => ∃ new, x'.writer.scopes = grow new x.writer.scopes ∧ (r ∈ v.regs ∨ r ∈ new ∧ r < 16) ∧
        Effect x x' x.live (fun env s => v.Denotes s (f env)) fun env s => (Value.reg r).Denotes s (f env))
      (Lowering.forceReg v) := by
  rw [Lowering.forceReg.eq_def]
  split
  · next r =>
    exact .pure ⟨[], (grow_nil _).symm, .inl (List.mem_singleton_self r), (Computes.refl h.registers).effect x.live _⟩
  · dsimp only
    split
    · trivial
    · refine .bind (allocReg_leads h.registers h.isOpen) ?_
      rintro r x1 ⟨hcode, hscopes, hlow, hfree⟩
      refine .bind (loadValue_leads hcode.registers hlow hfree v f) ?_
      rintro _ x2 ⟨hscopes', heff⟩
      refine .pure ⟨[r], hscopes'.trans hscopes, .inr ⟨List.mem_singleton_self r, hlow⟩, ?_⟩
      exact ((hcode.effect x.live _).trans heff).mono (fun _ => id) (fun _ _ => id) fun env s hs => ⟨hlow, hs⟩

theorem inReg_leads {p : Part} {f : Env → Number} (h : Usable x scope)
    (hp : Leads x (fun v x' => Held x x' [v] [f]) p.value) :
    Leads x (fun r x' => Held x x' [.reg r] [f]) (Lowering.inReg p) := by
  refine .bind hp fun v x1 hv => ?_
  refine .located ((forceReg_leads (hv.usable h) v f).mono ?_)
  rintro r x2 ⟨new', hscopes', hr, heff⟩
  obtain ⟨new, hscopes, hnew⟩ := hv.scopes
  refine ⟨rfl, ?_, new ++ new', by rw [hscopes', hscopes, grow_grow], ?_⟩
  · refine (hv.effect.mono (fun _ => id) (fun _ _ => id) fun env s hs => ?_).trans
      (heff.mono (hv.live_subset h.isOpen) (fun _ _ => id) fun env s hs => ?_)
    · exact (List.forall₂_cons.1 hs).1
    · exact List.forall₂_cons.2 ⟨hs, .nil⟩
  · intro v' hv' q hq
    cases List.mem_singleton.1 hv'
    cases List.mem_singleton.1 hq
    grind

end Sketch

end BusScript
