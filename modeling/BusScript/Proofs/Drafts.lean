import BusScript.Draft.Compiled
import BusScript.Proofs.Allowed
import BusScript.Proofs.Scopes

/-!
Drafts that are sound: the code of every procedure is a row of instructions that name only what the draft
has, registers stand in scopes, and what functions, roles and dispatchers refer to exists.
-/

namespace BusScript

/-- A field that lies inside what a packet can carry, with its binary point inside the field. -/
structure FieldSpec.FitsAt (field : FieldSpec) (offset : Nat) : Prop where
  shift : ∀ format, field.format? = some format → field.shift ≤ format.bits
  room : offset + field.size ≤ maxPayload

theorem FieldSpec.size_format {field : FieldSpec} {format : FieldFormat}
    (h : field.format? = some format) : format.size = field.size := by
  rw [format?] at h
  split at h
  · rw [FieldFormat.float?.eq_def] at h
    split at h <;> cases h <;> (next heq => rw [heq]; rfl)
  · rw [FieldFormat.int?.eq_def] at h
    split at h <;> cases h <;> (next heq _ => rw [heq]; rfl)

def FieldSpec.FitFrom (offset : Nat) : List FieldSpec → Prop
  | [] => True
  | field :: rest => field.FitsAt offset ∧ FitFrom (offset + field.size) rest

/-- Payloads that a packet can carry, and binary points inside the fields. -/
structure PacketSpec.Fits (p : PacketSpec) : Prop where
  payload : p.payloadSize ≤ maxPayload
  shift : ∀ field ∈ p.fields, ∀ format, field.format? = some format → field.shift ≤ format.bits

theorem FieldSpec.fitFrom {fields : List FieldSpec} {offset : Nat}
    (hshift : ∀ field ∈ fields, ∀ format, field.format? = some format → field.shift ≤ format.bits)
    (hroom : offset + fields.foldr (fun f total => f.size + total) 0 ≤ maxPayload) :
    FitFrom offset fields := by
  induction fields generalizing offset with
  | nil => trivial
  | cons field rest ih =>
    rw [List.foldr_cons] at hroom
    refine ⟨⟨hshift field (by simp), by omega⟩, ih (fun f hf => hshift f (by simp [hf])) (by omega)⟩

theorem PacketSpec.Fits.fields {p : PacketSpec} (h : p.Fits) : FieldSpec.FitFrom 0 p.fields := by
  refine FieldSpec.fitFrom h.shift ?_
  rw [Nat.zero_add]
  exact h.payload

theorem FieldSpec.FitFrom.zip {α : Type} {fields : List FieldSpec} {offset : Nat} (h : FitFrom offset fields)
    (xs : List α) : FitFrom offset ((xs.zip fields).map (·.2)) := by
  induction xs generalizing offset fields with
  | nil => trivial
  | cons x xs ih =>
    cases fields with
    | nil => trivial
    | cons field rest => exact ⟨h.1, ih h.2⟩

def Catalog.Fits (c : Catalog) : Prop := ∀ service ∈ c.services, ∀ p ∈ service.packets, p.Fits

theorem Catalog.mem_of_member? {c : Catalog} {service : ServiceSpec} {id : String} {p : PacketSpec}
    (h : c.member? service id = some p) : p ∈ service.packets :=
  List.mem_of_find?_eq_some h

def CodeWriter.offset? (w : CodeWriter) (l : Nat) : Option Nat := w.labels[l]?.bind (·.offset)

theorem CodeWriter.Lays.offset_le {w : CodeWriter} {items : List Item} (h : w.Lays items) {l o : Nat}
    (ho : w.offset? l = some o) : o ≤ Item.extent items := by
  obtain ⟨label, hlabel, hoffset⟩ := Option.bind_eq_some_iff.1 ho
  obtain ⟨k, -, rfl⟩ := h.bound l label o hlabel hoffset
  have hsplit := Item.extent_append (items.take k) (items.drop k)
  rw [List.take_append_drop] at hsplit
  omega

/-- An instruction that no check objects to. What it says about packets depends on the catalog. -/
structure Instr.Sound (fits : Prop) (b : Bounds) (i : Instr) : Prop where
  known : i.codesKnown = true
  panics : ∀ a x y z, i = .sync .panic a x y z → a ≤ 9999
  allowed : fits → i.Allowed b

theorem Instr.sound_ret (fits : Prop) (b : Bounds) : Instr.ret.Sound fits b := by
  refine ⟨rfl, ?_, fun _ => trivial⟩
  rintro a x y z ⟨⟩

theorem Instr.Sound.mono {fits : Prop} {b b' : Bounds} {i : Instr} (h : i.Sound fits b)
    (hle : b.Le b') : i.Sound fits b' :=
  ⟨h.known, h.panics, fun hfits => (h.allowed hfits).mono hle⟩

structure Procedure.Sound (fits : Prop) (b : Bounds) (p : Procedure) : Prop where
  arity : p.numParams ≤ Lowering.maxParams
  registers : p.writer.Registers
  size : 2 ≤ p.writer.labels.size
  top : p.writer.offset? CodeWriter.topLabel = some 0
  /-- Nothing stands behind the place where the procedure returns but the return itself. -/
  rows : ∃ items, p.writer.Lays items ∧ (∀ i, .instr i ∈ items → i.Sound fits b) ∧
    (p.writer.offset? CodeWriter.retLabel ≠ none → ∃ front, items = front ++ [.instr .ret] ∧
      ∀ l o, p.writer.offset? l = some o → o ≤ Item.extent front)

theorem Procedure.Sound.mono {fits : Prop} {b b' : Bounds} {p : Procedure} (h : p.Sound fits b)
    (hle : b.Le b') : p.Sound fits b' := by
  obtain ⟨items, hlays, hitems, hends⟩ := h.rows
  exact ⟨h.arity, h.registers, h.size, h.top, items, hlays, fun i hi => (hitems i hi).mono hle, hends⟩

structure Procedure.Fresh (p : Procedure) : Prop where
  writer : p.writer = .new
  locals : p.locals = {}
  arity : p.numParams ≤ Lowering.maxParams

theorem Procedure.Fresh.sound {fits : Prop} {b : Bounds} {p : Procedure} (h : p.Fresh) :
    p.Sound fits b := by
  refine ⟨h.arity, ?_, ?_, ?_, [], ?_, nofun, fun hret => ?_⟩
  · rw [h.writer]
    exact CodeWriter.registers_new
  · rw [h.writer]
    exact Nat.le_refl 2
  · rw [h.writer]
    rfl
  · rw [h.writer]
    exact CodeWriter.lays_new
  · rw [h.writer] at hret
    exact absurd rfl hret

/-- Every jump has its target, the code ends in a return, and the parameters have their slots. -/
structure Procedure.Finished (p : Procedure) : Prop where
  bound : ∀ l, l < p.writer.labels.size → p.writer.offset? l ≠ none
  params : p.numParams ≤ p.locals.size

namespace Draft

def bounds (d : Draft) (p : Procedure) : Bounds where
  locals := p.locals.size
  regs := p.writer.maxRegs
  globals := d.globals.size
  floats := d.floats.size
  roles := d.roles.size
  strings := d.strings.size
  callee i := d.procedures[i]?.map (·.numParams)

structure DispatcherSound (d : Draft) (disp : Dispatcher) : Prop where
  procedure : ∃ p, d.procedures[disp.procedure]? = some p ∧ p.numParams = 0
  events : ∀ e ∈ disp.events, e.2 < d.procedures.size
  watches : ∀ watch ∈ disp.watches, watch.handler < d.procedures.size ∧ (d.catalog.Fits → watch.packet.Fits)
  connected : ∀ h ∈ disp.connected, h < d.procedures.size
  disconnected : ∀ h ∈ disp.disconnected, h < d.procedures.size

structure Sound (d : Draft) : Prop where
  current : d.current < d.procedures.size
  procedures : ∀ (i : Nat) (p : Procedure), d.procedures[i]? = some p → p.Sound d.catalog.Fits (d.bounds p)
  functions : ∀ (i : Nat) (f : FunctionEntry), d.functions[i]? = some f → f.numParams ≤ Lowering.maxParams ∧
      ∃ p, d.procedures[f.procedure]? = some p ∧ p.numParams = f.numParams
  services : ∀ (i : Nat) (entry : RoleEntry), d.roles[i]? = some entry → entry.service ∈ d.catalog.services
  dispatchers : ∀ (i : Nat) (entry : RoleEntry) (disp : Dispatcher), d.roles[i]? = some entry →
    entry.dispatcher = some disp → d.DispatcherSound disp

/-- What is in the tables of a draft stays there; code and tables only get longer. -/
structure Grows (d d' : Draft) : Prop where
  catalog : d'.catalog = d.catalog
  globals : ∀ (i : Nat) (v : Variable), d.globals.slots[i]? = some v → d'.globals.slots[i]? = some v
  floats : ∀ (i : Nat) (x : Number), d.floats[i]? = some x → d'.floats[i]? = some x
  strings : ∀ (i : Nat) (s : String), d.strings[i]? = some s → d'.strings[i]? = some s
  procedures : ∀ (i : Nat) (p : Procedure), d.procedures[i]? = some p →
    ∃ p', d'.procedures[i]? = some p' ∧ p'.numParams = p.numParams ∧ p.locals.size ≤ p'.locals.size ∧
      p.writer.maxRegs ≤ p'.writer.maxRegs ∧ p.writer.code.size ≤ p'.writer.code.size
  functions : d'.functions.size = d.functions.size ∧ ∀ (i : Nat) (f : FunctionEntry), d.functions[i]? = some f →
      ∃ lowered, d'.functions[i]? = some { f with isLowered := lowered } ∧ (f.isLowered = true → lowered = true)
  roles : d'.roles.size = d.roles.size ∧ ∀ (i : Nat) (entry : RoleEntry), d.roles[i]? = some entry →
      ∃ entry', d'.roles[i]? = some entry' ∧ entry'.name = entry.name ∧ entry'.service = entry.service
  findings : d.findings.count ≤ d'.findings.count

variable {d d' d'' : Draft}

theorem size_le_of_getElem? {α : Type} {xs ys : Array α}
    (h : ∀ (i : Nat) (x : α), xs[i]? = some x → ∃ y, ys[i]? = some y) : xs.size ≤ ys.size := by
  refine Nat.le_of_not_lt fun hlt => ?_
  obtain ⟨y, hy⟩ := h ys.size xs[ys.size] (Array.getElem?_eq_getElem hlt)
  simp_all

namespace Grows

theorem refl (d : Draft) : d.Grows d := by
  refine ⟨rfl, fun _ _ => id, fun _ _ => id, fun _ _ => id, fun i p hp => ?_, ⟨rfl, fun i f hf => ?_⟩,
    ⟨rfl, fun i entry he => ?_⟩, Nat.le_refl _⟩
  · exact ⟨p, hp, rfl, Nat.le_refl _, Nat.le_refl _, Nat.le_refl _⟩
  · exact ⟨f.isLowered, hf, id⟩
  · exact ⟨entry, he, rfl, rfl⟩

theorem trans (h : d.Grows d') (h' : d'.Grows d'') : d.Grows d'' := by
  refine ⟨h'.catalog.trans h.catalog, fun i v hv => h'.globals i v (h.globals i v hv),
    fun i x hx => h'.floats i x (h.floats i x hx), fun i s hs => h'.strings i s (h.strings i s hs),
    fun i p hp => ?_, ⟨h'.functions.1.trans h.functions.1, fun i f hf => ?_⟩,
    ⟨h'.roles.1.trans h.roles.1, fun i entry he => ?_⟩, Nat.le_trans h.findings h'.findings⟩
  · obtain ⟨p', hp', hnum, hlocals, hregs, hcode⟩ := h.procedures i p hp
    obtain ⟨p'', hp'', hnum', hlocals', hregs', hcode'⟩ := h'.procedures i p' hp'
    grind
  · obtain ⟨lowered, hf', hlow⟩ := h.functions.2 i f hf
    obtain ⟨lowered', hf'', hlow'⟩ := h'.functions.2 i _ hf'
    exact ⟨lowered', hf'', fun hl => hlow' (hlow hl)⟩
  · obtain ⟨entry', he', hname, hservice⟩ := h.roles.2 i entry he
    obtain ⟨entry'', he'', hname', hservice'⟩ := h'.roles.2 i entry' he'
    exact ⟨entry'', he'', hname'.trans hname, hservice'.trans hservice⟩

theorem globals_le (h : d.Grows d') : d.globals.size ≤ d'.globals.size :=
  size_le_of_getElem? fun i v hv => ⟨v, h.globals i v hv⟩

theorem floats_le (h : d.Grows d') : d.floats.size ≤ d'.floats.size :=
  size_le_of_getElem? fun i x hx => ⟨x, h.floats i x hx⟩

theorem strings_le (h : d.Grows d') : d.strings.size ≤ d'.strings.size :=
  size_le_of_getElem? fun i s hs => ⟨s, h.strings i s hs⟩

theorem procedures_le (h : d.Grows d') : d.procedures.size ≤ d'.procedures.size :=
  size_le_of_getElem? fun i p hp => (h.procedures i p hp).imp fun _ => And.left

theorem clean (h : d.Grows d') (hclean : d'.findings.count = 0) : d.findings.count = 0 :=
  Nat.le_zero.1 (hclean ▸ h.findings)

theorem callee (h : d.Grows d') (i n : Nat) (hn : d.procedures[i]?.map (·.numParams) = some n) :
    ∃ n', d'.procedures[i]?.map (·.numParams) = some n' ∧ n ≤ n' := by
  obtain ⟨p, hp, rfl⟩ := Option.map_eq_some_iff.1 hn
  obtain ⟨p', hp', hnum, -⟩ := h.procedures i p hp
  exact ⟨p.numParams, by rw [hp', Option.map_some, hnum], Nat.le_refl _⟩

theorem bounds_le (h : d.Grows d') {p p' : Procedure} (hlocals : p.locals.size ≤ p'.locals.size)
    (hregs : p.writer.maxRegs ≤ p'.writer.maxRegs) : (d.bounds p).Le (d'.bounds p') :=
  ⟨hlocals, hregs, h.globals_le, h.floats_le, Nat.le_of_eq h.roles.1.symm, h.strings_le, h.callee⟩

theorem dispatcherSound (h : d.Grows d') {disp : Dispatcher} (hdisp : d.DispatcherSound disp) :
    d'.DispatcherSound disp := by
  have hle := h.procedures_le
  obtain ⟨p, hp, hnum⟩ := hdisp.procedure
  obtain ⟨p', hp', hnum', -⟩ := h.procedures disp.procedure p hp
  refine ⟨⟨p', hp', hnum'.trans hnum⟩, fun e he => Nat.lt_of_lt_of_le (hdisp.events e he) hle,
    fun watch hw => ?_, fun i hi => Nat.lt_of_lt_of_le (hdisp.connected i hi) hle,
    fun i hi => Nat.lt_of_lt_of_le (hdisp.disconnected i hi) hle⟩
  obtain ⟨hhandler, hfits⟩ := hdisp.watches watch hw
  exact ⟨Nat.lt_of_lt_of_le hhandler hle, h.catalog ▸ hfits⟩

end Grows

/-- Numbers that the fields of instructions and tables can hold. -/
structure Fits (d : Draft) : Prop where
  globals : d.globals.size ≤ 65535
  floats : d.floats.size ≤ maxOperand
  strings : d.strings.size ≤ maxOperand
  roles : d.roles.size ≤ maxOperand
  procedures : d.procedures.size ≤ maxOperand
  bodies : ∀ p ∈ d.procedures, p.locals.size ≤ 65535 ∧ p.writer.code.size ≤ CodeWriter.maxJump

theorem Grows.fits (h : d.Grows d') (hfits : d'.Fits) : d.Fits := by
  refine ⟨Nat.le_trans h.globals_le hfits.globals, Nat.le_trans h.floats_le hfits.floats,
    Nat.le_trans h.strings_le hfits.strings, h.roles.1 ▸ hfits.roles,
    Nat.le_trans h.procedures_le hfits.procedures, fun p hp => ?_⟩
  obtain ⟨i, hi⟩ := Array.mem_iff_getElem?.1 hp
  obtain ⟨p', hp', -, hlocals, -, hcode⟩ := h.procedures i p hi
  obtain ⟨hlocals', hcode'⟩ := hfits.bodies p' (Array.mem_of_getElem? hp')
  exact ⟨Nat.le_trans hlocals hlocals', Nat.le_trans hcode hcode'⟩

theorem Sound.procedure_eq (h : d.Sound) : d.procedures[d.current]? = some d.procedure := by
  rw [procedure, Array.getD_eq_getD_getElem?, Array.getElem?_eq_getElem h.current]
  rfl

theorem Sound.procedure (h : d.Sound) : d.procedure.Sound d.catalog.Fits (d.bounds d.procedure) :=
  h.procedures d.current d.procedure h.procedure_eq

/-- A later state of the same procedure: what is bound stays bound. -/
structure Extends (d d' : Draft) : Prop extends d.Grows d' where
  current : d'.current = d.current
  topLevel : d'.topLevel = d.topLevel
  locals : ∀ (i : Nat) (v : Variable), d.procedure.locals.slots[i]? = some v → d'.procedure.locals.slots[i]? = some v
  location : d.writer.location ≤ d'.writer.location
  labels : d.writer.labels.size ≤ d'.writer.labels.size
  bound : ∀ l o, d.writer.offset? l = some o → d'.writer.offset? l = some o

theorem Extends.refl (d : Draft) : d.Extends d :=
  ⟨Grows.refl d, rfl, rfl, fun _ _ => id, Nat.le_refl _, Nat.le_refl _, fun _ _ => id⟩

theorem Extends.trans (h : d.Extends d') (h' : d'.Extends d'') : d.Extends d'' :=
  ⟨h.toGrows.trans h'.toGrows, h'.current.trans h.current, h'.topLevel.trans h.topLevel,
    fun i v hv => h'.locals i v (h.locals i v hv), Nat.le_trans h.location h'.location,
    Nat.le_trans h.labels h'.labels, fun l o hl => h'.bound l o (h.bound l o hl)⟩

theorem Extends.locals_le (h : d.Extends d') : d.procedure.locals.size ≤ d'.procedure.locals.size :=
  size_le_of_getElem? fun i v hv => ⟨v, h.locals i v hv⟩

theorem Extends.atTopLevel (h : d.Extends d') : d'.atTopLevel = d.atTopLevel := by
  rw [Draft.atTopLevel, Draft.atTopLevel, h.current, h.topLevel]

/-- Who asked for a procedure: a declared function or a role's dispatcher. -/
inductive Owner where
  | function (i : Nat)
  | dispatcher (role : Nat)
  deriving DecidableEq

def Owns (d : Draft) : Owner → Nat → Prop
  | .function i, n => ∃ f, d.functions[i]? = some f ∧ f.procedure = n
  | .dispatcher role, n => ∃ entry disp, d.roles[role]? = some entry ∧ entry.dispatcher = some disp ∧ disp.procedure = n

def Awaits (d : Draft) : Owner → Nat → Prop
  | .function i, n => ∃ f, d.functions[i]? = some f ∧ f.procedure = n ∧ f.isLowered = false
  | .dispatcher role, n => d.Owns (.dispatcher role) n

/-- Procedures have one owner, and what is still to be written is empty. -/
structure Reserved (d : Draft) : Prop where
  unique : ∀ o o' n, d.Owns o n → d.Owns o' n → o = o'
  apart : ∀ o n, d.Owns o n → n ≠ mainIndex
  fresh : ∀ o n, d.Awaits o n → n ≠ d.current ∧ ∃ p, d.procedures[n]? = some p ∧ p.Fresh

/-- Every procedure but the main one and the current one is finished or still to be written. -/
def Accounted (d : Draft) : Prop :=
  ∀ (i : Nat) (p : Procedure), d.procedures[i]? = some p →
    i = mainIndex ∨ i = d.current ∨ p.Finished ∨ ∃ o, d.Awaits o i

theorem Awaits.owns {o : Owner} {n : Nat} (h : d.Awaits o n) : d.Owns o n := by
  cases o with
  | function i =>
    obtain ⟨f, hf, hn, -⟩ := h
    exact ⟨f, hf, hn⟩
  | dispatcher role => exact h

/-- Only the current procedure changed, and neither functions nor roles did. -/
structure SameElsewhere (d d' : Draft) : Prop where
  procedures : ∀ i : Nat, i ≠ d.current → d'.procedures[i]? = d.procedures[i]?
  functions : d'.functions = d.functions
  roles : d'.roles = d.roles

theorem SameElsewhere.trans (h : d.SameElsewhere d') (h' : d'.SameElsewhere d'')
    (hcurrent : d'.current = d.current) : d.SameElsewhere d'' :=
  ⟨fun i hi => (h'.procedures i (hcurrent ▸ hi)).trans (h.procedures i hi),
    h'.functions.trans h.functions, h'.roles.trans h.roles⟩

def scopesOf (d : Draft) (i : Nat) : List (List Nat) := (d.procedures[i]?.map (·.writer.scopes)).getD []

theorem scopesOf_congr {i : Nat} (h : d'.procedures[i]? = d.procedures[i]?) : d'.scopesOf i = d.scopesOf i := by
  rw [scopesOf, h, scopesOf]

theorem scopesOf_of_getElem? {i : Nat} {p : Procedure} (h : d.procedures[i]? = some p) :
    d.scopesOf i = p.writer.scopes := by
  rw [scopesOf, h, Option.map_some, Option.getD_some]

theorem Sound.scopesOf_current (h : d.Sound) : d.scopesOf d.current = d.writer.scopes :=
  scopesOf_of_getElem? h.procedure_eq

theorem SameElsewhere.scopesOf (h : d.SameElsewhere d') (i : Nat) (hi : i ≠ d.current) : d'.scopesOf i = d.scopesOf i :=
  scopesOf_congr (h.procedures i hi)

theorem SameElsewhere.owns_iff (h : d.SameElsewhere d') {o : Owner} {n : Nat} : d'.Owns o n ↔ d.Owns o n := by
  cases o <;> simp only [Owns, h.functions, h.roles]

theorem SameElsewhere.awaits_iff (h : d.SameElsewhere d') {o : Owner} {n : Nat} : d'.Awaits o n ↔ d.Awaits o n := by
  cases o with
  | function i => simp only [Awaits, h.functions]
  | dispatcher role => simp only [Awaits, h.owns_iff]

theorem SameElsewhere.reserved (h : d.SameElsewhere d') (hcurrent : d'.current = d.current)
    (hres : d.Reserved) : d'.Reserved := by
  refine ⟨fun o o' n ho ho' => hres.unique o o' n (h.owns_iff.1 ho) (h.owns_iff.1 ho'),
    fun o n ho => hres.apart o n (h.owns_iff.1 ho), fun o n ho => ?_⟩
  obtain ⟨hne, p, hp, hfresh⟩ := hres.fresh o n (h.awaits_iff.1 ho)
  exact ⟨hcurrent ▸ hne, p, (h.procedures n hne).trans hp, hfresh⟩

theorem SameElsewhere.accounted (h : d.SameElsewhere d') (hcurrent : d'.current = d.current)
    (hacc : d.Accounted) : d'.Accounted := by
  intro i p hp
  by_cases hi : i = d.current
  · exact .inr (.inl (hi.trans hcurrent.symm))
  · rw [h.procedures i hi] at hp
    rcases hacc i p hp with hmain | hcur | hfin | ⟨o, ho⟩
    · exact .inl hmain
    · exact absurd hcur hi
    · exact .inr (.inr (.inl hfin))
    · exact .inr (.inr (.inr ⟨o, h.awaits_iff.2 ho⟩))

end Draft

end BusScript
