import BusScript.Proofs.Frames
import BusScript.Proofs.Stream

/-!
What one word of a program touches. Most words only compute: they change registers, globals, the payload at hand
and the frames of the fiber that runs, but nothing that other fibers, the scheduler or the bus could see.
-/

namespace BusScript

/-- A change of a fiber that is `h` but for the frames. -/
def Fiber.Reframes (h g : Fiber → Fiber) : Prop := ∀ f, ∃ frame callers, g f = { h f with frame, callers }

theorem reframes_self (h : Fiber → Fiber) : Fiber.Reframes h h :=
  fun f => ⟨(h f).frame, (h f).callers, rfl⟩

theorem reframes_comp {h g g' : Fiber → Fiber} (hg : Fiber.Reframes id g) (hg' : Fiber.Reframes h g')
    (hh : ∀ f frame callers, h { f with frame, callers } = { h f with frame, callers }) :
    Fiber.Reframes h (g' ∘ g) := by
  intro f
  obtain ⟨frame, callers, heq⟩ := hg f
  obtain ⟨frame', callers', heq'⟩ := hg' (g f)
  grind

namespace Machine

/-- Nothing has changed but what the fiber at `index` computes with. -/
structure Computed (index : Nat) (m m' : Machine) : Prop where
  rest : m' = { m with
    registers := m'.registers
    operands := m'.operands
    globals := m'.globals
    packet := { m.packet with data := m'.packet.data }
    random := m'.random
    host := { m.host with logs := m'.host.logs }
    fibers := m'.fibers }
  operands : m.operands.Collected → m'.operands.Collected
  globals : m'.globals.size = m.globals.size
  fibers : ∃ g, Fiber.Reframes id g ∧ m'.fibers = m.fibers.modify index g

/-- The fiber has worked in its frame. -/
structure Worked (index : Nat) (m m' : Machine) : Prop extends m.Computed index m' where
  works : ∀ f, m.fibers[index]? = some f → ∃ f', m'.fibers[index]? = some f' ∧ f.Works f'

theorem getElem?_modified {fibers : List Fiber} {index : Nat} {f : Fiber} (hf : fibers[index]? = some f)
    (g : Fiber → Fiber) : (fibers.modify index g)[index]? = some (g f) := by
  rw [List.getElem?_modify_eq, hf]
  rfl

namespace Computed

variable {index : Nat} {m m' m'' : Machine}

theorem trans (h : m.Computed index m') (h' : m'.Computed index m'') : m.Computed index m'' := by
  obtain ⟨g, hg, hfibers⟩ := h.fibers
  obtain ⟨g', hg', hfibers'⟩ := h'.fibers
  refine ⟨?_, h'.operands ∘ h.operands, h'.globals.trans h.globals, g' ∘ g, reframes_comp hg hg' fun _ _ _ => rfl, ?_⟩
  · have hrest := h'.rest
    rw [h.rest] at hrest
    exact hrest
  · rw [hfibers', hfibers, List.modify_modify_eq]

theorem of_modify {g : Fiber → Fiber} (hg : Fiber.Reframes id g) (registers : Registers) :
    m.Computed index { m with registers, operands := {}, fibers := m.fibers.modify index g } :=
  ⟨rfl, fun _ => .empty, rfl, g, hg, rfl⟩

theorem config (h : m.Computed index m') : m'.config = m.config := by rw [h.rest]

theorem roles (h : m.Computed index m') : m'.roles = m.roles := by rw [h.rest]

theorem cache (h : m.Computed index m') : m'.cache = m.cache := by rw [h.rest]

theorem now (h : m.Computed index m') : m'.host.now = m.host.now := by rw [h.rest]

theorem packet (h : m.Computed index m') : ∃ data, m'.packet = { m.packet with data } :=
  ⟨m'.packet.data, by rw [h.rest]⟩

end Computed

namespace Worked

variable {index : Nat} {m m' m'' : Machine}

theorem of_fibers_eq (hfibers : m'.fibers = m.fibers) (hrest : m' = { m with
      registers := m'.registers
      globals := m'.globals
      packet := { m.packet with data := m'.packet.data }
      random := m'.random
      host := { m.host with logs := m'.host.logs } })
    (hglobals : m'.globals.size = m.globals.size := by rfl) : m.Worked index m' := by
  refine ⟨⟨?_, ?_, hglobals, id, reframes_self id, ?_⟩, fun f hf => ⟨f, ?_, .refl f⟩⟩
  · rw [hfibers, hrest]
  · rw [hrest]
    exact id
  · rw [hfibers, List.modify_id]
  · rw [hfibers, hf]

theorem refl (m : Machine) : m.Worked index m := of_fibers_eq rfl rfl

theorem trans (h : m.Worked index m') (h' : m'.Worked index m'') : m.Worked index m'' := by
  refine ⟨h.toComputed.trans h'.toComputed, fun f hf => ?_⟩
  obtain ⟨f', hf', hworks⟩ := h.works f hf
  obtain ⟨f'', hf'', hworks'⟩ := h'.works f' hf'
  exact ⟨f'', hf'', hworks.trans hworks'⟩

theorem of_frame {g : Frame → Frame} (hg : ∀ frame : Frame, frame.Becomes (g frame)) {operands : Operands}
    (hoperands : m.operands.Collected → operands.Collected) :
    m.Worked index { m with
      operands
      fibers := m.fibers.modify index fun f => { f with frame := g f.frame } } :=
  ⟨⟨rfl, hoperands, rfl, _, fun f => ⟨g f.frame, f.callers, rfl⟩, rfl⟩,
    fun f hf => ⟨_, getElem?_modified hf _, rfl, hg f.frame⟩⟩

end Worked

/-- The fiber at `index` has come upon a flaw, and has only computed until then. -/
structure Broken (index : Nat) (m : Machine) (fault : Fault) (m' : Machine) : Prop where
  computed : m.Computed index m'
  flaw : ∃ flaw, fault = .invalid flaw

theorem Worked.broken {index : Nat} {m m' m'' : Machine} {fault : Fault} (h : m.Worked index m')
    (h' : m'.Broken index fault m'') : m.Broken index fault m'' := ⟨h.toComputed.trans h'.computed, h'.flaw⟩

end Machine

namespace Stepping

open Machine

structure Reading {α : Type} (act : Stepping α) : Prop where
  ends : ∀ m, Outcome (fun _ m' => m' = m) (fun fault m' => m' = m ∧ ∃ flaw, fault = .invalid flaw) (act m)

namespace Reading

variable {α β : Type} {x : Stepping α} {f : α → Stepping β}

theorem bind (hx : Reading x) (hf : ∀ a, Reading (f a)) : Reading (x >>= f) := by
  constructor
  intro m
  refine (hx.ends m).bind ?_ fun _ _ h => h
  rintro a _ rfl
  exact (hf a).ends _

theorem pure (a : α) : Reading (pure a : Stepping α) := ⟨fun _ => rfl⟩

theorem invalid (flaw : Flaw) : Reading (invalid flaw : Stepping α) := ⟨fun _ => ⟨rfl, flaw, rfl⟩⟩

theorem get : Reading (get : Stepping Machine) := ⟨fun _ => rfl⟩

end Reading

variable {α : Type} {index : Nat}

theorem reading_known (code : Nat) (o : Option α) : Reading (known code o) := by
  cases o with
  | none => exact .invalid _
  | some v => exact .pure v

theorem reading_fiber (j : Nat) : Reading (fiber j) := by
  refine Reading.get.bind fun m => ?_
  cases m.fibers[j]? with
  | none => exact .invalid _
  | some f => exact .pure f

theorem reading_string (j : Nat) : Reading (string j) := by
  refine Reading.get.bind fun m => ?_
  cases m.image.strings[j]? with
  | none => exact .invalid _
  | some s => exact .pure s

theorem reading_readReg (r : Reg) : Reading (readReg r) := Reading.get.bind fun _ => .pure _

theorem reading_firstRegs (count : Nat) : Reading (firstRegs count) := Reading.get.bind fun _ => .pure _

theorem reading_ofOption (cell : Option Number) (kind j : Nat) : Reading (ofOption cell kind j) := by
  cases cell with
  | none => exact .invalid _
  | some x => exact .pure x

theorem reading_loadCell (kind i c : Nat) : Reading (loadCell index kind i c) := by
  refine Reading.get.bind fun m => (reading_known _ _).bind fun k => ?_
  cases k with
  | «local» => exact (reading_fiber _).bind fun _ => reading_ofOption ..
  | global | floatConst => exact reading_ofOption ..
  | identity => exact .pure _
  | buffer => exact (reading_known _ _).bind fun _ => .pure _
  | special =>
    refine (reading_known _ _).bind fun special => Reading.get.bind fun _ => ?_
    cases special <;> exact .pure _
  | roleProperty =>
    cases m.roles[i]? with
    | none => exact .invalid _
    | some role =>
      refine (reading_known _ _).bind fun property => ?_
      cases property
      exact .pure _

theorem reading_formatted (p : Operands) : Reading (formatted p) :=
  (reading_string _).bind fun _ => (reading_firstRegs _).bind fun _ => .pure _

/-- Whatever comes of it, only what the fiber at `index` computes with changes. -/
structure Computing {α : Type} (index : Nat) (act : Stepping α) : Prop where
  ends : ∀ m, Outcome (fun _ m' => m.Worked index m') (m.Broken index) (act m)

namespace Computing

variable {α β : Type} {index : Nat} {x : Stepping α} {f : α → Stepping β}

theorem bind (hx : Computing index x) (hf : ∀ a, Computing index (f a)) : Computing index (x >>= f) := by
  constructor
  intro m
  refine (hx.ends m).bind ?_ fun _ _ h => h
  intro a m' h
  exact ((hf a).ends m').mono (fun _ _ h' => h.trans h') fun _ _ h' => h.broken h'

theorem pure (a : α) : Computing index (pure a : Stepping α) := ⟨fun m => .refl m⟩

theorem invalid (flaw : Flaw) : Computing index (invalid flaw : Stepping α) :=
  ⟨fun m => ⟨(Worked.refl m).toComputed, flaw, rfl⟩⟩

theorem get : Computing index (get : Stepping Machine) := ⟨fun m => .refl m⟩

theorem ite {c : Prop} [Decidable c] {y : Stepping α} (hx : Computing index x) (hy : Computing index y) :
    Computing index (if c then x else y) := by grind

theorem modify {g : Machine → Machine} (hg : ∀ m : Machine, m.Worked index (g m)) :
    Computing index (modify g : Stepping PUnit) := ⟨fun m => hg m⟩

end Computing

theorem Reading.computing {act : Stepping α} (h : Reading act) : Computing index act :=
  ⟨fun m => (h.ends m).mono (by rintro _ _ rfl; exact .refl _)
    (by rintro _ _ ⟨rfl, hflaw⟩; exact ⟨(Worked.refl _).toComputed, hflaw⟩)⟩

theorem computing_modifyFrame {g : Frame → Frame} (hg : ∀ frame : Frame, frame.Becomes (g frame)) :
    Computing index (modifyFrame index g) :=
  .modify fun _ => .of_frame hg id

theorem computing_writeReg (r : Reg) (x : Number) : Computing index (writeReg r x) :=
  .modify fun _ => .of_fibers_eq rfl rfl

theorem computing_payload (g : Machine → Bytes) :
    Computing index (modify fun m => { m with packet.data := g m } : Stepping PUnit) :=
  .modify fun _ => .of_fibers_eq rfl rfl

theorem computing_fillBuffer (bytes : Bytes) (offset : Nat) : Computing index (fillBuffer bytes offset) :=
  Computing.get.bind fun _ => .ite (computing_payload _) (.pure _)

theorem computing_storeCell (kind i c : Nat) (x : Number) : Computing index (storeCell index kind i c x) := by
  refine (reading_known _ _).computing.bind fun k => ?_
  cases k with
  | «local» =>
    exact (reading_fiber _).computing.bind fun _ => .ite (computing_modifyFrame fun f => f.becomes_stored i x) (.invalid _)
  | global =>
    refine Computing.get.bind fun _ => .ite (.modify fun _ => .of_fibers_eq rfl rfl ?_) (.invalid _)
    exact Array.size_setIfInBounds
  | buffer => exact (reading_known _ _).computing.bind fun _ => computing_payload _
  | _ => exact .invalid _

theorem computing_jump (word : Word) (distance : Nat) : Computing index (jump index word distance) := by
  have hmoves (pc : Nat) : Computing index (modifyFrame index ({ · with pc })) :=
    computing_modifyFrame fun f => f.becomes_moved pc
  unfold jump
  refine (reading_readReg _).computing.bind fun _ => .ite (.pure _) ((reading_fiber _).computing.bind fun _ => ?_)
  exact .ite (.ite (.bind (.invalid _) fun _ => hmoves _) (hmoves _)) (hmoves _)

theorem computing_math1 (op : Math1) : Computing index (math1 op) := by
  unfold math1
  refine (reading_readReg _).computing.bind fun x => ?_
  cases op with
  | random =>
    refine Computing.get.bind fun m => ?_
    cases m.random.nextNumber
    exact Computing.bind (.modify fun _ => .of_fibers_eq rfl rfl) fun _ => computing_writeReg ..
  | _ => exact computing_writeReg ..

end Stepping

end BusScript
