import BusScript.Proofs.Closed
import BusScript.Proofs.Stepping

namespace BusScript

open Body

/-- A frame of the function `f` at word `n` of its body. -/
structure Frame.At (image : Image) (frame : Frame) (f : FunctionInfo) (n : Nat) : Prop where
  function : image.functions[frame.function]? = some f
  startPc : frame.startPc = f.startPc
  pc : frame.pc = f.startPc + n
  numLocals : frame.numLocals = f.numLocals
  slots : frame.slots.size = f.frameSize

namespace Frame

variable {image : Image} {frame : Frame}

def Rests (image : Image) (frame : Frame) : Prop :=
  ∃ f n, frame.At image f n ∧ n < (image.body f).size ∧ startsAt (image.body f) n = true

/-- At a word of its function, with the operands collected on the way to it. -/
def Runs (image : Image) (frame : Frame) (operands : Operands) : Prop :=
  ∃ f n, frame.At image f n ∧ n < (image.body f).size ∧ operands = operandsAt (image.body f) n

/-- Behind an instruction of its function, which is a panic if nothing stands behind it. -/
def Stopped (image : Image) (frame : Frame) : Prop :=
  ∃ f n, frame.At image f n ∧ startsAt (image.body f) n = true ∧
    (n < (image.body f).size ∨ (image.body f).back?.any fun w => w.isSync .panic)

theorem At.save {f : FunctionInfo} {n : Nat} (h : frame.At image f n) (set : RegSet)
    (regs : Registers) : (frame.save set regs).At image f n :=
  ⟨by simpa using h.function, by simpa using h.startPc, by simpa using h.pc,
    by simpa using h.numLocals, by simpa using h.slots⟩

theorem rests_enter {function : Nat} {f : FunctionInfo} {args : List Number}
    (hf : image.functions[function]? = some f) (hclosed : Body.isClosed (image.body f) = true) :
    (enter function f args).Rests image :=
  ⟨f, 0, ⟨hf, rfl, rfl, rfl, by simp [enter]⟩, size_pos_of_isClosed hclosed, rfl⟩

theorem Rests.restored (h : frame.Rests image) : frame.restored.Rests image := by
  obtain ⟨f, n, hat, hlt, hstart⟩ := h
  exact ⟨f, n, ⟨hat.function, hat.startPc, hat.pc, hat.numLocals, hat.slots⟩, hlt, hstart⟩

theorem Rests.stopped (h : frame.Rests image) : frame.Stopped image := by
  obtain ⟨f, n, hat, hlt, hstart⟩ := h
  exact ⟨f, n, hat, hstart, .inl hlt⟩

theorem Rests.runs (h : frame.Rests image) : frame.Runs image {} := by
  obtain ⟨f, n, hat, hlt, hstart⟩ := h
  exact ⟨f, n, hat, hlt, (operandsAt_of_startsAt hstart).symm⟩

end Frame

namespace Fiber

/-- Its callers rest, and what it asks for is asked of a role that exists. -/
structure Sound (image : Image) (fiber : Fiber) : Prop where
  callers : ∀ frame ∈ fiber.callers, frame.Rests image
  request : ∀ r, fiber.request = some r → r.role < image.roles.size

def Rests (image : Image) (fiber : Fiber) : Prop := fiber.Sound image ∧ fiber.frame.Rests image

def Stopped (image : Image) (fiber : Fiber) : Prop := fiber.Sound image ∧ fiber.frame.Stopped image

theorem rests_start {image : Image} {frame : Frame} (h : frame.Rests image) {id : UInt32} {now : Nat} :
    (start id frame now).Rests image :=
  ⟨⟨by simp [start], by simp [start]⟩, h⟩

end Fiber

namespace Machine

/-- What no call of a machine changes, and what the sizes of its tables are. There is room for every payload, and
the bus is never down. -/
structure Ground (image : Image) (m : Machine) : Prop where
  image_eq : m.image = image
  globals : m.globals.size = image.numGlobals
  roles : m.roles.length = image.roles.size
  limit : maxPayload ≤ m.config.payloadLimit
  sends : m.host.sendsLeft = none

structure Live (image : Image) (m : Machine) : Prop extends m.Ground image where
  panic : m.panic = none

def setting (m : Machine) : Image × Nat × Nat × Config × Option Nat × Option PanicCode :=
  (m.image, m.globals.size, m.roles.length, m.config, m.host.sendsLeft, m.panic)

variable {image : Image} {m : Machine}

variable {m' : Machine}

theorem Live.congr (h : m.Live image) (heq : m'.setting = m.setting) : m'.Live image := by
  simp only [setting, Prod.mk.injEq] at heq
  obtain ⟨himage, hglobals, hroles, hconfig, hsends, hpanic⟩ := heq
  exact ⟨⟨himage.trans h.image_eq, hglobals.trans h.globals, hroles.trans h.roles,
    hconfig ▸ h.limit, hsends.trans h.sends⟩, hpanic.trans h.panic⟩

theorem Live.host {image : Image} {m : Machine} (h : m.Live image) {host : Host}
    (hsends : host.sendsLeft = none) (heq : m'.setting = { m with host }.setting) : m'.Live image :=
  Live.congr (m := { m with host }) ⟨⟨h.image_eq, h.globals, h.roles, h.limit, hsends⟩, h.panic⟩ heq

structure Rests (image : Image) (m : Machine) : Prop extends m.Live image where
  operands : m.operands = {}
  fibers : ∀ fiber ∈ m.fibers, fiber.Rests image

/-- The fiber that ran last may have ended its program. -/
structure Stopped (image : Image) (m : Machine) : Prop extends m.Ground image where
  fibers : ∀ fiber ∈ m.fibers, fiber.Stopped image

theorem Rests.stopped (h : m.Rests image) : m.Stopped image :=
  ⟨h.toGround, fun fiber hmem => ⟨(h.fibers fiber hmem).1, (h.fibers fiber hmem).2.stopped⟩⟩

/-- `fiber` runs, at `index` among all fibers, and the others rest. -/
structure Hosts (image : Image) (index : Nat) (fiber : Fiber) (m : Machine) : Prop
    extends m.Live image where
  fiber_at : m.fibers[index]? = some fiber
  sound : fiber.Sound image
  others : ∀ j other, j ≠ index → m.fibers[j]? = some other → other.Rests image

def Runs (image : Image) (index : Nat) (m : Machine) : Prop :=
  ∃ fiber, m.Hosts image index fiber ∧ fiber.frame.Runs image m.operands

namespace Hosts

variable {image : Image} {index : Nat} {fiber : Fiber} {m : Machine}

variable {m' : Machine}

variable (h : m.Hosts image index fiber)

include h

theorem congr (heq : m'.setting = m.setting) (hfibers : m'.fibers = m.fibers) : m'.Hosts image index fiber :=
  ⟨h.toLive.congr heq, hfibers ▸ h.fiber_at, h.sound, hfibers ▸ h.others⟩

theorem modify (g : Fiber → Fiber) (heq : m'.setting = m.setting) (hsound : (g fiber).Sound image)
    (hfibers : m'.fibers = m.fibers.modify index g) : m'.Hosts image index (g fiber) := by
  refine ⟨h.toLive.congr heq, ?_, hsound, ?_⟩
  · rw [hfibers, List.getElem?_modify_eq, h.fiber_at]
    rfl
  · intro j other hj hother
    rw [hfibers, List.getElem?_modify_ne _ _ (Ne.symm hj)] at hother
    exact h.others j other hj hother

theorem pend (j : Nat) : ∃ fiber', fiber'.frame = fiber.frame ∧ Hosts image index fiber'
        { m with fibers := m.fibers.modify j ({ · with isPending := true }) } := by
  by_cases hj : j = index
  · subst hj
    exact ⟨{ fiber with isPending := true }, rfl,
      h.modify ({ · with isPending := true }) rfl ⟨h.sound.callers, h.sound.request⟩ rfl⟩
  · refine ⟨fiber, rfl, h.toLive.congr rfl, ?_, h.sound, ?_⟩
    · rw [List.getElem?_modify_ne _ _ hj]
      exact h.fiber_at
    · intro k other hk hother
      rw [List.getElem?_modify] at hother
      obtain ⟨old, hold, rfl⟩ := Option.map_eq_some_iff.1 hother
      obtain ⟨hsound, hframe⟩ := h.others k old hk hold
      split
      · exact ⟨⟨hsound.callers, hsound.request⟩, hframe⟩
      · exact ⟨hsound, hframe⟩

theorem append {new : Fiber} (heq : m'.setting = m.setting) (hnew : new.Rests image) (hfibers : m'.fibers = m.fibers ++ [new]) :
    m'.Hosts image index fiber := by
  obtain ⟨hlt, _⟩ := List.getElem?_eq_some_iff.1 h.fiber_at
  refine ⟨h.toLive.congr heq, ?_, h.sound, ?_⟩
  · rw [hfibers, List.getElem?_append_left hlt]
    exact h.fiber_at
  · intro k other hk hother
    rw [hfibers] at hother
    by_cases hk' : k < m.fibers.length
    · rw [List.getElem?_append_left hk'] at hother
      exact h.others k other hk hother
    · grind

theorem rests (hframe : fiber.frame.Rests image) (hoperands : m.operands = {}) : m.Rests image := by
  refine ⟨h.toLive, hoperands, fun other hmem => ?_⟩
  obtain ⟨j, hj⟩ := List.getElem?_of_mem hmem
  by_cases heq : j = index
  · subst heq
    rw [h.fiber_at, Option.some.injEq] at hj
    exact hj ▸ ⟨h.sound, hframe⟩
  · exact h.others j other heq hj

theorem stopped (hframe : fiber.frame.Stopped image) : m.Stopped image := by
  refine ⟨h.toGround, fun other hmem => ?_⟩
  obtain ⟨j, hj⟩ := List.getElem?_of_mem hmem
  by_cases heq : j = index
  · subst heq
    rw [h.fiber_at, Option.some.injEq] at hj
    exact hj ▸ ⟨h.sound, hframe⟩
  · exact ⟨(h.others j other heq hj).1, (h.others j other heq hj).2.stopped⟩

theorem erase (heq : m'.setting = m.setting) (hfibers : m'.fibers = m.fibers.eraseIdx index) (hoperands : m'.operands = {}) : m'.Rests image := by
  refine ⟨h.toLive.congr heq, hoperands, fun other hmem => ?_⟩
  rw [hfibers] at hmem
  obtain ⟨j, hj, hother⟩ := List.mem_eraseIdx_iff_getElem?.1 hmem
  exact h.others j other hj hother

end Hosts

theorem Rests.hosts (h : m.Rests image) {index : Nat} {fiber : Fiber}
    (hfiber : m.fibers[index]? = some fiber) : m.Hosts image index fiber ∧ fiber.frame.Rests image := by
  have hrests := h.fibers fiber (List.mem_of_getElem? hfiber)
  exact ⟨⟨h.toLive, hfiber, hrests.1, fun j other _ hother =>
    h.fibers other (List.mem_of_getElem? hother)⟩, hrests.2⟩

theorem Rests.congr (h : m.Rests image) (heq : m'.setting = m.setting)
    (hfibers : m'.fibers = m.fibers) (hoperands : m'.operands = m.operands) : m'.Rests image :=
  ⟨h.toLive.congr heq, hoperands.trans h.operands, fun fiber hmem => h.fibers fiber (hfibers ▸ hmem)⟩

theorem Rests.modify (h : m.Rests image) {index : Nat}
    (g : Fiber → Fiber) (hlive : m'.Live image) (hg : ∀ fiber, fiber.Rests image → (g fiber).Rests image)
    (hfibers : m'.fibers = m.fibers.modify index g) (hoperands : m'.operands = m.operands) :
    m'.Rests image := by
  refine ⟨hlive, hoperands.trans h.operands, fun fiber hmem => ?_⟩
  obtain ⟨j, hj⟩ := List.getElem?_of_mem (hfibers ▸ hmem)
  rw [List.getElem?_modify] at hj
  obtain ⟨old, hold, rfl⟩ := Option.map_eq_some_iff.1 hj
  have hrests := h.fibers old (List.mem_of_getElem? hold)
  split
  · exact hg old hrests
  · exact hrests

end Machine

end BusScript
