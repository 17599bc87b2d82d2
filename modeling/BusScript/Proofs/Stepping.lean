import BusScript.Machine.Call
import BusScript.Proofs.Outcome

namespace BusScript.Stepping

variable {α : Type} {E : Fault → Machine → Prop} {m : Machine} {index : Nat}

theorem known_iff {Q : α → Machine → Prop} {code : Nat} {o : Option α} {v : α} (h : o = some v) :
    Outcome Q E (known code o m) ↔ Q v m := by
  simp [known, h]

theorem fiber_eq {f : Fiber} (h : m.fibers[index]? = some f) : fiber index m = .ok f m := by
  simp only [fiber, get_bind_apply, h]
  rfl

theorem fiber_iff {Q : Fiber → Machine → Prop} {f : Fiber} (h : m.fibers[index]? = some f) :
    Outcome Q E (fiber index m) ↔ Q f m := by
  simp [fiber, h]

theorem function_iff {Q : FunctionInfo → Machine → Prop} {info : FunctionInfo}
    (h : m.image.functions[index]? = some info) : Outcome Q E (function index m) ↔ Q info m := by
  simp [function, h]

theorem string_iff {Q : Bytes → Machine → Prop} {s : Bytes}
    (h : m.image.strings[index]? = some s) : Outcome Q E (string index m) ↔ Q s m := by
  simp [string, h]

theorem role_iff {Q : Role → Machine → Prop} {r : Role} (h : m.roles[index]? = some r) :
    Outcome Q E (role index m) ↔ Q r m := by
  simp [role, h]

variable {Q : Unit → Machine → Prop}

@[simp] theorem modifyFiber_iff {g : Fiber → Fiber} :
    Outcome Q E (modifyFiber index g m) ↔ Q () { m with fibers := m.fibers.modify index g } :=
  Iff.rfl

@[simp] theorem modifyFrame_iff {g : Frame → Frame} : Outcome Q E (modifyFrame index g m) ↔ Q () { m with
        fibers := m.fibers.modify index fun fiber => { fiber with frame := g fiber.frame } } :=
  Iff.rfl

@[simp] theorem readReg_iff {Q : Number → Machine → Prop} {r : Reg} :
    Outcome Q E (readReg r m) ↔ Q (m.registers.get r) m := Iff.rfl

@[simp] theorem writeReg_iff {r : Reg} {x : Number} :
    Outcome Q E (writeReg r x m) ↔ Q () { m with registers := m.registers.set r x r.isLt } :=
  Iff.rfl

@[simp] theorem firstRegs_iff {Q : List Number → Machine → Prop} {count : Nat} :
    Outcome Q E (firstRegs count m) ↔ Q (m.registers.toList.take count) m := Iff.rfl

end BusScript.Stepping

namespace BusScript.Frame

variable {slots : Array Number} {start : Nat} {frame : Frame}

@[simp] theorem size_fill (xs : List Number) : (fill slots start xs).size = slots.size := by
  induction xs generalizing slots start with
  | nil => rfl
  | cons x rest ih => simp [fill, ih]

variable {set : RegSet} {regs : Registers}

@[simp] theorem size_slots_save : (frame.save set regs).slots.size = frame.slots.size := by
  unfold save
  split <;> simp

@[simp] theorem function_save : (frame.save set regs).function = frame.function := by
  unfold save
  split <;> rfl

@[simp] theorem startPc_save : (frame.save set regs).startPc = frame.startPc := by
  unfold save
  split <;> rfl

@[simp] theorem pc_save : (frame.save set regs).pc = frame.pc := by
  unfold save
  split <;> rfl

@[simp] theorem numLocals_save : (frame.save set regs).numLocals = frame.numLocals := by
  unfold save
  split <;> rfl

end BusScript.Frame
