import Mathlib.Data.List.Nodup
import BusScript.Proofs.Stepping

namespace BusScript

namespace RegSet

variable {s : RegSet} {r : Nat}

theorem mem_toList : r ∈ s.toList ↔ r < 16 ∧ s.has r = true := by
  rw [toList, List.mem_filter, List.mem_range]

theorem nodup_toList (s : RegSet) : s.toList.Nodup := List.nodup_range.filter _

end RegSet

namespace Frame

variable {slots : Array Number} {start : Nat}

theorem getElem?_fill_of_lt (xs : List Number) {j : Nat} (hj : j < start) : (fill slots start xs)[j]? = slots[j]? := by
  induction xs generalizing slots start with
  | nil => rfl
  | cons x rest ih =>
    rw [fill, ih (Nat.lt_succ_of_lt hj), Array.getElem?_setIfInBounds_ne (Nat.ne_of_gt hj)]

theorem getElem?_fill (xs : List Number) (hroom : start + xs.length ≤ slots.size) {k : Nat} (hk : k < xs.length) :
    (fill slots start xs)[start + k]? = xs[k]? := by
  induction xs generalizing slots start k with
  | nil => cases hk
  | cons x rest ih =>
    rw [List.length_cons] at hroom hk
    rw [fill]
    cases k with
    | zero =>
      change (fill (slots.setIfInBounds start x) (start + 1) rest)[start]? = some x
      rw [getElem?_fill_of_lt rest (Nat.lt_succ_self start), Array.getElem?_setIfInBounds_self_of_lt (by omega)]
    | succ k =>
      rw [show start + (k + 1) = start + 1 + k by omega, ih (by rw [Array.size_setIfInBounds]; omega) (by omega)]
      rfl

theorem get_fetch_of_notMem {list : List Nat} {regs : Registers} {r : Reg} (hr : r.val ∉ list) :
    (fetch slots start regs list).get r = regs.get r := by
  induction list generalizing start regs with
  | nil => rfl
  | cons r' rest ih =>
    rw [List.mem_cons, not_or] at hr
    rw [fetch, ih hr.2]
    exact Vector.getElem_setIfInBounds_ne r.isLt (Ne.symm hr.1)

theorem get_fetch {list : List Nat} {regs : Registers} {r : Reg} (hnodup : list.Nodup) {k : Nat}
    (hk : list[k]? = some r.val) : (fetch slots start regs list).get r = slots.getD (start + k) 0 := by
  induction list generalizing start regs k with
  | nil => cases hk
  | cons r' rest ih =>
    obtain ⟨hr', hnodup⟩ := List.nodup_cons.1 hnodup
    rw [fetch]
    cases k with
    | zero =>
      rw [List.getElem?_cons_zero, Option.some.injEq] at hk
      subst hk
      rw [get_fetch_of_notMem hr', Nat.add_zero]
      exact Vector.getElem_setIfInBounds_self r.isLt
    | succ k =>
      rw [ih hnodup hk, Nat.add_right_comm, Nat.add_assoc]

def Fits (frame : Frame) : Prop := frame.numLocals + frame.saved.toList.length ≤ frame.slots.size

/-- The registers `set` are saved in the frame, with the values that they have in `regs`. -/
structure Keeps (frame : Frame) (set : RegSet) (regs : Registers) : Prop where
  saved : frame.saved = set
  slots : ∀ (k : Nat) (r : Reg), set.toList[k]? = some r.val → frame.slots[frame.numLocals + k]? = some (regs.get r)

structure SameLocals (frame frame' : Frame) : Prop where
  numLocals : frame'.numLocals = frame.numLocals
  slots : ∀ k < frame.numLocals, frame'.slots[k]? = frame.slots[k]?

/-- What becomes of a frame in which a word works. -/
structure Becomes (frame frame' : Frame) : Prop where
  function : frame'.function = frame.function
  startPc : frame'.startPc = frame.startPc
  numLocals : frame'.numLocals = frame.numLocals
  size : frame'.slots.size = frame.slots.size
  fits : frame.Fits → frame'.Fits

variable {frame frame' frame'' : Frame} {set : RegSet} {regs regs' : Registers}

theorem Becomes.refl (frame : Frame) : frame.Becomes frame := ⟨rfl, rfl, rfl, rfl, id⟩

theorem Becomes.trans (h : frame.Becomes frame') (h' : frame'.Becomes frame'') : frame.Becomes frame'' :=
  ⟨h'.function.trans h.function, h'.startPc.trans h.startPc, h'.numLocals.trans h.numLocals, h'.size.trans h.size,
    fun hfits => h'.fits (h.fits hfits)⟩

theorem becomes_moved (frame : Frame) (pc : Nat) : frame.Becomes { frame with pc } := ⟨rfl, rfl, rfl, rfl, id⟩

theorem becomes_stored (frame : Frame) (index : Nat) (x : Number) :
    frame.Becomes { frame with slots := frame.slots.setIfInBounds index x } := by
  refine ⟨rfl, rfl, rfl, Array.size_setIfInBounds, fun hfits => ?_⟩
  rw [Fits, Array.size_setIfInBounds]
  exact hfits

theorem save_of_hasRoom (hroom : frame.hasRoom set = true) : frame.save set regs = { frame with
    slots := fill frame.slots frame.numLocals (set.toList.map fun r => regs.toArray.getD r 0), saved := set } := by
  rw [save, if_pos hroom]

theorem becomes_save (frame : Frame) (set : RegSet) (regs : Registers) : frame.Becomes (frame.save set regs) := by
  refine ⟨function_save, startPc_save, numLocals_save, size_slots_save, fun hfits => ?_⟩
  rw [Fits, numLocals_save, size_slots_save, save]
  split
  · exact of_decide_eq_true ‹_›
  · exact hfits

theorem keeps_save (hroom : frame.hasRoom set = true) : (frame.save set regs).Keeps set regs := by
  have hle : frame.numLocals + set.toList.length ≤ frame.slots.size := of_decide_eq_true hroom
  rw [save_of_hasRoom hroom]
  refine ⟨rfl, fun k r hk => ?_⟩
  have hlt := (List.getElem?_eq_some_iff.1 hk).1
  rw [getElem?_fill _ (by rwa [List.length_map]) (by rwa [List.length_map]), List.getElem?_map, hk, Option.map_some]
  have hr : r.val < regs.toArray.size := by rw [Vector.size_toArray]; exact r.isLt
  rw [Array.getD_eq_getD_getElem?, Array.getElem?_eq_getElem hr, Option.getD_some]
  rfl

theorem sameLocals_save (frame : Frame) (set : RegSet) (regs : Registers) : frame.SameLocals (frame.save set regs) := by
  have hslots (saved : RegSet) : frame.SameLocals { frame with
      slots := fill frame.slots frame.numLocals (set.toList.map fun r => regs.toArray.getD r 0), saved } :=
    ⟨rfl, fun k hk => getElem?_fill_of_lt _ hk⟩
  rw [save]
  grind

theorem Keeps.get_restoredRegs (h : frame.Keeps set regs) (regs' : Registers) {r : Reg} (hr : set.has r.val = true) :
    (frame.restoredRegs regs').get r = regs.get r := by
  obtain ⟨k, hk⟩ := List.mem_iff_getElem?.1 (RegSet.mem_toList.2 ⟨r.isLt, hr⟩)
  rw [restoredRegs, h.saved, get_fetch set.nodup_toList hk, Array.getD_eq_getD_getElem?, h.slots k r hk, Option.getD_some]

theorem fits_of_saved_empty (hsaved : frame.saved = .empty) (hle : frame.numLocals ≤ frame.slots.size) : frame.Fits := by
  rw [Fits, hsaved]
  exact hle

theorem fits_restored (h : frame.Fits) : frame.restored.Fits :=
  fits_of_saved_empty rfl (Nat.le_trans (Nat.le_add_right _ _) h)

theorem fits_enter (function : Nat) (info : FunctionInfo) (args : List Number) : (enter function info args).Fits := by
  refine fits_of_saved_empty rfl ?_
  rw [enter, size_fill, Array.size_replicate, FunctionInfo.frameSize]
  exact Nat.le_add_right _ _

end Frame

structure Fiber.Works (f f' : Fiber) : Prop where
  callers : f'.callers = f.callers
  frame : f.frame.Becomes f'.frame

theorem Fiber.Works.trans {f f' f'' : Fiber} (h : f.Works f') (h' : f'.Works f'') : f.Works f'' :=
  ⟨h'.callers.trans h.callers, h.frame.trans h'.frame⟩

theorem Fiber.Works.refl (f : Fiber) : f.Works f := ⟨rfl, .refl f.frame⟩

namespace Stepping

/-- What a word does to the frames of its fiber, with the registers that it is to save: it works in the frame, enters a
function, or goes back to the caller and brings back what that has saved. The registers are kept in the frame of the
word. The function that the fiber was started with has no caller. -/
inductive Frames (regs : Registers) (f : Fiber) : Option RegSet → Flow → Registers → Fiber → Prop
  | works {flow : Flow} {regs' : Registers} {f' : Fiber} (h : f.Works f') (hlast : flow = .finish → f.callers = []) :
      Frames regs f none flow regs' f'
  | saves {set : RegSet} {flow : Flow} {f' : Fiber} (h : f.Works f') (hkeeps : f'.frame.Keeps set regs)
      (hlocals : f.frame.SameLocals f'.frame) (hflow : flow ≠ .finish) : Frames regs f (some set) flow regs f'
  | enters {set : RegSet} {regs' : Registers} {f' : Fiber} {caller : Frame} (hcallers : f'.callers = caller :: f.callers)
      (hsaved : f.frame.Becomes caller) (hkeeps : caller.Keeps set regs) (hlocals : f.frame.SameLocals caller)
      (hfits : f'.frame.Fits) : Frames regs f (some set) .next regs' f'
  | returns {f' : Fiber} {caller : Frame} (hcallers : f.callers = caller :: f'.callers)
      (hframe : f'.frame = caller.restored) : Frames regs f none .next (caller.restoredRegs regs) f'

/-- What becomes of the frame of a fiber that comes up: if it goes on, what it has saved is brought back. -/
inductive Unparks (regs : Registers) (f : Fiber) (regs' : Registers) (f' : Fiber) : Bool → Prop
  | goesOn (hcallers : f'.callers = f.callers) (hframe : f'.frame = f.frame.restored)
      (hregs : regs' = f.frame.restoredRegs regs) : Unparks regs f regs' f' true
  | stays (hcallers : f'.callers = f.callers) (hframe : f'.frame = f.frame) : Unparks regs f regs' f' false

end Stepping

end BusScript
