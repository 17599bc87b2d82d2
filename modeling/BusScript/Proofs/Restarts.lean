import BusScript.Proofs.Triggers

namespace BusScript

/-- Frames of a function at its first word differ only in their slots and in what is saved. -/
theorem Frame.Becomes.restart_eq {fn : Nat} {info : FunctionInfo} {frame : Frame}
    (h : (Frame.enter fn info []).Becomes frame) :
    frame.restart = { Frame.enter fn info [] with slots := frame.slots, saved := frame.saved } := by
  obtain ⟨hfunction, hstart, hlocals, -, -⟩ := h
  obtain ⟨function, startPc, pc, slots, numLocals, saved⟩ := frame
  cases hfunction
  cases hstart
  cases hlocals
  rfl

/-- A frame that begins once more is like a new one if the last run has left nothing but zeros, and nothing saved. -/
theorem Frame.Becomes.restart_eq_enter_iff {fn : Nat} {info : FunctionInfo} {frame : Frame}
    (h : (Frame.enter fn info []).Becomes frame) :
    frame.restart = Frame.enter fn info [] ↔ (∀ x ∈ frame.slots, x = 0) ∧ frame.saved = .empty := by
  have hsize : frame.slots.size = info.frameSize := h.size.trans Array.size_replicate
  have hzeros : frame.slots = Array.replicate info.frameSize 0 ↔ ∀ x ∈ frame.slots, x = 0 := by
    rw [Array.eq_replicate_iff, hsize, eq_self_iff_true, true_and]
  rw [← hzeros, h.restart_eq]
  constructor
  · intro heq
    exact ⟨congrArg Frame.slots heq, congrArg Frame.saved heq⟩
  · rintro ⟨hslots, hsaved⟩
    rw [hslots, hsaved]
    rfl

namespace Machine

open Moment

/-- When a fiber finishes that was told to run once more, its turn goes on at the first word of its function, with no
caller, and with slots and saved registers as the finished run has left them. So it begins like a new fiber of the function
only if that run has left every local zero. -/
theorem pending_run_keeps_locals {bytes : Bytes} {host : Host} {config : Config} {random : Random} {m m' : Machine}
    (hnew : Machine.new bytes host config random = .ok m) {a : Moment} (hreached : Reached m a) {turn : Turn} {left : Nat}
    (hturn : a.turn = some turn) (hleft : turn.left = left + 1)
    (hstep : Stepping.step turn.index a.machine = .ok .finish m') {f : Fiber} (hf : m'.fibers[turn.index]? = some f) (hpending : f.isPending = true) :
    ∃ b info f', a.next? = some b ∧ b.turn = some { turn with left } ∧ b.machine.fibers[turn.index]? = some f' ∧
      a.machine.image.functions[f.function]? = some info ∧
      f' = { f with isPending := false, frame := f'.frame } ∧ f'.callers = [] ∧
      f'.frame = { Frame.enter f.function info [] with slots := f.frame.slots, saved := f.frame.saved } ∧
      (f'.frame = Frame.enter f.function info [] ↔ (∀ x ∈ f.frame.slots, x = 0) ∧ f.frame.saved = .empty) := by
  have hfinish : Stepping.finish turn.index m' = .ok true { m' with
      fibers := m'.fibers.modify turn.index fun f => { f with isPending := false, frame := f.frame.restart } } := by
    simp only [Stepping.finish, bind_of_ok (Stepping.fiber_eq hf), hpending, if_true]
    rfl
  have hnext : a.next? = some { a with
      machine := { m' with
        fibers := m'.fibers.modify turn.index fun f => { f with isPending := false, frame := f.frame.restart } }
      turn := some { turn with left } } := by
    have hword : Stepping.runWord turn.index turn.budget (left + 1) a.machine = .ok (some left) { m' with
        fibers := m'.fibers.modify turn.index fun f => { f with isPending := false, frame := f.frame.restart } } := by
      simp only [Stepping.runWord, bind, EStateM.bind, hstep, hfinish, if_true]
      rfl
    rw [next?, hturn]
    simp only [run, hleft, hword]
  have hpanic := (hreached.fit hnew).panic_of_next hnext
  obtain ⟨f0, hf0⟩ := Stepping.fiber_of_step hstep
  obtain ⟨f1, info, hf1, hfunction, hcallers, hinfo, hframe⟩ :=
    root_of_finish hf0 hstep (hreached.rooted hnew hpanic f0 (List.mem_of_getElem? hf0))
  rw [hf, Option.some.injEq] at hf1
  subst hf1
  rw [← hfunction] at hinfo hframe
  exact ⟨_, info, _, hnext, rfl, Machine.getElem?_modified hf _, hinfo, rfl, hcallers, hframe.restart_eq,
    hframe.restart_eq_enter_iff⟩

end Machine

open Script in
/-- The handler of a button keeps what it finds in a local, sets the local to five and waits for a second. -/
def recallingScript : List Stmt :=
  [declare "b" (some (.call {} (member (name "roles") "button") [])), declare "y" none,
    .expr {} (.call {} (member (member (name "b") "pressed") "sub") [.arrow {} []
      [declare "x" none, set "y" (name "x"), set "x" (.literal {} (.number 5)),
        .expr {} (.call {} (name "wait") [.literal {} (.number 1)])]])]

/-- The button is pressed, and once more while the handler waits. -/
def twoPresses : List Deed :=
  [.call .connected, .call .start, .call (.packet press), .clock 100, .call (.packet press), .clock 1100, .call .tick]

/-- What the handler finds in its first run and in its second one, and how the first one ends. -/
def recalls (m : Machine) : Bool :=
  (m.play (twoPresses.take 3) []).map (·.2.globals) = some #[0] ∧ (m.play twoPresses []).map (·.2.globals) = some #[5] ∧
    95 < (m.trail twoPresses).length ∧
    ((m.history twoPresses 95).turn.any fun turn => turn.index = 1 ∧ turn.left = 131072) = true ∧
    (match Stepping.step 1 (m.history twoPresses 95).machine with
      | .ok .finish m' => m'.fibers[1]?.any fun f => f.isPending && f.frame.slots == #[5]
      | _ => false) = true

theorem recallingScript_recalls : loadsCleanly recallingScript buttonHost recalls = true := by
  decide +kernel

/-- The second run begins with a local that is five. -/
theorem pending_run_keeps_locals_recalling :
    ∃ compiled m a b f', compile Catalog.builtin {} recallingScript = .ok compiled ∧
      Machine.new compiled.image buttonHost {} (.ofSeed 1) = .ok m ∧ Moment.Reached m a ∧ a.next? = some b ∧
      b.machine.fibers[1]? = some f' ∧ f'.callers = [] ∧ f'.frame.pc = f'.frame.startPc ∧ f'.frame.slots = #[5] := by
  obtain ⟨compiled, m, hcompile, -, hnew, hrecalls⟩ := exists_of_loadsCleanly recallingScript_recalls
  obtain ⟨-, -, hlength, hturn, hstep⟩ := of_decide_eq_true hrecalls
  obtain ⟨turn, hturn, hplace⟩ := (Option.any_eq_true _ _).1 hturn
  obtain ⟨hindex, hleft⟩ := of_decide_eq_true hplace
  split at hstep
  · next m' hfinish =>
    obtain ⟨f, hf, hpending⟩ := (Option.any_eq_true _ _).1 hstep
    rw [Bool.and_eq_true, beq_iff_eq] at hpending
    rw [← hindex] at hfinish hf
    obtain ⟨b, info, f', hnext, -, hf', -, -, hcallers, hframe, -⟩ := Machine.pending_run_keeps_locals hnew
      (Machine.reached_history hlength) hturn hleft hfinish hf hpending.1
    rw [hindex] at hf'
    exact ⟨compiled, m, _, b, f', hcompile, hnew, Machine.reached_history hlength, hnext, hf', hcallers,
      by rw [hframe]; rfl, by rw [hframe]; exact hpending.2⟩
  · cases hstep

/-- The first run finds zero, as every run of a new fiber does, and the second one finds five. -/
theorem pending_run_finds_old_local :
    ∃ compiled m, compile Catalog.builtin {} recallingScript = .ok compiled ∧ compiled.numErrors = 0 ∧
      Machine.new compiled.image buttonHost {} (.ofSeed 1) = .ok m ∧
      (m.play (twoPresses.take 3) []).map (·.2.globals) = some #[0] ∧
      (m.play twoPresses []).map (·.2.globals) = some #[5] := by
  obtain ⟨compiled, m, hcompile, hclean, hnew, hrecalls⟩ := exists_of_loadsCleanly recallingScript_recalls
  obtain ⟨hfirst, hsecond, -⟩ := of_decide_eq_true hrecalls
  exact ⟨compiled, m, hcompile, hclean, hnew, hfirst, hsecond⟩

end BusScript
