import BusScript.Proofs.Bindings
import BusScript.Proofs.CallMoments
import BusScript.Proofs.RunSafety

namespace BusScript

/-- What a word leaves when the fiber cannot run on: a fiber that ran too long among others at rest, or the
place at which the program stopped. -/
def Fault.Leaves (image : Image) (index : Nat) : Fault → Machine → Prop
  | .timeout .., m => ∃ fiber, m.Hosts image index fiber
  | .panic code, m => code ∈ image.panicCodes ∧ m.panic = none ∧ m.Stopped image
  | .invalid _, _ => False
  | .host _, _ => False

namespace Stepping

variable {image : Image} {index : Nat} {m : Machine}

theorem runWord_leaves (hsafe : image.Safe) (budget left : Nat) (h : m.Runs image index) :
    Outcome (fun left m' => if left.isSome then m'.Runs image index else m'.Rests image)
      (Fault.Leaves image index) (runWord index budget left m) := by
  cases left with
  | zero =>
    obtain ⟨fiber, hhosts, -⟩ := h
    simp only [runWord, Outcome.bind_iff, fiber_iff hhosts.fiber_at, Outcome.throw_iff]
    exact ⟨fiber, hhosts⟩
  | succ left =>
    refine (step_leaves hsafe h).bind ?_ fun _ _ => False.elim
    intro flow m' hflow
    cases flow with
    | next | park | stop => exact hflow
    | finish =>
      refine (finish_leaves hsafe hflow).bind ?_ fun _ _ => False.elim
      intro goesOn m'' h
      cases goesOn <;> exact h

theorem startMain_rests (hsafe : image.Safe) (h : m.Rests image) :
    Outcome (fun _ m' => m'.Rests image) (fun _ _ => False) (startFiber 0 [] .background m) := by
  obtain ⟨info, hinfo⟩ := getElem?_some_of_lt hsafe.main
  refine (startFiber_cases [] .background (h.image_eq ▸ hinfo)).imp ?_
  rintro _ m' (rfl | ⟨j, rfl⟩ | rfl)
  · exact h
  · exact h.modify ({ · with isPending := true }) (h.toLive.congr rfl)
      (fun _ hf => ⟨⟨hf.1.callers, hf.1.request⟩, hf.2⟩) rfl rfl
  · refine ⟨h.toLive.congr rfl, h.operands, fun fiber hmem => ?_⟩
    rcases List.mem_append.1 hmem with hmem | hmem
    · exact h.fibers fiber hmem
    · rw [List.mem_singleton] at hmem
      rw [hmem]
      exact Fiber.rests_start (Frame.rests_enter hinfo (hsafe.closed hinfo))

end Stepping

namespace Machine.Rests

variable {image : Image} {m : Machine}

theorem enter (h : m.Rests image) (pass : Pass) : (pass.enter m).Rests image := by
  cases pass <;> exact h.congr rfl rfl rfl

theorem leave (h : m.Rests image) (pass : Pass) : (pass.leave m.betweenFibers).Rests image := by
  cases pass <;> exact h.congr rfl rfl h.operands.symm

end Machine.Rests

namespace Moment

variable {image : Image} {a b : Moment}

/-- At every moment of a call the fibers are at rest, one of them runs, or the program has stopped for a panic of
its own. -/
inductive Kept (image : Image) (a : Moment) : Prop
  | rests (hturn : a.turn = none) (h : a.machine.Rests image)
  | runs {turn : Turn} (hturn : a.turn = some turn) (h : a.machine.Runs image turn.index)
  | stopped {code : PanicCode} (hmem : code ∈ image.panicCodes) (hpanic : a.machine.panic = some code)
      (h : a.machine.Stopped image)
      (hfailed : a = ⟨a.machine, none, [], .failed (.failed (.panicked code))⟩)

theorem Wakes.lt {pass : Pass} {index : Nat} {tasks : List Task} (h : a.Wakes pass index tasks) :
    index < (pass.enter a.machine).fibers.length := by
  rw [Pass.fibers_enter]
  cases h with
  | due _ _ _ hfiber | observer _ _ _ hfiber => exact (List.getElem?_eq_some_iff.1 hfiber).1

theorem Plans.rests {m m' : Machine} {tasks tasks' : List Task} {stage stage' : Stage}
    (h : Plans m tasks stage m' tasks' stage') (hrests : m.Rests image) : m'.Rests image := by
  cases h with
  | bind => exact hrests.congr (by simp [Machine.setting, Roles.length_autobind]) rfl rfl
  | drop => exact hrests.congr (by simp [Machine.setting, Roles.unbind]) rfl rfl
  | _ => exact hrests.congr rfl rfl rfl

theorem run_kept (hsafe : image.Safe) {turn : Turn} {tasks : List Task} {stage : Stage} {m : Machine}
    (h : m.Runs image turn.index) : (run turn tasks stage m).Kept image := by
  have hout := Stepping.runWord_leaves hsafe turn.budget turn.left h
  rw [run]
  cases hword : Stepping.runWord turn.index turn.budget turn.left m with
  | ok left m' =>
    rw [hword] at hout
    cases left with
    | some left => exact .runs rfl hout
    | none => exact .rests rfl (Machine.Rests.leave hout turn.pass)
  | error fault m' =>
    rw [hword] at hout
    cases fault with
    | timeout function steps =>
      obtain ⟨fiber, hhosts⟩ := hout
      have herased : Machine.Rests image { m'.betweenFibers with
          fibers := m'.fibers.eraseIdx turn.index, overrun := m'.overrun <|> some (function, steps) } :=
        hhosts.erase rfl rfl rfl
      exact .rests rfl (herased.leave turn.pass)
    | panic code =>
      obtain ⟨hmem, hpanic, hstopped⟩ := hout
      obtain ⟨cache, hcache⟩ := foldl_abandon tasks (turn.pass.leave (m'.betweenFibers.latch code))
      simp only [Scheduling.leave, Scheduling.fail, Pass.leaves, ofResult, hcache]
      refine .stopped hmem ?_ ?_ rfl
      · rw [Pass.panic_leave, Machine.latch, Machine.betweenFibers, hpanic]
        rfl
      · cases turn.pass <;> exact ⟨⟨hstopped.image_eq, hstopped.globals, hstopped.roles, hstopped.limit,
          hstopped.sends⟩, hstopped.fibers⟩
    | invalid | host => exact hout.elim

theorem Kept.next (hsafe : image.Safe) (h : a.Kept image) (hnext : a.next? = some b) : b.Kept image := by
  cases h with
  | runs hturn h =>
    rw [next?, hturn] at hnext
    cases hnext
    exact run_kept hsafe h
  | stopped _ _ _ hfailed =>
    rw [hfailed] at hnext
    cases hnext
  | rests hturn h =>
    have hresumes {pass : Pass} {index : Nat} {tasks : List Task} (hwakes : a.Wakes pass index tasks) :=
      Stepping.resume_leaves (h.enter pass) hwakes.lt
    cases steps_of_next h.panic hnext with
    | word hsome | parks hsome | repeats hsome | ends hsome | overruns hsome =>
      rw [hturn] at hsome
      cases hsome
    | goesOn hwakes _ _ hresume =>
      have hout := hresumes hwakes
      rw [hresume] at hout
      exact .runs rfl hout
    | @stays pass _ _ _ hwakes _ hresume =>
      have hout := hresumes hwakes
      rw [hresume] at hout
      exact .rests rfl (Machine.Rests.leave hout pass)
    | starts _ _ _ hstart =>
      have hout := Stepping.startMain_rests hsafe h
      rw [hstart] at hout
      exact .rests rfl hout
    | plans _ hplans => exact .rests rfl (hplans.rests h)
    | fails _ _ _ hfaults =>
      cases hfaults with
      | word hsome =>
        rw [hturn] at hsome
        cases hsome
      | wake hwakes hresume =>
        have hout := hresumes hwakes
        rw [hresume] at hout
        exact hout.elim
      | start hstart =>
        have hout := Stepping.startMain_rests hsafe h
        rw [hstart] at hout
        exact hout.elim

theorem Kept.after (hsafe : image.Safe) (h : a.Kept image) (n : Nat) : (a.after n).Kept image := by
  induction n generalizing a with
  | zero => exact h
  | succ n ih =>
    rw [Moment.after]
    cases hnext : a.next? with
    | none => exact ih h
    | some b => exact ih (h.next hsafe hnext)

end Moment

end BusScript
