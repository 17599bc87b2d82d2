import BusScript.Proofs.Containment

namespace BusScript

def reported? : Except MachineError Unit → Option PanicCode
  | .ok () => none
  | .error e => e.latched?

def isFatal : Except MachineError Unit → Bool
  | .error (.panicked _) | .error (.host _) => true
  | _ => false

theorem isFatal_eq (outcome : Except MachineError Unit) : isFatal outcome = (reported? outcome).isSome := by
  cases outcome with
  | ok u => rfl
  | error e => cases e <;> rfl

def Interrupt.latched? : Interrupt → Option PanicCode
  | .failed e => e.latched?
  | .outOfFuel => none

def Stage.latched? : Stage → Option PanicCode
  | .failed why => why.latched?
  | _ => none

theorem Stage.latched?_of_isOpen {stage : Stage} (h : stage.isOpen = true) : stage.latched? = none := by
  cases stage with
  | failed why => cases h
  | _ => rfl

namespace Moment

def overruns? (a : Moment) : Option (Nat × Nat) :=
  a.turn.bind fun turn =>
    if turn.left = 0 then a.machine.fibers[turn.index]?.map (·.frame.function, turn.budget) else none

/-- The call so far: a panic is latched if and only if it has failed for it, and `overrun` was noted first. -/
structure Accounts (overrun : Option (Nat × Nat)) (a : Moment) : Prop where
  panic : a.machine.panic = a.stage.latched?
  overrun : a.machine.overrun = overrun

variable {a b : Moment}

theorem Plans.latched? {m m' : Machine} {tasks tasks' : List Task} {stage stage' : Stage}
    (h : Plans m tasks stage m' tasks' stage') (hstage : stage.isOpen = true) : stage'.latched? = none := by
  cases h with
  | signals => rfl
  | timers => rfl
  | scan => rfl
  | again => rfl
  | settled => rfl
  | _ => exact Stage.latched?_of_isOpen hstage

theorem Steps.latched? (h : a.Steps b) (hpanic : a.machine.panic = none) (hstage : a.stage.isOpen = true) :
    b.machine.panic = b.stage.latched? := by
  cases h.outlines with
  | acts habides hsame => rw [hsame, Stage.latched?_of_isOpen hstage, habides.panic, hpanic]
  | plans hturn hplans => exact (hplans.panic.trans hpanic).trans (hplans.latched? hstage).symm
  | fails _ hlatched => exact hlatched

theorem Plans.overrun {m m' : Machine} {tasks tasks' : List Task} {stage stage' : Stage}
    (h : Plans m tasks stage m' tasks' stage') : m'.overrun = m.overrun := by
  cases h <;> rfl

theorem overruns?_of_idle (hturn : a.turn = none) : a.overruns? = none := by rw [overruns?, hturn, Option.bind_none]

theorem overruns?_of_left {turn : Turn} {left : Nat} (hturn : a.turn = some turn) (hleft : turn.left = left + 1) :
    a.overruns? = none := by
  rw [overruns?, hturn, Option.bind_some, hleft, if_neg (Nat.succ_ne_zero left)]

theorem overrun_next (hpanic : a.machine.panic = none) (hstage : a.stage.isOpen = true) (h : a.next? = some b) :
    b.machine.overrun = a.machine.overrun.or a.overruns? := by
  have hnone {m' : Machine} (hover : a.overruns? = none) (hsame : m'.overrun = a.machine.overrun) :
      m'.overrun = a.machine.overrun.or a.overruns? := by
    rw [hover, Option.or_none, hsame]
  have hleave (pass : Pass) (m : Machine) : (pass.leave m.betweenFibers).overrun = m.overrun := by cases pass <;> rfl
  have henter (pass : Pass) (m : Machine) : (pass.enter m).overrun = m.overrun := by cases pass <;> rfl
  have hwaking {pass : Pass} {index : Nat} {tasks : List Task} (hwakes : a.Wakes pass index tasks) :
      a.overruns? = none := by
    cases hwakes with
    | due hturn | observer hturn => exact overruns?_of_idle hturn
  cases steps_of_next hpanic h with
  | word hturn hleft hdid => exact hnone (overruns?_of_left hturn hleft) hdid.stays.overrun
  | parks hturn hleft hdid => exact hnone (overruns?_of_left hturn hleft) ((hleave ..).trans hdid.stays.overrun)
  | repeats hturn hleft hdid hfinished =>
    exact hnone (overruns?_of_left hturn hleft) (hdid.stays.trans hfinished.stays).overrun
  | ends hturn hleft hdid hfinished =>
    exact hnone (overruns?_of_left hturn hleft) ((hleave ..).trans (hdid.stays.trans hfinished.stays).overrun)
  | @overruns turn f hturn hleft hfiber =>
    rw [overruns?, hturn, Option.bind_some, if_pos hleft, hfiber, Option.map_some]
    cases turn.pass <;> exact Option.orElse_eq_or
  | goesOn hwakes hresumed => exact hnone (hwaking hwakes) (hresumed.stays.overrun.trans (henter ..))
  | stays hwakes hresumed =>
    exact hnone (hwaking hwakes) ((hleave ..).trans (hresumed.stays.overrun.trans (henter ..)))
  | starts hturn _ hstarted => exact hnone (overruns?_of_idle hturn) hstarted.stays.overrun
  | plans hturn hplans => exact hnone (overruns?_of_idle hturn) hplans.overrun
  | fails _ _ hspared =>
    refine hnone ?_ hspared.overrun
    cases hturn : a.turn with
    | none => exact overruns?_of_idle hturn
    | some turn =>
      cases hleft : turn.left with
      | succ left => exact overruns?_of_left hturn hleft
      | zero =>
        cases hfiber : a.machine.fibers[turn.index]? with
        | none => rw [overruns?, hturn, Option.bind_some, if_pos hleft, hfiber, Option.map_none]
        | some f =>
          -- A fiber that runs too long does not make the call fail.
          simp only [next?, hturn, run, hleft, Stepping.runWord, bind_of_ok (Stepping.fiber_eq hfiber)] at h
          have hsame : a.stage = .failed (.failed _) := congrArg Moment.stage (Option.some.inj h)
          rw [hsame] at hstage
          cases hstage

theorem accounts_next (hpanic : a.machine.panic = none) (hstage : a.stage.isOpen = true) (h : a.next? = some b) :
    Accounts (a.machine.overrun.or a.overruns?) b :=
  ⟨(steps_of_next hpanic h).latched? hpanic hstage, overrun_next hpanic hstage h⟩

/-- The first fiber that has used up its words in the first `n` moments. -/
def overrunIn? (a : Moment) (n : Nat) : Option (Nat × Nat) := (List.range n).findSome? fun k => (a.after k).overruns?

theorem overrunIn?_succ (a : Moment) (n : Nat) : a.overrunIn? (n + 1) = (a.overrunIn? n).or (a.after n).overruns? := by
  rw [overrunIn?, List.range_succ, List.findSome?_append, List.findSome?_singleton]
  rfl

theorem overruns?_of_isOver (hover : a.isOver = true) : a.overruns? = none := by
  cases hturn : a.turn with
  | none => exact overruns?_of_idle hturn
  | some turn =>
    rw [isOver, next?, hturn] at hover
    cases hover

theorem accounts_after (hpanic : a.machine.panic = none) (hstage : a.stage.isOpen = true) (n : Nat) :
    Accounts (a.machine.overrun.or (a.overrunIn? n)) (a.after n) := by
  have hstands : a.Stands := .live hpanic hstage
  induction n with
  | zero =>
    rw [overrunIn?, List.range_zero, List.findSome?_nil, Option.or_none]
    exact ⟨hpanic.trans (Stage.latched?_of_isOpen hstage).symm, rfl⟩
  | succ n ih =>
    rw [overrunIn?_succ, after_add, after, ← Option.or_assoc, ← ih.overrun]
    cases hnext : (a.after n).next? with
    | none =>
      rw [overruns?_of_isOver (by rw [isOver, hnext]; rfl), Option.or_none, ih.overrun]
      exact ih
    | some b =>
      have hn := hstands.after n
      cases hn with
      | live hpanic' hstage' => exact accounts_next hpanic' hstage' hnext
      | done _ hrest => rw [hrest] at hnext; cases hnext
      | failed _ _ hfailed => rw [hfailed] at hnext; cases hnext

theorem panic_of_not_over (hpanic : a.machine.panic = none) (hstage : a.stage.isOpen = true) {n : Nat}
    (hover : (a.after n).isOver = false) : (a.after n).machine.panic = none := by
  have hstands : a.Stands := .live hpanic hstage
  have hn := hstands.after n
  cases hn with
  | live hpanic' | done hpanic' => exact hpanic'
  | failed _ _ hfailed => rw [hfailed] at hover; cases hover

end Moment

def timedOut : Option (Nat × Nat) → Except MachineError Unit
  | none => .ok ()
  | some (function, steps) => .error (.timeout function steps)

theorem reported?_timedOut (overrun : Option (Nat × Nat)) : reported? (timedOut overrun) = none := by
  cases overrun <;> rfl

namespace HostCall

variable {m m' : Machine} {call : HostCall} {fuel : Nat} {outcome : Except MachineError Unit}

/-- A call reports the panic that it latches, and otherwise the first fiber that ran too long. -/
theorem report_of_run (hpanic : m.panic = none) (hrun : call.run fuel m = some (outcome, m')) :
    m'.panic = reported? outcome ∧ m'.overrun = none ∧
    ∃ n, ((call.first m).after n).isOver = true ∧
      (m'.panic = none → outcome = timedOut (m.overrun.or ((call.first m).overrunIn? n))) := by
  obtain ⟨_, ⟨n, rfl⟩, hover, hconclude⟩ := comesTo_of_run hpanic hrun
  have haccounts := Moment.accounts_after (a := call.first m) hpanic rfl n
  have hstands : (call.first m).Stands := .live hpanic rfl
  rw [Moment.result] at hconclude
  cases hstage : ((call.first m).after n).stage with
  | failed why =>
    have hlatched := haccounts.panic
    rw [hstage] at hconclude hlatched
    obtain ⟨e, rfl⟩ := (hstands.after n).error_of_failed hstage
    cases hconclude
    refine ⟨hlatched, rfl, n, hover, fun hnone => ?_⟩
    cases hn : hstands.after n with
    | live hpanic' hopen => rw [hstage] at hopen; cases hopen
    | done hpanic' hrest => rw [hrest] at hstage; cases hstage
    | failed e' hsome => rw [show ((call.first m).after n).machine.panic = none from hnone] at hsome; cases hsome
  | _ =>
    have hlatched := haccounts.panic
    rw [hstage] at hconclude hlatched
    cases hconclude
    refine ⟨?_, rfl, n, hover, fun _ => ?_⟩
    · change ((call.first m).after n).machine.panic = reported? (timedOut _)
      rw [reported?_timedOut]
      exact hlatched
    · change timedOut _ = _
      rw [haccounts.overrun]
      rfl

end HostCall

/-- The outcomes of calls, in their order, and the machine that they lead to. Between two calls the host may change in
any way, but the machine is not reset. -/
inductive Machine.Serves (m : Machine) : List (Except MachineError Unit) → Machine → Prop
  | refl : m.Serves [] m
  | host {outcomes : List (Except MachineError Unit)} {m' : Machine} (host : Host) :
      m.Serves outcomes m' → m.Serves outcomes { m' with host }
  | call {outcomes : List (Except MachineError Unit)} {m' m'' : Machine} {outcome : Except MachineError Unit}
      (fuel : Nat) (call : HostCall) : m.Serves outcomes m' → call.run fuel m' = some (outcome, m'') →
        m.Serves (outcomes ++ [outcome]) m''

namespace Machine

variable {m m' : Machine} {outcomes : List (Except MachineError Unit)}

theorem Serves.eq_of_panic (h : m.Serves outcomes m') (hpanic : m.panic.isSome = true) :
    (∀ outcome ∈ outcomes, outcome = .ok ()) ∧ m' = { m with host := m'.host } := by
  induction h with
  | refl => exact ⟨nofun, rfl⟩
  | host host _ ih =>
    refine ⟨ih.1, ?_⟩
    rw [ih.2]
  | @call outcomes m1 m2 outcome fuel call _ hrun ih =>
    have hsome : m1.panic.isSome = true := by rw [ih.2]; exact hpanic
    rw [HostCall.run_of_panic hsome] at hrun
    grind

/-- Of the calls of a run, one is fatal if the program has stopped, and none otherwise. -/
theorem Serves.count_isFatal (h : m.Serves outcomes m') (hpanic : m.panic = none) :
    outcomes.countP isFatal = if m'.panic.isSome then 1 else 0 := by
  induction h with
  | refl => rw [hpanic]; rfl
  | host host _ ih => exact ih
  | @call outcomes m1 m2 outcome fuel call _ hrun ih =>
    rw [List.countP_append, List.countP_singleton, isFatal_eq, ih]
    cases hstopped : m1.panic with
    | some code =>
      rw [HostCall.run_of_panic (by rw [hstopped]; rfl)] at hrun
      cases hrun
      rw [hstopped]
      rfl
    | none =>
      rw [(HostCall.report_of_run hstopped hrun).1]
      cases reported? outcome <;> rfl

/-- Panics are latched and reported exactly once. A call ends with a panic or a failure of the host if and only if it
latches a panic, which is the one it tells of; it reports a fiber that ran too long only if it latches none; and none is
latched while it goes on. A panic stays, and once there is one, calls return at once and leave everything as it is. So
of all calls after a start or a reset one is fatal if the program has stopped, and none otherwise. -/
theorem panics_are_reported_once (m : Machine) :
    (∀ (call : HostCall) (fuel : Nat) (outcome : Except MachineError Unit) (m' : Machine),
      call.run fuel m = some (outcome, m') → (isFatal outcome = true ↔ m.panic = none ∧ m'.panic ≠ none) ∧
        (∀ code, m.panic = some code → m'.panic = some code) ∧
        (∀ code, outcome = .error (.panicked code) → m'.panic = some code) ∧
        (∀ message, outcome = .error (.host message) → m'.panic = some .internal) ∧
        ∀ function steps, outcome = .error (.timeout function steps) → m'.panic = none) ∧
    (∀ (call : HostCall) (n : Nat), m.panic = none → ((call.first m).after n).isOver = false →
      ((call.first m).after n).machine.panic = none) ∧
    (m.panic ≠ none → (∀ (call : HostCall) (fuel : Nat), call.run fuel m = some (.ok (), m)) ∧
      ∀ outcomes m', m.Serves outcomes m' →
        (∀ outcome ∈ outcomes, outcome = .ok ()) ∧ m' = { m with host := m'.host }) ∧
    (m.panic = none → ∀ outcomes m', m.Serves outcomes m' →
      outcomes.countP isFatal = if m'.panic.isSome then 1 else 0) := by
  refine ⟨fun call fuel outcome m' hrun => ?_, fun call n hpanic => Moment.panic_of_not_over hpanic rfl, fun hpanic => ?_,
    fun hpanic outcomes m' h => h.count_isFatal hpanic⟩
  · cases hpanic : m.panic with
    | some code =>
      rw [HostCall.run_of_panic (by rw [hpanic]; rfl)] at hrun
      cases hrun
      refine ⟨⟨nofun, fun h => by cases h.1⟩, fun _ h => hpanic.trans h, nofun, nofun, nofun⟩
    | none =>
      have hreport := (HostCall.report_of_run hpanic hrun).1
      refine ⟨?_, nofun, ?_, ?_, ?_⟩
      · rw [isFatal_eq, ← hreport, Option.isSome_iff_ne_none]
        exact ⟨fun h => ⟨rfl, h⟩, fun h => h.2⟩
      · rintro code rfl
        exact hreport
      · rintro message rfl
        exact hreport
      · rintro function steps rfl
        exact hreport
  · have hsome := Option.isSome_iff_ne_none.2 hpanic
    exact ⟨fun call fuel => HostCall.run_of_panic hsome fuel call, fun outcomes m' h => h.eq_of_panic hsome⟩

/-- A main function panics with code 7. The call that runs it says so, and no call says it again. -/
theorem panics_are_reported_once_seven : ∃ m outcome m', Machine.new (ImageTables.ofMain
        [0x70c5, 0x8040, 0x9041, 0xb708, 0xb000, 0xb000]).image {} {} (.ofSeed 1) = .ok m ∧
      HostCall.start.run 2 m = some (outcome, m') ∧ m'.panic = some (.user 7) ∧ isFatal outcome = true ∧
      ∀ (call : HostCall) (fuel : Nat), call.run fuel m' = some (.ok (), m') := by
  have htrial : (ImageTables.ofMain [0x70c5, 0x8040, 0x9041, 0xb708, 0xb000, 0xb000]).trial =
      some (true, [.user 7], some (.user 7)) := by decide +kernel
  obtain ⟨m, outcome, m', hnew, -, -, hstart, hpanic⟩ := ImageTables.trial_eq_some htrial
  have hnone : m.panic = none := by
    obtain ⟨image, -, -, rfl⟩ := Machine.eq_of_new hnew
    rfl
  have hsome : m'.panic ≠ none := by rw [hpanic]; exact Option.some_ne_none _
  have hfatal := ((panics_are_reported_once m).1 .start 2 outcome m' hstart).1.2 ⟨hnone, hsome⟩
  exact ⟨m, outcome, m', hnew, hstart, hpanic, hfatal, ((panics_are_reported_once m').2.2.1 hsome).1⟩

end Machine

end BusScript
