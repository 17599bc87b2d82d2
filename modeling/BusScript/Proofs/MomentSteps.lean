import Mathlib
import BusScript.Proofs.Moments

/-!
What can come next at a moment, said once for everything that is proved of runs: a fiber runs a word, comes up,
parks or ends; the scheduler plans; or something fails, which stops the program.
-/

namespace BusScript

open Scheduling (detach fail fiberIndex? leave startMain)

open Stepping (Finished Resumed fiber finish resume runWord step)

def MachineError.latched? : MachineError → Option PanicCode
  | .panicked code => some code
  | .host _ => some .internal
  | .timeout .. => none
  | .image _ => none

structure Machine.Spared (m m' : Machine) : Prop where
  overrun : m'.overrun = m.overrun
  config : m'.config = m.config
  sent : m'.host.sent = m.host.sent
  now : m'.host.now = m.host.now

theorem Machine.Computed.spared {index : Nat} {m m' : Machine} (h : m.Computed index m') : m.Spared m' := by
  rw [h.rest]
  exact ⟨rfl, rfl, rfl, rfl⟩

namespace Moment

/-- A fiber comes up: the one at `index`, in the pass `pass`, with the tasks that are open then. -/
inductive Wakes (a : Moment) : Pass → Nat → List Task → Prop
  | due {now index : Nat} {id : UInt32} {ids : List UInt32} {tasks : List Task} {f : Fiber}
      (hturn : a.turn = none) (htasks : a.tasks = .runDue now (id :: ids) :: tasks)
      (hindex : fiberIndex? a.machine id = some index)
      (hfiber : a.machine.fibers[index]? = some f) (hdue : f.isDue now = true) :
      Wakes a .timer index (.runDue now ids :: tasks)
  | observer {role index : Nat} {p : Packet} {id : UInt32} {ids : List UInt32} {tasks : List Task}
      {f : Fiber} (hturn : a.turn = none) (htasks : a.tasks = .runObservers role p (id :: ids) :: tasks)
      (hindex : fiberIndex? a.machine id = some index)
      (hfiber : a.machine.fibers[index]? = some f) (hobserved : f.observed = some role) :
      Wakes a (.observers role p) index (.runObservers role p ids :: tasks)

/-- A fault comes up: in a word of the fiber that runs, when a fiber comes up, or at the start of the program. -/
inductive Faults (a : Moment) : Prop
  | word {turn : Turn} (hturn : a.turn = some turn)
  | wake {pass : Pass} {index : Nat} {tasks : List Task} {fault : Fault} {m' : Machine}
      (hwakes : a.Wakes pass index tasks) (hresume : resume index (pass.enter a.machine) = .error fault m')
  | start {fault : Fault} {m' : Machine} (hstart : startFiber 0 [] .background a.machine = .error fault m')

/-- What the scheduler does between fibers: `Plans stage m tasks m' tasks' stage'` goes from the machine `m` with
the open tasks `tasks` to `m'` with `tasks'`. No fiber is touched. -/
inductive Plans : Machine → List Task → Stage → Machine → List Task → Stage → Prop
  | bindNow {m : Machine} {tasks : List Task} {stage : Stage} (hdue : m.nextAutobind ≤ m.host.now) :
      Plans m (.autobindIfDue :: tasks) stage
        { m with nextAutobind := m.host.now + m.config.autobindInterval } (.autobind :: tasks) stage
  | bindLater {m : Machine} {tasks : List Task} {stage : Stage} (hdue : m.host.now < m.nextAutobind) :
      Plans m (.autobindIfDue :: tasks) stage m tasks stage
  | bind {m : Machine} {tasks : List Task} {stage : Stage} : Plans m (.autobind :: tasks) stage
        { m with roles := (Roles.autobind m.roles m.host.devices).roles }
        (.wakeBound (Roles.autobind m.roles m.host.devices).bound :: tasks) stage
  | drop {m : Machine} {device : DeviceId} {tasks : List Task} {stage : Stage} :
      Plans m (.dropDevice device :: tasks) stage { m with roles := (Roles.unbind m.roles device).1 }
        (.wakeDropped device (Roles.unbind m.roles device).2 :: tasks) stage
  | bound {m : Machine} {role : Nat} {roles : List Nat} {tasks : List Task} {stage : Stage} :
      Plans m (.wakeBound (role :: roles) :: tasks) stage m (.wakeRole role {} :: .wakeBound roles :: tasks) stage
  | boundEnd {m : Machine} {tasks : List Task} {stage : Stage} : Plans m (.wakeBound [] :: tasks) stage m tasks stage
  | dropped {m : Machine} {device : DeviceId} {role : Nat} {roles : List Nat} {tasks : List Task} {stage : Stage} :
      Plans m (.wakeDropped device (role :: roles) :: tasks) stage
        (detach m role) (.wakeRole role { device } :: .wakeDropped device roles :: tasks) stage
  | droppedEnd {m : Machine} {device : DeviceId} {tasks : List Task} {stage : Stage} :
      Plans m (.wakeDropped device [] :: tasks) stage m tasks stage
  | deliver {m : Machine} {p : Packet} {index : Nat} {indices : List Nat} {tasks : List Task}
      {stage : Stage} (hreceives : m.roles[index]?.any (·.receives p) = true) :
      Plans m (.deliver p (index :: indices) :: tasks) stage { m with cache := m.cache.update index p m.host.now }
        (.wakeRole index p :: .deliver p indices :: tasks) stage
  | passBy {m : Machine} {p : Packet} {index : Nat} {indices : List Nat} {tasks : List Task} {stage : Stage} :
      Plans m (.deliver p (index :: indices) :: tasks) stage m (.deliver p indices :: tasks) stage
  | deliverEnd {m : Machine} {p : Packet} {tasks : List Task} {stage : Stage} :
      Plans m (.deliver p [] :: tasks) stage m tasks stage
  | signalled {m : Machine} {role : Nat} {roles : List Nat} {tasks : List Task} {stage : Stage} :
      Plans m (.wakeSignalled (role :: roles) :: tasks) stage
        m (.wakeRole role Scheduling.signalPacket :: .wakeSignalled roles :: tasks) stage
  | signalledEnd {m : Machine} {tasks : List Task} {stage : Stage} :
      Plans m (.wakeSignalled [] :: tasks) stage m tasks stage
  | wakeRole {m : Machine} {role : Nat} {p : Packet} {tasks : List Task} {stage : Stage} :
      Plans m (.wakeRole role p :: tasks) stage { m with packet := p }
        (.runObservers role p ((m.fibers.filter (·.observed == some role)).map (·.id)) :: tasks) stage
  | skipObserver {m : Machine} {role : Nat} {p : Packet} {id : UInt32} {ids : List UInt32}
      {tasks : List Task} {stage : Stage}
      (hskip : ∀ index f, fiberIndex? m id = some index → m.fibers[index]? = some f →
        f.observed ≠ some role) :
      Plans m (.runObservers role p (id :: ids) :: tasks) stage m (.runObservers role p ids :: tasks) stage
  | observersEnd {m : Machine} {role : Nat} {p : Packet} {tasks : List Task} {stage : Stage} :
      Plans m (.runObservers role p [] :: tasks) stage m tasks stage
  | skipDue {m : Machine} {now : Nat} {id : UInt32} {ids : List UInt32} {tasks : List Task} {stage : Stage}
      (hskip : ∀ index f, fiberIndex? m id = some index → m.fibers[index]? = some f → f.isDue now = false) :
      Plans m (.runDue now (id :: ids) :: tasks) stage m (.runDue now ids :: tasks) stage
  | dueEnd {m : Machine} {now : Nat} {tasks : List Task} {stage : Stage} :
      Plans m (.runDue now [] :: tasks) stage m tasks stage
  | signals {m : Machine} : Plans m [] .signals { m with signals := [] } [.wakeSignalled m.signals] .timers
  | timers {m : Machine} : Plans m [] .timers { m with packet := {} } [] .due
  | scan {m : Machine} {due : List Fiber} (hdue : m.fibers.filter (·.isDue m.host.now) = due)
      (hsome : due ≠ []) : Plans m [] .due m [.runDue m.host.now (due.map (·.id))] .due
  | again {m : Machine} (hdue : ∀ f ∈ m.fibers, f.isDue m.host.now = false) (hsignals : m.signals ≠ []) :
      Plans m [] .due m [] .signals
  | settled {m : Machine} (hdue : ∀ f ∈ m.fibers, f.isDue m.host.now = false) (hsignals : m.signals = []) :
      Plans m [] .due m [] .done

/-- What can come next, as long as the program has not stopped, with what it is computed by. -/
inductive Steps (a : Moment) : Moment → Prop
  | word {turn : Turn} {left : Nat} {m' : Machine} (hturn : a.turn = some turn) (hleft : turn.left = left + 1)
      (hdid : Stepping.Did turn.index a.machine .next m') (hstep : step turn.index a.machine = .ok .next m') :
      Steps a { a with machine := m', turn := some { turn with left } }
  | parks {turn : Turn} {left : Nat} {m' : Machine} (hturn : a.turn = some turn) (hleft : turn.left = left + 1)
      (hdid : Stepping.Did turn.index a.machine .park m') (hstep : step turn.index a.machine = .ok .park m') :
      Steps a { a with machine := turn.pass.leave m'.betweenFibers, turn := none }
  /-- The fiber has finished, but it was told to run once more. -/
  | repeats {turn : Turn} {left : Nat} {m' m'' : Machine} (hturn : a.turn = some turn) (hleft : turn.left = left + 1)
      (hdid : Stepping.Did turn.index a.machine .finish m') (hfinished : Finished turn.index m' true m'')
      (hstep : step turn.index a.machine = .ok .finish m')
      (hfinish : finish turn.index m' = .ok true m'') :
      Steps a { a with machine := m'', turn := some { turn with left } }
  | ends {turn : Turn} {left : Nat} {m' m'' : Machine} (hturn : a.turn = some turn) (hleft : turn.left = left + 1)
      (hdid : Stepping.Did turn.index a.machine .finish m') (hfinished : Finished turn.index m' false m'')
      (hstep : step turn.index a.machine = .ok .finish m')
      (hfinish : finish turn.index m' = .ok false m'') :
      Steps a { a with machine := turn.pass.leave m''.betweenFibers, turn := none }
  /-- The fiber has run too long. -/
  | overruns {turn : Turn} {f : Fiber} (hturn : a.turn = some turn) (hleft : turn.left = 0)
      (hfiber : a.machine.fibers[turn.index]? = some f) :
      Steps a { a with
        machine := turn.pass.leave { a.machine.betweenFibers with
          fibers := a.machine.fibers.eraseIdx turn.index
          overrun := a.machine.overrun <|> some (f.frame.function, turn.budget) }
        turn := none }
  | goesOn {pass : Pass} {index budget : Nat} {tasks : List Task} {m' : Machine} (hwakes : a.Wakes pass index tasks)
      (hresumed : Resumed index (pass.enter a.machine) true m') (hbudget : 0 < budget)
      (hresume : resume index (pass.enter a.machine) = .ok true m') :
      Steps a ⟨m', some { pass, index, budget, left := budget }, tasks, a.stage⟩
  | stays {pass : Pass} {index : Nat} {tasks : List Task} {m' : Machine} (hwakes : a.Wakes pass index tasks)
      (hresumed : Resumed index (pass.enter a.machine) false m')
      (hresume : resume index (pass.enter a.machine) = .ok false m') :
      Steps a ⟨pass.leave m'.betweenFibers, none, tasks, a.stage⟩
  | starts {tasks : List Task} {m' : Machine} (hturn : a.turn = none) (htasks : a.tasks = .startMain :: tasks)
      (hstarted : a.machine.Started m') (hstart : startFiber 0 [] .background a.machine = .ok () m') :
      Steps a ⟨m', none, tasks, a.stage⟩
  | plans {m' : Machine} {tasks : List Task} {stage : Stage} (hturn : a.turn = none)
      (hplans : Plans a.machine a.tasks a.stage m' tasks stage) : Steps a ⟨m', none, tasks, stage⟩
  | fails {m' : Machine} {error : MachineError} (hpanic : m'.panic.isSome = true)
      (hlatched : m'.panic = error.latched?) (hspared : a.machine.Spared m') (hfaults : a.Faults) :
      Steps a ⟨m', none, [], .failed (.failed error)⟩

theorem foldl_abandon (tasks : List Task) (m : Machine) :
    ∃ cache, tasks.foldl (fun m task => task.abandon m) m = { m with cache } := by
  have hdetach (roles : List Nat) (m : Machine) : ∃ cache, roles.foldl detach m = { m with cache } := by
    induction roles generalizing m with
    | nil => exact ⟨m.cache, rfl⟩
    | cons role roles ih =>
      obtain ⟨cache, hcache⟩ := ih (detach m role)
      exact ⟨cache, hcache⟩
  induction tasks generalizing m with
  | nil => exact ⟨m.cache, rfl⟩
  | cons task tasks ih =>
    have habandon : ∃ cache, task.abandon m = { m with cache } := by
      cases task with
      | wakeDropped device roles => exact hdetach roles m
      | _ => exact ⟨m.cache, rfl⟩
    obtain ⟨cache, hcache⟩ := habandon
    rw [List.foldl_cons, hcache]
    exact ih _

variable {a : Moment}

variable {tasks : List Task} {pass : Pass}

variable {m : Machine} {index : Nat} {b : Moment}

theorem steps_of_fail {fault : Fault} (hpanic : m.panic = none)
    (hfault : ∀ function steps, fault ≠ .timeout function steps) (hspared : a.machine.Spared m) (hfaults : a.Faults) :
    a.Steps (ofResult tasks a.stage (pass.leaves (fail fault m))) := by
  have hfails {error : MachineError} {code : PanicCode} (hcode : error.latched? = some code) :
      a.Steps (ofResult tasks a.stage (pass.leaves (.error (.failed error) (m.latch code)))) := by
    have hlatch : (m.latch code).panic = some code := by rw [Machine.latch, hpanic]; rfl
    obtain ⟨cache, hcache⟩ := foldl_abandon tasks (pass.leave (m.latch code))
    rw [Pass.leaves, ofResult, hcache]
    cases pass <;>
      exact .fails (congrArg Option.isSome hlatch) (hlatch.trans hcode.symm)
        ⟨hspared.overrun, hspared.config, hspared.sent, hspared.now⟩ hfaults
  cases fault with
  | panic | invalid | host => exact hfails rfl
  | timeout function steps => exact (hfault function steps rfl).elim

theorem steps_of_leave {fault : Fault}
    (hpanic : m.panic = none) (hfault : ∀ function steps, fault ≠ .timeout function steps)
    (hspared : a.machine.Spared m) (hfaults : a.Faults) :
    a.Steps (ofResult tasks a.stage (pass.leaves (leave index (.error fault m)))) := by
  have hleave : leave index (.error fault m) = fail fault m.betweenFibers := by
    cases fault with
    | timeout function steps => exact (hfault function steps rfl).elim
    | _ => rfl
  rw [hleave]
  exact steps_of_fail hpanic hfault ⟨hspared.overrun, hspared.config, hspared.sent, hspared.now⟩ hfaults

theorem run_steps {turn : Turn} (hpanic : a.machine.panic = none) (hturn : a.turn = some turn) :
    a.Steps (run turn a.tasks a.stage a.machine) := by
  have hflaw {m' : Machine} {fault : Fault} (hcomputed : a.machine.Computed turn.index m')
      (hfault : ∀ function steps, fault ≠ .timeout function steps) :
      a.Steps (ofResult a.tasks a.stage (turn.pass.leaves (leave turn.index (.error fault m')))) :=
    steps_of_leave (hcomputed.stays.panic.trans hpanic) hfault hcomputed.spared (.word hturn)
  rw [run]
  cases hleft : turn.left with
  | zero =>
    rw [runWord]
    cases hfiber : a.machine.fibers[turn.index]? with
    | none =>
      simp only [bind, EStateM.bind, fiber, get, getThe, MonadStateOf.get, EStateM.get, hfiber]
      exact hflaw (Machine.Worked.refl _).toComputed (by rintro _ _ ⟨⟩)
    | some f =>
      rw [bind_of_ok (Stepping.fiber_eq hfiber)]
      exact .overruns hturn hleft hfiber
  | succ left =>
    have hdid := Stepping.step_did turn.index a.machine
    simp only [runWord, bind, EStateM.bind]
    cases hstep : step turn.index a.machine with
    | error fault m' =>
      rw [hstep] at hdid
      obtain ⟨hcomputed, flaw, rfl⟩ := hdid
      exact hflaw hcomputed (by rintro _ _ ⟨⟩)
    | ok flow m' =>
      rw [hstep, Outcome.ok_iff] at hdid
      cases flow with
      | next => exact .word hturn hleft hdid hstep
      | park => exact .parks hturn hleft hdid hstep
      | stop code => exact hflaw (hdid.computed (by rintro ⟨⟩) (by rintro ⟨⟩)) (by rintro _ _ ⟨⟩)
      | finish =>
        have hfinished := Stepping.finish_finished turn.index m'
        simp only [EStateM.bind]
        cases hfinish : finish turn.index m' with
        | error fault m'' =>
          rw [hfinish] at hfinished
          obtain ⟨rfl, flaw, rfl⟩ := hfinished
          exact hflaw (hdid.computed (by rintro ⟨⟩) (by rintro ⟨⟩)) (by rintro _ _ ⟨⟩)
        | ok goesOn m'' =>
          rw [hfinish, Outcome.ok_iff] at hfinished
          cases goesOn with
          | true => exact .repeats hturn hleft hdid hfinished hstep hfinish
          | false => exact .ends hturn hleft hdid hfinished hstep hfinish

theorem wake_steps (hpanic : a.machine.panic = none)
    (hwakes : a.Wakes pass index tasks) : a.Steps (wake pass index tasks a.stage a.machine) := by
  have hresumed := Stepping.resume_resumed index (pass.enter a.machine)
  rw [wake, hpanic, Option.isSome_none, if_neg (by decide)]
  cases hresume : resume index (pass.enter a.machine) with
  | error fault m' =>
    rw [hresume] at hresumed
    obtain ⟨heq, hfault, -⟩ := hresumed
    refine steps_of_leave ?_ hfault ⟨?_, ?_, ?_, ?_⟩ (.wake hwakes hresume)
    · rw [heq]
      exact (pass.abides_enter a.machine).panic.trans hpanic
    · rw [heq]
      cases pass <;> rfl
    · rw [heq, Pass.config_enter]
    · rw [heq, Pass.host_enter]
    · rw [heq, Pass.host_enter]
  | ok goesOn m' =>
    rw [hresume, Outcome.ok_iff] at hresumed
    cases goesOn with
    | true => exact .goesOn hwakes hresumed (Nat.lt_of_lt_of_le Nat.zero_lt_one (Nat.le_max_right ..)) hresume
    | false => exact .stays hwakes hresumed hresume

theorem next?_of_wakes (h : a.Wakes pass index tasks)
    (hpanic : a.machine.panic = none) : a.next? = some (wake pass index tasks a.stage a.machine) := by
  cases h with
  | due hturn htasks hindex hfiber hdue =>
    rw [next?, hturn, htasks]
    simp only [begin, hpanic, Option.isSome_none, Bool.false_eq_true, if_false, hindex, hfiber, Option.any_some, hdue,
      if_true]
  | observer hturn htasks hindex hfiber hobserved =>
    rw [next?, hturn, htasks]
    simp only [begin, hindex, hfiber, Option.any_some, hobserved, beq_self_eq_true, if_true]

theorem begin_steps {task : Task} (hpanic : a.machine.panic = none)
    (hturn : a.turn = none) (htasks : a.tasks = task :: tasks) : a.Steps (begin tasks a.stage a.machine task) := by
  have hplans {m' : Machine} {tasks' : List Task} {stage' : Stage}
      (h : Plans a.machine (task :: tasks) a.stage m' tasks' stage') : a.Steps ⟨m', none, tasks', stage'⟩ :=
    .plans hturn (htasks ▸ h)
  cases task with
  | startMain =>
    have hstarted := Stepping.startFiber_requested 0 [] .background a.machine
    rw [begin, startMain]
    cases hstart : startFiber 0 [] .background a.machine with
    | ok u m' =>
      rw [hstart] at hstarted
      exact .starts hturn htasks hstarted.started hstart
    | error fault m' =>
      rw [hstart] at hstarted
      obtain ⟨rfl, flaw, rfl⟩ := hstarted
      have hfails : a.Steps (ofResult tasks a.stage (Pass.timer.leaves (fail (.invalid flaw) a.machine))) :=
        steps_of_fail hpanic (by rintro _ _ ⟨⟩) ⟨rfl, rfl, rfl, rfl⟩ (.start hstart)
      rwa [Pass.leaves_timer] at hfails
  | autobindIfDue =>
    rw [begin]
    split
    · exact hplans (.bindNow ‹_›)
    · exact hplans (.bindLater (Nat.lt_of_not_le ‹_›))
  | autobind => exact hplans .bind
  | wakeBound roles =>
    cases roles with
    | nil => exact hplans .boundEnd
    | cons role roles => exact hplans .bound
  | deliver p indices =>
    cases indices with
    | nil => exact hplans .deliverEnd
    | cons index indices =>
      rw [begin]
      split
      · exact hplans (.deliver ‹_›)
      · exact hplans .passBy
  | dropDevice device => exact hplans .drop
  | wakeDropped device roles =>
    cases roles with
    | nil => exact hplans .droppedEnd
    | cons role roles => exact hplans .dropped
  | wakeRole role p => exact hplans .wakeRole
  | runObservers role p ids =>
    cases ids with
    | nil => exact hplans .observersEnd
    | cons id ids =>
      rw [begin]
      cases hindex : fiberIndex? a.machine id with
      | none => exact hplans (.skipObserver fun _ _ h => by rw [hindex] at h; cases h)
      | some index =>
        simp only
        split
        · rename_i hobserved
          obtain ⟨f, hfiber, hobserved⟩ := (Option.any_eq_true _ _).1 hobserved
          exact wake_steps hpanic (.observer hturn htasks hindex hfiber (eq_of_beq hobserved))
        · rename_i hobserved
          refine hplans (.skipObserver fun index' f h hfiber heq => ?_)
          simp_all
  | wakeSignalled roles =>
    cases roles with
    | nil => exact hplans .signalledEnd
    | cons role roles => exact hplans .signalled
  | runDue now ids =>
    cases ids with
    | nil => exact hplans .dueEnd
    | cons id ids =>
      rw [begin, hpanic, Option.isSome_none, if_neg (by decide)]
      cases hindex : fiberIndex? a.machine id with
      | none => exact hplans (.skipDue fun _ _ h => by rw [hindex] at h; cases h)
      | some index =>
        simp only
        split
        · rename_i hdue
          obtain ⟨f, hfiber, hdue⟩ := (Option.any_eq_true _ _).1 hdue
          exact wake_steps hpanic (.due hturn htasks hindex hfiber hdue)
        · rename_i hdue
          refine hplans (.skipDue fun index' f h hfiber => ?_)
          simp_all

theorem proceed_steps (hpanic : a.machine.panic = none) (hturn : a.turn = none)
    (htasks : a.tasks = []) (h : proceed a.machine a.stage = some b) : a.Steps b := by
  have hplans {m' : Machine} {tasks' : List Task} {stage' : Stage}
      (h : Plans a.machine [] a.stage m' tasks' stage') : a.Steps ⟨m', none, tasks', stage'⟩ :=
    .plans hturn (htasks ▸ h)
  cases hstage : a.stage with
  | signals =>
    rw [hstage] at h hplans
    cases h
    exact hplans .signals
  | timers =>
    rw [hstage] at h hplans
    cases h
    exact hplans .timers
  | due =>
    rw [hstage, proceed, hpanic] at h
    rw [hstage] at hplans
    split at h
    · rename_i hdue
      cases h
      exact hplans (.scan rfl fun h => by rw [h] at hdue; cases hdue)
    · rename_i hdue
      have hnone : ∀ f ∈ a.machine.fibers, f.isDue a.machine.host.now = false := by simp_all
      split at h
      · rename_i hsignals
        cases h
        exact hplans (.again hnone fun h => by rw [h] at hsignals; cases hsignals)
      · rename_i hsignals
        cases h
        refine hplans (.settled hnone ?_)
        simp_all
  | done | failed => rw [hstage] at h; cases h

theorem steps_of_next (hpanic : a.machine.panic = none) (h : a.next? = some b) : a.Steps b := by
  rw [next?] at h
  cases hturn : a.turn with
  | some turn =>
    rw [hturn] at h
    cases h
    exact run_steps hpanic hturn
  | none =>
    rw [hturn] at h
    cases htasks : a.tasks with
    | cons task tasks =>
      rw [htasks] at h
      cases h
      exact begin_steps hpanic hturn htasks
    | nil =>
      rw [htasks] at h
      exact proceed_steps hpanic hturn htasks h

/-- A step as far as the scheduler is concerned: a fiber acts and leaves everything else as it is, the scheduler plans, or
something fails. -/
inductive Outlines (a : Moment) : Moment → Prop
  | acts {b : Moment} (habides : a.machine.Abides b.machine) (hstage : b.stage = a.stage)
      (hbusy : a.turn = none → ∀ tasks, a.tasks ≠ .autobindIfDue :: tasks) : Outlines a b
  | plans {m' : Machine} {tasks : List Task} {stage : Stage} (hturn : a.turn = none)
      (hplans : Plans a.machine a.tasks a.stage m' tasks stage) : Outlines a ⟨m', none, tasks, stage⟩
  | fails {m' : Machine} {error : MachineError} (hpanic : m'.panic.isSome = true)
      (hlatched : m'.panic = error.latched?) (hspared : a.machine.Spared m') :
      Outlines a ⟨m', none, [], .failed (.failed error)⟩

theorem Steps.outlines (h : a.Steps b) : a.Outlines b := by
  have hrunning {turn : Turn} (hturn : a.turn = some turn) (hnone : a.turn = none) (tasks : List Task) :
      a.tasks ≠ .autobindIfDue :: tasks := by
    rw [hturn] at hnone
    cases hnone
  have hwaking {pass : Pass} {index : Nat} {tasks' : List Task} (hwakes : a.Wakes pass index tasks')
      (_ : a.turn = none) (tasks : List Task) : a.tasks ≠ .autobindIfDue :: tasks := by
    intro heq
    cases hwakes with
    | due _ htasks | observer _ htasks => rw [htasks] at heq; cases heq
  cases h with
  | word hturn _ hdid => exact .acts hdid.stays.toAbides rfl (hrunning hturn)
  | parks hturn _ hdid => exact .acts (hdid.stays.toAbides.trans (Pass.abides_leave ..)) rfl (hrunning hturn)
  | repeats hturn _ hdid hfinished => exact .acts (hdid.stays.trans hfinished.stays).toAbides rfl (hrunning hturn)
  | ends hturn _ hdid hfinished =>
    exact .acts ((hdid.stays.trans hfinished.stays).toAbides.trans (Pass.abides_leave ..)) rfl (hrunning hturn)
  | @overruns turn f hturn =>
    refine .acts ?_ rfl (hrunning hturn)
    cases turn.pass <;> exact ⟨rfl, rfl, rfl, rfl, rfl, rfl, rfl⟩
  | goesOn hwakes hresumed => exact .acts ((Pass.abides_enter ..).trans hresumed.stays.toAbides) rfl (hwaking hwakes)
  | stays hwakes hresumed =>
    exact .acts (((Pass.abides_enter ..).trans hresumed.stays.toAbides).trans (Pass.abides_leave ..)) rfl (hwaking hwakes)
  | starts _ htasks hstarted =>
    refine .acts hstarted.stays.toAbides rfl fun _ tasks heq => ?_
    rw [htasks] at heq
    cases heq
  | plans hturn hplans => exact .plans hturn hplans
  | fails hpanic hlatched hspared => exact .fails hpanic hlatched hspared

theorem Plans.panic {m' : Machine} {tasks' : List Task} {stage stage' : Stage}
    (h : Plans m tasks stage m' tasks' stage') : m'.panic = m.panic := by
  cases h <;> rfl

end Moment

def Stage.isOpen : Stage → Bool
  | .signals | .timers | .due => true
  | .done | .failed _ => false

structure Machine.Settled (m : Machine) : Prop where
  due : ∀ f ∈ m.fibers, f.isDue m.host.now = false
  signals : m.signals = []

namespace Moment

/-- A call that goes on, has done everything, or has stopped the program. -/
inductive Stands (a : Moment) : Prop
  | live (hpanic : a.machine.panic = none) (hstage : a.stage.isOpen = true)
  | done (hpanic : a.machine.panic = none) (hrest : a = .rest a.machine) (hsettled : a.machine.Settled)
  | failed (error : MachineError) (hpanic : a.machine.panic.isSome = true)
      (hfailed : a = ⟨a.machine, none, [], .failed (.failed error)⟩)

variable {a b : Moment}

theorem Steps.stands (h : a.Steps b) (hpanic : a.machine.panic = none) (hstage : a.stage.isOpen = true) :
    b.Stands := by
  cases h.outlines with
  | acts habides hsame => exact .live (habides.panic.trans hpanic) (hsame ▸ hstage)
  | plans hturn hplans =>
    have hpanic' := hplans.panic.trans hpanic
    generalize a.machine = m at hplans
    generalize a.tasks = tasks at hplans
    generalize ha : a.stage = stage at hplans hstage
    cases hplans with
    | settled hdue hsignals => exact .done hpanic' rfl ⟨hdue, hsignals⟩
    | signals | timers | scan | again => exact .live hpanic' rfl
    | _ => exact .live hpanic' hstage
  | fails hpanic' => exact .failed _ hpanic' rfl

theorem Stands.after (h : a.Stands) (n : Nat) : (a.after n).Stands := by
  induction n generalizing a with
  | zero => exact h
  | succ n ih =>
    rw [Moment.after]
    cases hnext : a.next? with
    | none => exact ih h
    | some b =>
      refine ih ?_
      cases h with
      | live hpanic hstage => exact (steps_of_next hpanic hnext).stands hpanic hstage
      | done hpanic hrest hsettled => rw [hrest] at hnext; cases hnext
      | failed error hpanic hfailed => rw [hfailed] at hnext; cases hnext

theorem Stands.panic (h : a.Stands) (hstage : a.stage.isOpen = true) : a.machine.panic = none := by
  cases h with
  | live hpanic | done hpanic => exact hpanic
  | failed error hpanic hfailed => rw [hfailed] at hstage; cases hstage

theorem isOver_of_isOpen (hstage : a.stage.isOpen = true) : a.isOver = false := by
  rw [isOver, next?]
  cases a.turn with
  | some turn => rfl
  | none =>
    cases a.tasks with
    | cons task tasks => rfl
    | nil =>
      cases hs : a.stage with
      | signals => rfl
      | timers => rfl
      | due =>
        rw [proceed, apply_ite Option.isNone, apply_ite Option.isNone]
        simp only [Option.isNone_some, ite_self]
      | done | failed => rw [hs] at hstage; cases hstage

theorem Stands.comesTo (h : a.Stands) (hcomes : a.ComesTo b) : b.Stands := by
  obtain ⟨n, rfl⟩ := hcomes
  exact h.after n

theorem Stands.error_of_failed (h : a.Stands) {why : Interrupt} (hstage : a.stage = .failed why) :
    ∃ error, why = .failed error := by
  cases h with
  | live hpanic hopen => rw [hstage] at hopen; cases hopen
  | done hpanic hrest hsettled => rw [hrest] at hstage; cases hstage
  | failed error hpanic hfailed => grind

end Moment

end BusScript
