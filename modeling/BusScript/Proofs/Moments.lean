import BusScript.Proofs.Moves

/-!
The run of a machine moment by moment. A call of the host is a list of tasks and a stage; a task puts the tasks
it consists of before the others, until a fiber takes its turn, which then runs word by word. The next moment
is a function of the moment, so a call is one sequence of moments. The moments of a task lead to what the task
leaves.
-/

namespace BusScript

def Pass.leave : Pass → Machine → Machine
  | .timer, m => m
  | .observers .., m => { m with wokenBy := none }

namespace Pass

variable (pass : Pass) (m : Machine)

@[simp] theorem host_leave : (pass.leave m).host = m.host := by cases pass <;> rfl

@[simp] theorem roles_leave : (pass.leave m).roles = m.roles := by cases pass <;> rfl

@[simp] theorem panic_leave : (pass.leave m).panic = m.panic := by cases pass <;> rfl

theorem abides_enter : m.Abides (pass.enter m) := by cases pass <;> exact ⟨rfl, rfl, rfl, rfl, rfl, rfl, rfl⟩

theorem abides_leave : m.Abides (pass.leave m.betweenFibers) := by
  cases pass <;> exact ⟨rfl, rfl, rfl, rfl, rfl, rfl, rfl⟩

end Pass

namespace Stepping

/-- Runs one word, unless none is left. How many are left then, if the fiber runs on. -/
def runWord (index budget : Nat) : (left : Nat) → Stepping (Option Nat)
  | 0 => do throw (.timeout (← fiber index).frame.function budget)
  | left + 1 => do
    match ← step index with
    | .next => return some left
    | .park => return none
    | .finish => return if ← finish index then some left else none
    | .stop code => throw (.panic code)

theorem runWords_eq (index budget left : Nat) : runWords index budget left = (do
      match ← runWord index budget left with
      | some left => runWords index budget left
      | none => return ()) := by
  cases left with
  | zero =>
    rw [runWords, runWord, bind_assoc]
    exact bind_congr fun _ => rfl
  | succ left =>
    rw [runWords, runWord, bind_assoc]
    refine bind_congr fun flow => ?_
    cases flow with
    | next => rfl
    | park => rfl
    | stop code => rfl
    | finish =>
      rw [bind_assoc]
      refine bind_congr fun goesOn => ?_
      cases goesOn <;> rfl

theorem eq_succ_of_runWord {index budget left left' : Nat} {m m' : Machine}
    (h : runWord index budget left m = .ok (some left') m') : left = left' + 1 := by
  have hleft : Outcome (fun l _ => ∀ l', l = some l' → left = l' + 1) (fun _ _ => True)
      (runWord index budget left m) := by
    have htrue {ε σ α : Type} (r : EStateM.Result ε σ α) : Outcome (fun _ _ => True) (fun _ _ => True) r := by
      cases r <;> trivial
    cases left with
    | zero => exact (htrue _).bind (fun _ _ _ => trivial) fun _ _ => id
    | succ left =>
      refine (htrue _).bind (fun flow m' _ => ?_) fun _ _ => id
      cases flow with
      | next => exact fun _ h => congrArg _ (Option.some.inj h)
      | park => exact fun _ h => by cases h
      | stop code => trivial
      | finish => simp_all
  rw [h] at hleft
  exact hleft left' rfl

end Stepping

namespace Scheduling

/-- What is left when the fiber at `index` stops running. -/
def leave (index : Nat) : EStateM.Result Fault Machine Unit → EStateM.Result Interrupt Machine Unit
  | .ok () m => .ok () m.betweenFibers
  | .error (.timeout function steps) m =>
    .ok () { m.betweenFibers with
      fibers := m.fibers.eraseIdx index
      overrun := m.overrun <|> some (function, steps) }
  | .error fault m => fail fault m.betweenFibers

theorem run_eq (index : Nat) (m : Machine) : run index m =
    if m.panic.isSome then .ok () m else leave index (Stepping.runFiber index m) := by
  rw [run]
  split
  · rfl
  · cases Stepping.runFiber index m with
    | ok u m' => rfl
    | error fault m' => cases fault <;> rfl

end Scheduling

def Pass.leaves (pass : Pass) : EStateM.Result Interrupt Machine Unit → EStateM.Result Interrupt Machine Unit
  | .ok () m => .ok () (pass.leave m)
  | .error e m => .error e (pass.leave m)

theorem Pass.leaves_timer (r : EStateM.Result Interrupt Machine Unit) : Pass.timer.leaves r = r := by
  cases r <;> rfl

theorem Scheduling.runWoken_eq (role : Nat) (p : Packet) (index : Nat) (m : Machine) : runWoken role p index m =
      (Pass.observers role p).leaves (run index ((Pass.observers role p).enter m)) := by
  rw [runWoken, Pass.enter]
  cases run index { m with packet := p, wokenBy := some role } <;> rfl

/-- What has to be done in a call before everything settles, and what a pass consists of. -/
inductive Task where
  | startMain
  | autobindIfDue
  | autobind
  | wakeBound (roles : List Nat)
  | deliver (p : Packet) (indices : List Nat)
  | dropDevice (device : DeviceId)
  | wakeDropped (device : DeviceId) (roles : List Nat)
  | wakeRole (role : Nat) (p : Packet)
  | runObservers (role : Nat) (p : Packet) (ids : List UInt32)
  | wakeSignalled (roles : List Nat)
  | runDue (now : Nat) (ids : List UInt32)

namespace Task

def act : Task → Scheduling Unit
  | startMain => Scheduling.startMain
  | autobindIfDue => Scheduling.autobindIfDue
  | autobind => Scheduling.autobind
  | wakeBound roles => Scheduling.wakeBound roles
  | deliver p indices => Scheduling.deliver p indices
  | dropDevice device => Scheduling.dropDevice device
  | wakeDropped device roles => Scheduling.wakeDropped device roles
  | wakeRole role p => Scheduling.wakeRole role p
  | runObservers role p ids => Scheduling.runObservers role p ids
  | wakeSignalled roles => Scheduling.wakeSignalled roles
  | runDue now ids => Scheduling.runDue now ids

/-- What a task still does after a failure. -/
def abandon : Task → Machine → Machine
  | wakeDropped _ roles, m => roles.foldl Scheduling.detach m
  | _, m => m

end Task

inductive Stage where
  /-- Signals have to be delivered. -/
  | signals
  /-- Fibers that are due have to run; the packet at hand goes first. -/
  | timers
  | due
  | done
  | failed (why : Interrupt)

structure Turn where
  pass : Pass
  index : Nat
  budget : Nat
  /-- How many words it may still run. -/
  left : Nat

structure Moment where
  machine : Machine
  turn : Option Turn := none
  tasks : List Task := []
  stage : Stage := .done

namespace Moment

def rest (m : Machine) : Moment := { machine := m }

def ofResult (tasks : List Task) (stage : Stage) : EStateM.Result Interrupt Machine Unit → Moment
  | .ok () m => ⟨m, none, tasks, stage⟩
  | .error why m => ⟨tasks.foldl (fun m task => task.abandon m) m, none, [], .failed why⟩

def wake (pass : Pass) (index : Nat) (tasks : List Task) (stage : Stage) (m : Machine) : Moment :=
  if m.panic.isSome then ⟨pass.leave (pass.enter m), none, tasks, stage⟩
  else
    match Stepping.resume index (pass.enter m) with
    | .ok true m =>
      let budget := max m.config.stepBudget 1
      ⟨m, some { pass, index, budget, left := budget }, tasks, stage⟩
    | .ok false m => ofResult tasks stage (pass.leaves (Scheduling.leave index (.ok () m)))
    | .error fault m => ofResult tasks stage (pass.leaves (Scheduling.leave index (.error fault m)))

def run (turn : Turn) (tasks : List Task) (stage : Stage) (m : Machine) : Moment :=
  match Stepping.runWord turn.index turn.budget turn.left m with
  | .ok (some left) m => ⟨m, some { turn with left }, tasks, stage⟩
  | .ok none m => ofResult tasks stage (turn.pass.leaves (Scheduling.leave turn.index (.ok () m)))
  | .error fault m =>
    ofResult tasks stage (turn.pass.leaves (Scheduling.leave turn.index (.error fault m)))

def begin (tasks : List Task) (stage : Stage) (m : Machine) : Task → Moment
  | .startMain => ofResult tasks stage (Scheduling.startMain m)
  | .autobindIfDue =>
    if m.nextAutobind ≤ m.host.now then
      ⟨{ m with nextAutobind := m.host.now + m.config.autobindInterval }, none, .autobind :: tasks, stage⟩
    else ⟨m, none, tasks, stage⟩
  | .autobind =>
    let result := Roles.autobind m.roles m.host.devices
    ⟨{ m with roles := result.roles }, none, .wakeBound result.bound :: tasks, stage⟩
  | .wakeBound [] => ⟨m, none, tasks, stage⟩
  | .wakeBound (role :: roles) => ⟨m, none, .wakeRole role {} :: .wakeBound roles :: tasks, stage⟩
  | .deliver _ [] => ⟨m, none, tasks, stage⟩
  | .deliver p (index :: indices) =>
    if m.roles[index]?.any (·.receives p) then
      ⟨{ m with cache := m.cache.update index p m.host.now }, none,
        .wakeRole index p :: .deliver p indices :: tasks, stage⟩
    else ⟨m, none, .deliver p indices :: tasks, stage⟩
  | .dropDevice device =>
    let result := Roles.unbind m.roles device
    ⟨{ m with roles := result.1 }, none, .wakeDropped device result.2 :: tasks, stage⟩
  | .wakeDropped _ [] => ⟨m, none, tasks, stage⟩
  | .wakeDropped device (role :: roles) =>
    ⟨Scheduling.detach m role, none, .wakeRole role { device } :: .wakeDropped device roles :: tasks, stage⟩
  | .wakeRole role p =>
    let waiting := m.fibers.filter (·.observed == some role)
    ⟨{ m with packet := p }, none, .runObservers role p (waiting.map (·.id)) :: tasks, stage⟩
  | .runObservers _ _ [] => ⟨m, none, tasks, stage⟩
  | .runObservers role p (id :: ids) =>
    match Scheduling.fiberIndex? m id with
    | some index =>
      if m.fibers[index]?.any (·.observed == some role) then
        wake (.observers role p) index (.runObservers role p ids :: tasks) stage m
      else ⟨m, none, .runObservers role p ids :: tasks, stage⟩
    | none => ⟨m, none, .runObservers role p ids :: tasks, stage⟩
  | .wakeSignalled [] => ⟨m, none, tasks, stage⟩
  | .wakeSignalled (role :: roles) =>
    ⟨m, none, .wakeRole role Scheduling.signalPacket :: .wakeSignalled roles :: tasks, stage⟩
  | .runDue _ [] => ⟨m, none, tasks, stage⟩
  | .runDue now (id :: ids) =>
    if m.panic.isSome then ⟨m, none, tasks, stage⟩
    else
      match Scheduling.fiberIndex? m id with
      | some index =>
        if m.fibers[index]?.any (·.isDue now) then
          wake .timer index (.runDue now ids :: tasks) stage m
        else ⟨m, none, .runDue now ids :: tasks, stage⟩
      | none => ⟨m, none, .runDue now ids :: tasks, stage⟩

/-- No task is open, and the call goes on in its stage. -/
def proceed (m : Machine) : Stage → Option Moment
  | .signals => some ⟨{ m with signals := [] }, none, [.wakeSignalled m.signals], .timers⟩
  | .timers => some ⟨{ m with packet := {} }, none, [], .due⟩
  | .due =>
    let due := m.fibers.filter (·.isDue m.host.now)
    if !due.isEmpty then some ⟨m, none, [.runDue m.host.now (due.map (·.id))], .due⟩
    else if !m.signals.isEmpty && m.panic.isNone then some ⟨m, none, [], .signals⟩
    else some ⟨m, none, [], .done⟩
  | .done => none
  | .failed _ => none

/-- The moment after this one, if the call is not over. -/
def next? (a : Moment) : Option Moment :=
  match a.turn, a.tasks with
  | some turn, tasks => some (run turn tasks a.stage a.machine)
  | none, task :: tasks => some (begin tasks a.stage a.machine task)
  | none, [] => proceed a.machine a.stage

/-- The moment that comes `n` moments later. The last one of a call stays. -/
def after (a : Moment) : Nat → Moment
  | 0 => a
  | n + 1 => (a.next?.getD a).after n

def isOver (a : Moment) : Bool := a.next?.isNone

def result (a : Moment) : EStateM.Result Interrupt Machine Unit :=
  match a.stage with
  | .failed why => .error why a.machine
  | _ => .ok () a.machine

def ComesTo (a b : Moment) : Prop := ∃ n, a.after n = b

theorem ComesTo.refl (a : Moment) : a.ComesTo a := ⟨0, rfl⟩

theorem after_add (a : Moment) (n k : Nat) : a.after (n + k) = (a.after n).after k := by
  induction n generalizing a with
  | zero => rw [Nat.zero_add]; rfl
  | succ n ih => rw [Nat.add_right_comm, after, after, ih]

theorem after_one {a b : Moment} (h : a.next? = some b) : a.after 1 = b := by rw [after, h, Option.getD_some, after]

theorem after_of_isOver {a : Moment} (hover : a.isOver = true) (n : Nat) : a.after n = a := by
  rw [isOver, Option.isNone_iff_eq_none] at hover
  induction n with
  | zero => rfl
  | succ n ih => rw [after, hover, Option.getD_none, ih]

theorem ComesTo.trans {a b c : Moment} (h : a.ComesTo b) (h' : b.ComesTo c) : a.ComesTo c := by
  obtain ⟨n, rfl⟩ := h
  obtain ⟨k, rfl⟩ := h'
  exact ⟨n + k, after_add a n k⟩

theorem ComesTo.of_next {a b c : Moment} (hnext : a.next? = some b) (h : b.ComesTo c) :
    a.ComesTo c := by
  obtain ⟨n, rfl⟩ := h
  exact ⟨n + 1, by rw [after, hnext, Option.getD_some]⟩

section

variable {tasks : List Task} {stage : Stage}

theorem comesTo_runWords (pass : Pass) (index budget left : Nat) (m : Machine) :
    ComesTo ⟨m, some { pass, index, budget, left }, tasks, stage⟩ (ofResult tasks stage (pass.leaves
        (Scheduling.leave index (Stepping.runWords index budget left m)))) := by
  induction left using Nat.strongRecOn generalizing m with
  | ind left ih =>
    refine .of_next rfl ?_
    rw [Stepping.runWords_eq, run]
    simp only [bind, EStateM.bind]
    cases hword : Stepping.runWord index budget left m with
    | error fault m' => exact .refl _
    | ok left' m' =>
      cases left' with
      | none => exact .refl _
      | some left' =>
        have hleft := Stepping.eq_succ_of_runWord hword
        exact ih left' (by omega) m'

theorem comesTo_run (pass : Pass) (index : Nat) (m : Machine) : ComesTo (wake pass index tasks stage m)
      (ofResult tasks stage (pass.leaves (Scheduling.run index (pass.enter m)))) := by
  rw [wake, Scheduling.run_eq, Pass.panic_enter]
  split
  · exact .refl _
  · simp only [Stepping.runFiber, bind, EStateM.bind]
    cases Stepping.resume index (pass.enter m) with
    | error fault m' => exact .refl _
    | ok goesOn m' =>
      cases goesOn with
      | false => exact .refl _
      | true => exact comesTo_runWords ..

end

end Moment

open Moment

namespace Task

def Runs (task : Task) : Prop :=
  ∀ (m : Machine) (tasks : List Task) (stage : Stage),
    ComesTo ⟨m, none, task :: tasks, stage⟩ (ofResult tasks stage (task.act m))

variable {tasks : List Task} {stage : Stage}

theorem Runs.andThen {task : Task} (htask : task.Runs) (habandon : ∀ m, task.abandon m = m) {a : Moment}
    {before : Scheduling Unit} {m : Machine} (h : a.ComesTo (ofResult (task :: tasks) stage (before m))) :
    a.ComesTo (ofResult tasks stage ((before >>= fun _ => task.act) m)) := by
  refine h.trans ?_
  simp only [bind, EStateM.bind]
  cases before m with
  | ok u m' => exact htask m' tasks stage
  | error why m' =>
    rw [ofResult, List.foldl_cons, habandon]
    exact .refl _

theorem runs_runObservers (role : Nat) (p : Packet) (ids : List UInt32) : (runObservers role p ids).Runs := by
  induction ids with
  | nil => exact fun _ _ _ => .of_next rfl (.refl _)
  | cons id ids ih =>
    intro m tasks stage
    refine .of_next rfl ?_
    change ComesTo _ (ofResult tasks stage ((match Scheduling.fiberIndex? m id with
      | some index => do
        if m.fibers[index]?.any (·.observed == some role) then Scheduling.runWoken role p index
        Scheduling.runObservers role p ids
      | none => Scheduling.runObservers role p ids : Scheduling Unit) m))
    rw [begin]
    cases Scheduling.fiberIndex? m id with
    | none => exact ih m tasks stage
    | some index =>
      simp only
      split
      · refine ih.andThen (fun _ => rfl) ?_
        rw [Scheduling.runWoken_eq]
        exact comesTo_run ..
      · exact ih m tasks stage

theorem runs_runDue (now : Nat) (ids : List UInt32) : (runDue now ids).Runs := by
  induction ids with
  | nil => exact fun _ _ _ => .of_next rfl (.refl _)
  | cons id ids ih =>
    intro m tasks stage
    refine .of_next rfl ?_
    change ComesTo _ (ofResult tasks stage ((if m.panic.isSome then return ()
      else match Scheduling.fiberIndex? m id with
      | some index => do
        if m.fibers[index]?.any (·.isDue now) then Scheduling.run index
        Scheduling.runDue now ids
      | none => Scheduling.runDue now ids : Scheduling Unit) m))
    rw [begin]
    split
    · exact .refl _
    · cases Scheduling.fiberIndex? m id with
      | none => exact ih m tasks stage
      | some index =>
        simp only
        split
        · refine ih.andThen (fun _ => rfl) ?_
          rw [← Pass.leaves_timer (Scheduling.run index m)]
          exact comesTo_run .timer index m
        · exact ih m tasks stage

theorem runs_wakeRole (role : Nat) (p : Packet) : (wakeRole role p).Runs :=
  fun _ _ _ => .of_next rfl (runs_runObservers _ _ _ _ _ _)

theorem runs_wakeBound (roles : List Nat) : (wakeBound roles).Runs := by
  induction roles with
  | nil => exact fun _ _ _ => .of_next rfl (.refl _)
  | cons role roles ih =>
    exact fun m tasks stage => .of_next rfl (ih.andThen (fun _ => rfl) (runs_wakeRole role {} m _ stage))

theorem runs_wakeSignalled (roles : List Nat) : (wakeSignalled roles).Runs := by
  induction roles with
  | nil => exact fun _ _ _ => .of_next rfl (.refl _)
  | cons role roles ih =>
    exact fun m tasks stage => .of_next rfl
      (ih.andThen (fun _ => rfl) (runs_wakeRole role Scheduling.signalPacket m _ stage))

theorem runs_autobind : autobind.Runs := fun _ _ _ => .of_next rfl (runs_wakeBound _ _ _ _)

theorem runs_autobindIfDue : autobindIfDue.Runs := by
  intro m tasks stage
  refine .of_next rfl ?_
  change ComesTo _ (ofResult tasks stage ((do
    if m.nextAutobind ≤ m.host.now then
      set { m with nextAutobind := m.host.now + m.config.autobindInterval }
      Scheduling.autobind : Scheduling Unit) m))
  rw [begin]
  split
  · exact runs_autobind _ tasks stage
  · exact .refl _

theorem runs_deliver (p : Packet) (indices : List Nat) : (deliver p indices).Runs := by
  induction indices with
  | nil => exact fun _ _ _ => .of_next rfl (.refl _)
  | cons index indices ih =>
    intro m tasks stage
    refine .of_next rfl ?_
    change ComesTo _ (ofResult tasks stage ((do
      if m.roles[index]?.any (·.receives p) then
        set { m with cache := m.cache.update index p m.host.now }
        Scheduling.wakeRole index p
      Scheduling.deliver p indices : Scheduling Unit) m))
    rw [begin]
    split
    · exact ih.andThen (fun _ => rfl) (runs_wakeRole index p _ _ stage)
    · exact ih m tasks stage

theorem runs_wakeDropped (device : DeviceId) (roles : List Nat) : (wakeDropped device roles).Runs := by
  induction roles with
  | nil => exact fun _ _ _ => .of_next rfl (.refl _)
  | cons role roles ih =>
    intro m tasks stage
    refine .of_next rfl ((runs_wakeRole role { device } _ _ stage).trans ?_)
    simp only [act, Scheduling.wakeDropped]
    cases Scheduling.wakeRole role { device } (Scheduling.detach m role) with
    | ok u m' => exact ih m' tasks stage
    | error why m' => exact .refl _

theorem runs_dropDevice (device : DeviceId) : (dropDevice device).Runs :=
  fun _ _ _ => .of_next rfl (runs_wakeDropped _ _ _ _ _)

theorem runs (task : Task) : task.Runs := by
  cases task with
  | startMain => exact fun _ _ _ => .of_next rfl (.refl _)
  | autobindIfDue => exact runs_autobindIfDue
  | autobind => exact runs_autobind
  | wakeBound roles => exact runs_wakeBound roles
  | deliver p indices => exact runs_deliver p indices
  | dropDevice device => exact runs_dropDevice device
  | wakeDropped device roles => exact runs_wakeDropped device roles
  | wakeRole role p => exact runs_wakeRole role p
  | runObservers role p ids => exact runs_runObservers role p ids
  | wakeSignalled roles => exact runs_wakeSignalled roles
  | runDue now ids => exact runs_runDue now ids

end Task

end BusScript
