import BusScript.Proofs.Reports
import BusScript.Runner

namespace BusScript

open Outcome (bind_iff get_iff ite_iff modify_iff pure_iff)

structure Machine.Vacant (m : Machine) : Prop where
  fibers : m.fibers = []
  signals : m.signals = []
  panic : m.panic = none
  overrun : m.overrun = none

namespace Scheduling

structure Idling (act : Scheduling Unit) : Prop where
  ends : ∀ m : Machine, m.Vacant → Outcome (fun _ m' => m'.Vacant ∧ m'.host.now = m.host.now) (fun _ _ => False) (act m)

theorem Idling.bind {act : Scheduling Unit} {next : Unit → Scheduling Unit} (hact : Idling act)
    (hnext : Idling (next ())) : Idling (act >>= next) := by
  constructor
  intro m hidle
  refine (hact.ends m hidle).bind (fun _ m' h => ?_) fun _ _ => id
  exact (hnext.ends m' h.1).imp fun _ _ h' => ⟨h'.1, h'.2.trans h.2⟩

theorem idling_pure : Idling (pure ()) := ⟨fun _ hidle => ⟨hidle, rfl⟩⟩

theorem idling_wakeRole (role : Nat) (p : Packet) : Idling (wakeRole role p) := by
  constructor
  intro m hidle
  rw [wakeRole, bind_iff, modify_iff, bind_iff, get_iff]
  simp only [hidle.fibers, List.filter_nil, List.map_nil, runObservers, pure_iff]
  exact ⟨⟨rfl, hidle.signals, hidle.panic, hidle.overrun⟩, trivial⟩

theorem idling_wakeBound (roles : List Nat) : Idling (wakeBound roles) := by
  induction roles with
  | nil => exact idling_pure
  | cons role rest ih => exact (idling_wakeRole role {}).bind ih

theorem idling_autobind : Idling autobind := by
  constructor
  intro m hidle
  rw [autobind, bind_iff, get_iff, bind_iff, Outcome.set_iff]
  exact (idling_wakeBound _).ends _ ⟨hidle.fibers, hidle.signals, hidle.panic, hidle.overrun⟩

theorem idling_autobindIfDue : Idling autobindIfDue := by
  constructor
  intro m hidle
  rw [autobindIfDue, bind_iff, get_iff]
  simp only [ite_iff]
  refine ⟨fun _ => ?_, fun _ => ⟨hidle, rfl⟩⟩
  exact idling_autobind.ends _ ⟨hidle.fibers, hidle.signals, hidle.panic, hidle.overrun⟩

theorem idling_deliver (p : Packet) (indices : List Nat) : Idling (deliver p indices) := by
  induction indices with
  | nil => exact idling_pure
  | cons index rest ih =>
    constructor
    intro m hidle
    rw [deliver, bind_iff, get_iff]
    simp only [ite_iff]
    refine ⟨fun _ => ?_, fun _ => ih.ends m hidle⟩
    exact ((idling_wakeRole index p).bind ih).ends _ ⟨hidle.fibers, hidle.signals, hidle.panic, hidle.overrun⟩

theorem idling_wakeDropped (device : DeviceId) (roles : List Nat) : Idling (wakeDropped device roles) := by
  induction roles with
  | nil => exact idling_pure
  | cons role rest ih =>
    constructor
    intro m hidle
    have hwoken := (idling_wakeRole role { device }).ends (detach m role)
      ⟨hidle.fibers, hidle.signals, hidle.panic, hidle.overrun⟩
    simp only [wakeDropped]
    cases hresult : wakeRole role { device } (detach m role) with
    | ok u m' =>
      rw [hresult] at hwoken
      exact (ih.ends m' hwoken.1).imp fun _ _ h => ⟨h.1, h.2.trans hwoken.2⟩
    | error e m' => rw [hresult] at hwoken; exact hwoken.elim

theorem idling_dropDevice (device : DeviceId) : Idling (dropDevice device) := by
  constructor
  intro m hidle
  rw [dropDevice, bind_iff, get_iff]
  exact (idling_wakeDropped device _).ends _ ⟨hidle.fibers, hidle.signals, hidle.panic, hidle.overrun⟩

theorem settle_idle {m : Machine} (hidle : m.Vacant) (fuel : Nat) :
    Outcome (fun _ m' => m'.Vacant ∧ m'.host.now = m.host.now) (fun why _ => why = .outOfFuel ∧ fuel < 2)
      (settle fuel m) := by
  cases fuel with
  | zero => exact ⟨rfl, by decide⟩
  | succ fuel =>
    rw [settle, bind_iff, get_iff, bind_iff, modify_iff, hidle.signals, wakeSignalled,
      bind_iff, pure_iff, bind_iff, modify_iff, bind_iff]
    cases fuel with
    | zero => exact ⟨rfl, by decide⟩
    | succ fuel =>
      rw [wakeDue, bind_iff, get_iff]
      simp only [hidle.fibers, List.filter_nil, List.isEmpty_nil, Bool.not_true, Bool.false_eq_true, if_false,
        pure_iff, bind_iff, get_iff, Bool.false_and]
      exact ⟨⟨rfl, rfl, hidle.panic, hidle.overrun⟩, trivial⟩

end Scheduling

open Scheduling

theorem Machine.Vacant.call {m : Machine} (hidle : m.Vacant) {act : Scheduling Unit} (hact : Idling act) (fuel : Nat) :
    fuel < 2 ∧ m.call (do act; settle fuel) = none ∨
      ∃ m', m.call (do act; settle fuel) = some (.ok (), m') ∧ m'.Vacant ∧ m'.host.now = m.host.now := by
  have hends : Outcome (fun _ m' => m'.Vacant ∧ m'.host.now = m.host.now) (fun why _ => why = .outOfFuel ∧ fuel < 2)
      ((do act; settle fuel : Scheduling Unit) m) := by
    refine (hact.ends m hidle).bind (fun _ m' h => ?_) fun _ _ => False.elim
    exact (settle_idle h.1 fuel).imp fun _ _ h' => ⟨h'.1, h'.2.trans h.2⟩
  rw [Machine.call, hidle.panic, Option.isSome_none, if_neg (by decide)]
  cases hresult : (do act; settle fuel : Scheduling Unit) m with
  | ok u m' =>
    rw [hresult] at hends
    refine .inr ⟨{ m' with overrun := none }, ?_, ⟨hends.1.fibers, hends.1.signals, hends.1.panic, rfl⟩, hends.2⟩
    rw [Machine.conclude, hends.1.overrun]
  | error why m' =>
    rw [hresult] at hends
    obtain ⟨rfl, hfuel⟩ := hends
    exact .inl ⟨hfuel, rfl⟩

theorem HostCall.run_idle {m : Machine} (hidle : m.Vacant) {call : HostCall} (hcall : call ≠ .start) (fuel : Nat) :
    fuel < 2 ∧ call.run fuel m = none ∨
      ∃ m', call.run fuel m = some (.ok (), m') ∧ m'.Vacant ∧ m'.host.now = m.host.now := by
  cases call with
  | start => exact (hcall rfl).elim
  | tick => exact hidle.call idling_autobindIfDue fuel
  | packet p =>
    have hdeliver : Idling (do deliver p (List.range (← get).roles.length)) :=
      ⟨fun m hidle => (idling_deliver p _).ends m hidle⟩
    exact hidle.call hdeliver fuel
  | connected => exact hidle.call idling_autobind fuel
  | disconnected device => exact hidle.call (idling_dropDevice device) fuel

inductive RunnerCall where
  | poll
  | packet (p : Packet)
  | connected
  | disconnected (device : DeviceId)
  deriving DecidableEq

namespace RunnerCall

def run (fuel : Nat) : RunnerCall → Runner → Option Polled
  | poll => Runner.poll fuel
  | packet p => Runner.processPacket fuel p
  | connected => Runner.deviceConnected fuel
  | disconnected device => Runner.deviceDisconnected fuel device

def entry : RunnerCall → HostCall
  | poll => .tick
  | packet p => .packet p
  | connected => .connected
  | disconnected device => .disconnected device

theorem entry_ne_start (call : RunnerCall) : call.entry ≠ .start := by cases call <;> nofun

def entries (fuel : Nat) (call : RunnerCall) (r : Runner) : List HostCall :=
  match r.state, call with
  | .error, _ => []
  | .initializing, .poll =>
    match r.machine.tick fuel with
    | some (.ok (), m) => if m.host.now < r.startAt then [.tick] else [.tick, .start]
    | _ => [.tick]
  | _, call => [call.entry]

end RunnerCall

/-- Does what it is called for, one thing after the other, up to a failure. -/
def Machine.obey (fuel : Nat) : List HostCall → Machine → Option Called
  | [], m => some (.ok (), m)
  | call :: rest, m =>
    match call.run fuel m with
    | some (.ok (), m') => m'.obey fuel rest
    | ended => ended

def startsMain (entries : List HostCall) : Bool := entries.any fun | .start => true | _ => false

theorem Machine.obey_singleton (fuel : Nat) (call : HostCall) (m : Machine) : m.obey fuel [call] = call.run fuel m := by
  rw [obey]
  split
  · next heq => exact heq.symm
  · rfl

theorem RunnerCall.run_eq (fuel : Nat) (call : RunnerCall) (r : Runner) :
    call.run fuel r = (r.machine.obey fuel (call.entries fuel r)).map
      { r with state := if startsMain (call.entries fuel r) then .running else r.state }.settle := by
  have hentry : startsMain [call.entry] = false := by cases call <;> rfl
  -- All but the poll that waits for the start hand one call on.
  have hplain (hentries : call.entries fuel r = [call.entry])
      (hrun : call.run fuel r = (call.entry.run fuel r.machine).map r.settle) :
      call.run fuel r = (r.machine.obey fuel (call.entries fuel r)).map
        { r with state := if startsMain (call.entries fuel r) then .running else r.state }.settle := by
    rw [hentries, hentry, Machine.obey_singleton]
    exact hrun
  obtain ⟨machine, config, state, startAt⟩ := r
  cases state with
  | error => cases call <;> rfl
  | running => exact hplain (by cases call <;> rfl) (by cases call <;> rfl)
  | initializing =>
    cases call with
    | packet | connected | disconnected => exact hplain rfl rfl
    | poll =>
      obtain ⟨called, htick⟩ : ∃ called, HostCall.tick.run fuel machine = called := ⟨_, rfl⟩
      have htick' : machine.tick fuel = called := htick
      match called with
      | none => exact hplain (by simp only [entries, htick', entry]) (by
          simp only [run, Runner.poll, entry, htick, htick', Option.map_none])
      | some (.error e, m) => exact hplain (by simp only [entries, htick', entry]) (by
          simp only [run, Runner.poll, entry, htick, htick', Option.map_some])
      | some (.ok (), m) =>
        by_cases hearly : m.host.now < startAt
        · refine hplain (by simp only [entries, htick', if_pos hearly, entry]) ?_
          simp only [run, Runner.poll, entry, htick, htick', Option.map_some, if_pos hearly, Runner.settle]
        · have hentries : poll.entries fuel ⟨machine, config, .initializing, startAt⟩ = [.tick, .start] := by
            simp only [entries, htick', if_neg hearly]
          have hobey : machine.obey fuel [.tick, .start] = m.start fuel := by
            rw [Machine.obey, htick]
            exact Machine.obey_singleton ..
          rw [hentries, hobey]
          simp only [run, Runner.poll, htick', if_neg hearly]
          rfl

def stops : Except MachineError (Option Nat) → Bool
  | .ok (some _) | .error (.host _) => true
  | _ => false

/-- The host is told of a panic: by its code, or by the failure of the host that it comes from. -/
def TellsOf (code : PanicCode) (outcome : Except MachineError (Option Nat)) : Prop :=
  outcome = .ok (some (Runner.reported code)) ∨ code = .internal ∧ ∃ message, outcome = .error (.host message)

theorem TellsOf.stops {code : PanicCode} {outcome : Except MachineError (Option Nat)} (h : TellsOf code outcome) :
    stops outcome = true := by
  rcases h with rfl | ⟨-, message, rfl⟩ <;> rfl

namespace Runner

variable {r r' : Runner} {m m' : Machine} {fuel : Nat} {call : RunnerCall}

variable {done : Except MachineError Unit}

theorem settle_of_reported_eq_none (h : reported? done = none) :
    stops (r.settle (done, m')).1 = false ∧ (r.settle (done, m')).2 = { r with machine := m' } := by
  cases done with
  | ok u => exact ⟨rfl, rfl⟩
  | error e => cases e <;> first | exact ⟨rfl, rfl⟩ | cases h

/-- Whether the program begins anew after a panic. -/
def revives (r : Runner) (code : PanicCode) : Prop := code = .restart ∨ r.config.autoRestart = true

instance (r : Runner) (code : PanicCode) : Decidable (r.revives code) := inferInstanceAs (Decidable (_ ∨ _))

theorem settle_of_reported_eq_some {code : PanicCode}
    (h : reported? done = some code) : TellsOf code (r.settle (done, m')).1 ∧ (r.settle (done, m')).2 =
        if r.revives code then { r with machine := m' }.restart else { r with machine := m', state := .error } := by
  cases done with
  | ok u => cases h
  | error e =>
    cases e with
    | image | timeout => cases h
    | host message =>
      cases h
      refine ⟨.inr ⟨rfl, message, rfl⟩, ?_⟩
      simp only [settle, revives, reduceCtorEq, false_or]
    | panicked code =>
      cases h
      cases code with
      | restart => exact ⟨.inl rfl, rfl⟩
      | internal | user =>
        refine ⟨.inl rfl, ?_⟩
        simp only [settle, revives, reduceCtorEq, false_or]

structure Fit (r : Runner) : Prop where
  stopped : r.state = .error ↔ r.machine.panic ≠ none
  waiting : r.state = .initializing → r.machine.Vacant

/-- Whether the call finds that the time of the main function has come. -/
def IsDue (r : Runner) (call : RunnerCall) : Prop := call = .poll ∧ r.startAt ≤ r.machine.host.now

/-- What a call can do: nothing, wait for the start, or have the program run. -/
inductive Visited (r : Runner) (fuel : Nat) (call : RunnerCall) : List HostCall → Polled → Prop
  | dead : r.state = .error → Visited r fuel call [] (.ok none, r)
  | waits {m' : Machine} : r.state = .initializing → ¬ r.IsDue call → r.machine.panic = none → m'.Vacant →
      r.machine.obey fuel [call.entry] = some (.ok (), m') →
        Visited r fuel call [call.entry] (.ok none, { r with machine := m' })
  | goes {entries : List HostCall} {done : Except MachineError Unit} {m' : Machine} :
      r.state = .running ∧ entries = [call.entry] ∨ r.state = .initializing ∧ r.IsDue call ∧ entries = [.tick, .start] →
      r.machine.panic = none → r.machine.obey fuel entries = some (done, m') → m'.panic = reported? done →
        Visited r fuel call entries ({ r with state := .running }.settle (done, m'))

theorem run_of_error (hstate : r.state = .error) : call.run fuel r = some (.ok none, r) := by
  cases call <;> simp only [RunnerCall.run, poll, processPacket, deviceConnected, deviceDisconnected, Runner.call, hstate,
    if_true]

theorem entries_of_waiting (hfit : r.Fit) (hstate : r.state = .initializing) (hdue : ¬ r.IsDue call) :
    call.entries fuel r = [call.entry] := by
  cases call with
  | poll =>
    simp only [RunnerCall.entries, hstate]
    rcases HostCall.run_idle (hfit.waiting hstate) (nofun : HostCall.tick ≠ .start) fuel with ⟨-, hnone⟩ | ⟨m', htick, -, hnow⟩
    · rw [show r.machine.tick fuel = none from hnone]
      rfl
    · have hearly : m'.host.now < r.startAt := by
        rw [hnow]
        exact Nat.lt_of_not_le fun hle => hdue ⟨rfl, hle⟩
      rw [show r.machine.tick fuel = some (.ok (), m') from htick]
      exact if_pos hearly
  | packet | connected | disconnected => simp only [RunnerCall.entries, hstate]

/-- A poll for which it is time starts the main function, for what comes before that does not fail. -/
theorem entries_of_due (hfit : r.Fit) (hstate : r.state = .initializing) (hdue : r.IsDue call) (fuel : Nat) :
    fuel < 2 ∧ call.run fuel r = none ∨ call.entries fuel r = [.tick, .start] ∧
      ∃ m', r.machine.tick fuel = some (.ok (), m') ∧ m'.Vacant := by
  obtain ⟨rfl, hdue⟩ := hdue
  rcases HostCall.run_idle (hfit.waiting hstate) (nofun : HostCall.tick ≠ .start) fuel with
    ⟨hfuel, htick⟩ | ⟨m', htick, hidle, hnow⟩
  · have htick' : r.machine.tick fuel = none := htick
    exact .inl ⟨hfuel, by simp only [RunnerCall.run, poll, hstate, htick']⟩
  · have htick' : r.machine.tick fuel = some (.ok (), m') := htick
    have hdue' : ¬ m'.host.now < r.startAt := by
      rw [hnow]
      exact Nat.not_lt.2 hdue
    exact .inr ⟨by simp only [RunnerCall.entries, hstate, htick', if_neg hdue'], m', htick', hidle⟩

theorem visited_of_run {polled : Polled} (hfit : r.Fit) (hrun : call.run fuel r = some polled) :
    r.Visited fuel call (call.entries fuel r) polled := by
  have hpanic (hstate : r.state ≠ .error) : r.machine.panic = none :=
    Classical.byContradiction fun hsome => hstate (hfit.stopped.2 hsome)
  cases hstate : r.state with
  | error =>
    rw [run_of_error hstate] at hrun
    cases hrun
    have hentries : call.entries fuel r = [] := by simp only [RunnerCall.entries, hstate]
    rw [hentries]
    exact .dead hstate
  | running =>
    have hentries : call.entries fuel r = [call.entry] := by cases call <;> simp only [RunnerCall.entries, hstate]
    have hnone := hpanic (by rw [hstate]; nofun)
    have hstays : startsMain [call.entry] = false := by cases call <;> rfl
    rw [RunnerCall.run_eq, hentries, hstays] at hrun
    obtain ⟨⟨done, m'⟩, hobey, rfl⟩ := Option.map_eq_some_iff.1 hrun
    rw [hentries]
    have hreport := (HostCall.report_of_run hnone (Machine.obey_singleton .. ▸ hobey)).1
    have hgoes : r.Visited fuel call [call.entry] ({ r with state := .running }.settle (done, m')) :=
      .goes (.inl ⟨hstate, rfl⟩) hnone hobey hreport
    rw [← hstate] at hgoes
    exact hgoes
  | initializing =>
    have hnone := hpanic (by rw [hstate]; nofun)
    by_cases hdue : r.IsDue call
    · rcases entries_of_due hfit hstate hdue fuel with ⟨-, hnever⟩ | ⟨hentries, m, htick, hidle⟩
      · rw [hnever] at hrun
        cases hrun
      have hobey : r.machine.obey fuel [.tick, .start] = m.start fuel := by
        rw [Machine.obey, show HostCall.tick.run fuel r.machine = _ from htick]
        exact Machine.obey_singleton ..
      rw [RunnerCall.run_eq, hentries] at hrun
      obtain ⟨⟨done, m'⟩, hdone, rfl⟩ := Option.map_eq_some_iff.1 hrun
      rw [hentries]
      have hstart : HostCall.start.run fuel m = some (done, m') := hobey.symm.trans hdone
      have hreport := (HostCall.report_of_run hidle.panic hstart).1
      exact .goes (.inr ⟨hstate, hdue, rfl⟩) hnone hdone hreport
    · have hentries : call.entries fuel r = [call.entry] := entries_of_waiting hfit hstate hdue
      rcases HostCall.run_idle (hfit.waiting hstate) call.entry_ne_start fuel with ⟨-, hentry⟩ | ⟨m', hentry, hidle, -⟩
      · rw [RunnerCall.run_eq, hentries, Machine.obey_singleton, hentry] at hrun
        cases hrun
      · have hstays : startsMain [call.entry] = false := by cases call <;> rfl
        have hobey := (Machine.obey_singleton ..).trans hentry
        rw [RunnerCall.run_eq, hentries, hobey, hstays] at hrun
        cases hrun
        rw [hentries]
        exact .waits hstate hdue hnone hidle hobey

/-- How a call ends that leaves the machine as `m'` and starts the main function or not. -/
structure Ends (r : Runner) (starts : Bool) (m' : Machine) (outcome : Except MachineError (Option Nat)) (r' : Runner) :
    Prop where
  /-- The call that latches a panic tells of it, and no other does. -/
  stops_iff : stops outcome = true ↔ r.machine.panic = none ∧ m'.panic ≠ none
  tells : ∀ code, r.machine.panic = none → m'.panic = some code → TellsOf code outcome
  goesOn : stops outcome = false → r' = { r with machine := m', state := if starts then .running else r.state }
  /-- The program begins anew. -/
  restarts : ∀ code, r.machine.panic = none → m'.panic = some code → r.revives code →
    r'.state = .initializing ∧ r'.machine.panic = none ∧ (∀ role ∈ r'.machine.roles, role.binding = none) ∧
      r'.startAt = r'.machine.host.now + r'.config.startDelay ∧ r'.config = r.config
  dies : ∀ code, r.machine.panic = none → m'.panic = some code → ¬ r.revives code →
    r' = { r with machine := m', state := .error }

theorem ends_of_stays (hpanic : m'.panic = r.machine.panic) {starts : Bool}
    {outcome : Except MachineError (Option Nat)} (hstops : stops outcome = false) :
    r.Ends starts m' outcome { r with machine := m', state := if starts then .running else r.state } := by
  have hnever {code : PanicCode} (hnone : r.machine.panic = none) (hsome : m'.panic = some code) : False := by
    rw [hpanic, hnone] at hsome
    cases hsome
  refine ⟨?_, fun code hnone hsome => (hnever hnone hsome).elim, fun _ => rfl,
    fun code hnone hsome => (hnever hnone hsome).elim, fun code hnone hsome => (hnever hnone hsome).elim⟩
  simp_all

theorem ends_of_settle (hnone : r.machine.panic = none)
    (hpanic : m'.panic = reported? done) {starts : Bool} (hstarts : r.state = .running ∨ starts = true) :
    r.Ends starts m' ({ r with state := .running }.settle (done, m')).1
      ({ r with state := .running }.settle (done, m')).2 := by
  cases hreport : reported? done with
  | none =>
    obtain ⟨hstops, hafter⟩ : stops ({ r with state := .running }.settle (done, m')).1 = false ∧ _ :=
      settle_of_reported_eq_none hreport
    have hstate : (.running : RunnerState) = if starts then .running else r.state := by grind
    have hends : r.Ends starts m' _ _ := ends_of_stays ((hpanic.trans hreport).trans hnone.symm) hstops
    grind
  | some code =>
    obtain ⟨htells, hafter⟩ : TellsOf code ({ r with state := .running }.settle (done, m')).1 ∧ _ :=
      settle_of_reported_eq_some hreport
    have hsome : m'.panic = some code := hpanic.trans hreport
    have heq {code' : PanicCode} (hcode : m'.panic = some code') : code' = code :=
      Option.some.inj (hcode.symm.trans hsome)
    refine ⟨⟨fun _ => ⟨hnone, by rw [hsome]; nofun⟩, fun _ => htells.stops⟩, ?_, ?_, ?_, ?_⟩
    · simp_all
    · intro hgoes
      rw [htells.stops] at hgoes
      cases hgoes
    · intro code' _ hcode hrevives
      rw [heq hcode] at hrevives
      rw [hafter.trans (if_pos hrevives)]
      refine ⟨rfl, rfl, fun role hmem => ?_, rfl, rfl⟩
      obtain ⟨_, -, rfl⟩ := List.mem_map.1 hmem
      rfl
    · intro code' _ hcode hrevives
      rw [heq hcode] at hrevives
      exact hafter.trans (if_neg hrevives)

variable {entries : List HostCall} {outcome : Except MachineError (Option Nat)}

theorem Visited.ends (h : r.Visited fuel call entries (outcome, r')) :
    ∃ done m', r.machine.obey fuel entries = some (done, m') ∧ r.Ends (startsMain entries) m' outcome r' := by
  have hplain : startsMain [call.entry] = false := by cases call <;> rfl
  generalize hpolled : (outcome, r') = polled at h
  cases h with
  | dead hstate =>
    cases hpolled
    exact ⟨.ok (), r.machine, rfl, ends_of_stays rfl rfl⟩
  | @waits m' hstate hdue hnone hidle hobey =>
    cases hpolled
    rw [hplain]
    exact ⟨.ok (), m', hobey, ends_of_stays (hidle.panic.trans hnone.symm) rfl⟩
  | @goes _ done m' hentries hnone hobey hpanic =>
    refine ⟨done, m', hobey, ?_⟩
    have hends : r.Ends (startsMain entries) m' ({ r with state := .running }.settle (done, m')).1
        ({ r with state := .running }.settle (done, m')).2 := by
      refine ends_of_settle hnone hpanic ?_
      rcases hentries with ⟨hstate, -⟩ | ⟨-, -, rfl⟩
      · exact .inl hstate
      · exact .inr rfl
    rw [← hpolled] at hends
    exact hends

theorem Visited.startsMain_iff {polled : Polled} (h : r.Visited fuel call entries polled) :
    startsMain entries = true ↔ r.state = .initializing ∧ r.IsDue call := by
  have hplain : startsMain [call.entry] = false := by cases call <;> rfl
  cases h with
  | dead hstate =>
    rw [hstate]
    exact ⟨fun h => (Bool.false_ne_true h).elim, fun h => RunnerState.noConfusion h.1⟩
  | waits _ hdue => simp_all
  | goes hentries =>
    rcases hentries with ⟨hstate, rfl⟩ | ⟨hstate, hdue, rfl⟩
    · simp_all
    · exact ⟨fun _ => ⟨hstate, hdue⟩, fun _ => rfl⟩

theorem Visited.runs_of_stops (h : r.Visited fuel call entries (outcome, r')) (hstops : stops outcome = true) :
    r.state = .running ∨ r.state = .initializing ∧ startsMain entries = true := by
  generalize hpolled : (outcome, r') = polled at h
  cases h with
  | dead | waits => cases hpolled; cases hstops
  | goes hentries =>
    rcases hentries with ⟨hstate, -⟩ | ⟨hstate, -, rfl⟩
    · exact .inl hstate
    · exact .inr ⟨hstate, rfl⟩

theorem idle_reset (m : Machine) : m.reset.Vacant := ⟨rfl, rfl, rfl, rfl⟩

theorem Visited.fit (hfit : r.Fit) (h : r.Visited fuel call entries (outcome, r')) : r'.Fit := by
  generalize hpolled : (outcome, r') = polled at h
  cases h with
  | dead => cases hpolled; exact hfit
  | waits hstate _ _ hidle =>
    cases hpolled
    exact ⟨⟨fun h => (nomatch hstate.symm.trans h), fun h => absurd hidle.panic h⟩, fun _ => hidle⟩
  | @goes _ done m' _ _ _ hpanic =>
    have hafter : r' = ({ r with state := .running }.settle (done, m')).2 := congrArg Prod.snd hpolled
    cases hreport : reported? done with
    | none =>
      rw [hafter, (settle_of_reported_eq_none hreport).2]
      exact ⟨⟨nofun, fun h => absurd (hpanic.trans hreport) h⟩, nofun⟩
    | some code =>
      rw [hafter, (settle_of_reported_eq_some hreport).2]
      split
      · exact ⟨⟨nofun, fun h => absurd rfl h⟩, fun _ => idle_reset m'⟩
      · exact ⟨⟨fun _ => by rw [hpanic, hreport]; nofun, fun _ => rfl⟩, nofun⟩

structure Visit where
  before : Runner
  fuel : Nat
  call : RunnerCall
  outcome : Except MachineError (Option Nat)
  after : Runner

def Visit.starts (v : Visit) : Bool := startsMain (v.call.entries v.fuel v.before)

def Visit.restarts (v : Visit) : Bool := stops v.outcome && v.after.state == .initializing

/-- The runners that calls lead to, with the calls. Between two calls the host may change in any way. -/
inductive Lives (r : Runner) : List Visit → Runner → Prop
  | refl : r.Lives [] r
  | host {visits : List Visit} {r' : Runner} (host : Host) :
      r.Lives visits r' → r.Lives visits { r' with machine := { r'.machine with host } }
  | call {visits : List Visit} {r' r'' : Runner} {outcome : Except MachineError (Option Nat)} (fuel : Nat)
      (call : RunnerCall) : r.Lives visits r' → call.run fuel r' = some (outcome, r'') →
        r.Lives (visits ++ [⟨r', fuel, call, outcome, r''⟩]) r''

variable {visits : List Visit}

theorem Lives.fit (hfit : r.Fit) (h : r.Lives visits r') : r'.Fit := by
  induction h with
  | refl => exact hfit
  | host host _ ih => exact ⟨ih.stopped, fun hstate => ⟨(ih.waiting hstate).fibers, (ih.waiting hstate).signals,
      (ih.waiting hstate).panic, (ih.waiting hstate).overrun⟩⟩
  | call fuel call _ hrun ih => exact (visited_of_run ih hrun).fit ih

/-- How often the main function has started, given how often the program has begun anew. -/
theorem Lives.count_starts (hfit : r.Fit) (hstate : r.state = .initializing) (h : r.Lives visits r') :
    visits.countP Visit.starts = visits.countP Visit.restarts + if r'.state = .initializing then 0 else 1 := by
  induction h with
  | refl => rw [hstate]; rfl
  | host host _ ih => exact ih
  | @call visits r1 r2 outcome fuel call hlives hrun ih =>
    have hvisited := visited_of_run (hlives.fit hfit) hrun
    have hfit2 := hvisited.fit (hlives.fit hfit)
    obtain ⟨done, m', -, hends⟩ := hvisited.ends
    rw [List.countP_append, List.countP_append, List.countP_singleton, List.countP_singleton, ih, Visit.starts,
      Visit.restarts]
    dsimp only
    cases hstops : stops outcome with
    | false =>
      have hafter := hends.goesOn hstops
      have hstate : r2.state = if startsMain (call.entries fuel r1) then .running else r1.state := by rw [hafter]
      rw [hstate, Bool.false_and]
      cases hstarts : startsMain (call.entries fuel r1) with
      | false => rfl
      | true => rw [(hvisited.startsMain_iff.1 hstarts).1]; rfl
    | true =>
      obtain ⟨hnone, hsome⟩ := hends.stops_iff.1 hstops
      obtain ⟨code, hcode⟩ := Option.ne_none_iff_exists'.1 hsome
      have hruns : (if r1.state = .initializing then 0 else 1) +
          (if startsMain (call.entries fuel r1) then 1 else 0) = 1 := by
        rcases hvisited.runs_of_stops hstops with hrunning | ⟨hwaiting, hstarts⟩
        · cases hstarts : startsMain (call.entries fuel r1) with
          | false => rw [hrunning]; rfl
          | true => cases hrunning.symm.trans (hvisited.startsMain_iff.1 hstarts).1
        · rw [hwaiting, hstarts]
          rfl
      rw [Nat.add_assoc, hruns, Bool.true_and, Nat.add_assoc]
      by_cases hrevives : r1.revives code
      · rw [(hends.restarts code hnone hcode hrevives).1]
        rfl
      · rw [hends.dies code hnone hcode hrevives]
        rfl

variable {bytes : Bytes} {host : Host} {config : Config} {random : Random} {runnerConfig : RunnerConfig}

theorem fit_new (hnew : Machine.new bytes host config random = .ok m) : (Runner.new m runnerConfig).Fit := by
  obtain ⟨image, -, -, rfl⟩ := Machine.eq_of_new hnew
  exact ⟨⟨nofun, fun h => absurd rfl h⟩, fun _ => ⟨rfl, rfl, rfl, rfl⟩⟩

/-- The life of a runner, whatever the calls and the clock. It is in error if and only if a panic is latched, and then
calls do nothing. While it waits for the start, there are no fibers and calls go well; the first poll at the time of the
start or later starts the main function, after a tick that does not fail, and no other call does. So the main function
has started once for the first time, and once for every time that the program has begun anew, except for the last while
that is still ahead. -/
theorem runners_start_once_and_report_every_stop (hnew : Machine.new bytes host config random = .ok m)
    (hlives : (Runner.new m runnerConfig).Lives visits r) :
    (r.state = .error ↔ r.machine.panic ≠ none) ∧
    (r.state = .initializing → r.machine.fibers = []) ∧
    visits.countP Visit.starts = visits.countP Visit.restarts + (if r.state = .initializing then 0 else 1) ∧
    (r.state = .error → ∀ (call : RunnerCall) (fuel : Nat), call.run fuel r = some (.ok none, r)) ∧
    (r.state = .initializing → ∀ (call : RunnerCall) (fuel : Nat), 2 ≤ fuel →
      (r.IsDue call → call.entries fuel r = [.tick, .start] ∧ ∃ m', r.machine.tick fuel = some (.ok (), m')) ∧
      (¬ r.IsDue call → ∃ m', call.run fuel r = some (.ok none, { r with machine := m' }))) ∧
    ∀ (call : RunnerCall) (fuel : Nat) (outcome : Except MachineError (Option Nat)) (r' : Runner),
      call.run fuel r = some (outcome, r') →
      (startsMain (call.entries fuel r) = true ↔ r.state = .initializing ∧ r.IsDue call) ∧
      ∃ done m', r.machine.obey fuel (call.entries fuel r) = some (done, m') ∧
        r.Ends (startsMain (call.entries fuel r)) m' outcome r' := by
  have hfit := hlives.fit (fit_new hnew)
  refine ⟨hfit.stopped, fun hstate => (hfit.waiting hstate).fibers, hlives.count_starts (fit_new hnew) rfl,
    fun hstate call fuel => run_of_error hstate, fun hstate call fuel hfuel => ⟨fun hdue => ?_, fun hdue => ?_⟩,
    fun call fuel outcome r' hrun => ?_⟩
  · rcases entries_of_due hfit hstate hdue fuel with ⟨hlt, -⟩ | ⟨hentries, m', htick, -⟩
    · exact absurd hlt (Nat.not_lt.2 hfuel)
    · exact ⟨hentries, m', htick⟩
  · have hplain : startsMain [call.entry] = false := by cases call <;> rfl
    rcases HostCall.run_idle (hfit.waiting hstate) call.entry_ne_start fuel with ⟨hlt, -⟩ | ⟨m', hentry, -, -⟩
    · exact absurd hlt (Nat.not_lt.2 hfuel)
    · rw [RunnerCall.run_eq, entries_of_waiting hfit hstate hdue, Machine.obey_singleton, hentry, hplain]
      exact ⟨m', rfl⟩
  · have hvisited := visited_of_run hfit hrun
    exact ⟨hvisited.startsMain_iff, hvisited.ends⟩

/-- A main function panics with code 7. The poll that starts it says so, and the program will start again. -/
theorem runners_start_once_and_report_every_stop_seven : ∃ m r r', Machine.new (ImageTables.ofMain
        [0x70c5, 0x8040, 0x9041, 0xb708, 0xb000, 0xb000]).image {} {} (.ofSeed 1) = .ok m ∧
      (Runner.new m { autoRestart := true }).Lives [] r ∧ r.state = .initializing ∧ r.IsDue .poll ∧
      RunnerCall.poll.run 2 r = some (.ok (some 7), r') ∧ r'.state = .initializing ∧ r'.startAt = 2200 := by
  have hpoll : (Machine.new (ImageTables.ofMain
        [0x70c5, 0x8040, 0x9041, 0xb708, 0xb000, 0xb000]).image {} {} (.ofSeed 1)).toOption.any (fun m =>
        let r := { Runner.new m { autoRestart := true } with machine := { m with host := { now := 1100 } } }
        startsMain (RunnerCall.poll.entries 2 r) &&
          (RunnerCall.poll.run 2 r).any fun polled => decide (polled.1.toOption = some (some 7) ∧
            polled.2.state = .initializing ∧ polled.2.startAt = 2200)) = true := by decide +kernel
  cases hnew : Machine.new (ImageTables.ofMain
        [0x70c5, 0x8040, 0x9041, 0xb708, 0xb000, 0xb000]).image {} {} (.ofSeed 1) with
  | error e =>
    rw [hnew] at hpoll
    cases hpoll
  | ok m =>
    rw [hnew] at hpoll
    obtain ⟨hstarts, hany⟩ := Bool.and_eq_true_iff.1 hpoll
    obtain ⟨⟨outcome, r'⟩, hrun, hcheck⟩ := (Option.any_eq_true ..).1 hany
    obtain ⟨houtcome, hstate, hstartAt⟩ := of_decide_eq_true hcheck
    have hlives : (Runner.new m { autoRestart := true }).Lives []
        { Runner.new m { autoRestart := true } with machine := { m with host := { now := 1100 } } } := .host _ .refl
    obtain ⟨-, -, -, -, -, hcalls⟩ := runners_start_once_and_report_every_stop hnew hlives
    have hdue := ((hcalls .poll 2 outcome r' hrun).1.1 hstarts).2
    cases outcome with
    | error e => cases houtcome
    | ok code =>
      cases houtcome
      exact ⟨m, _, r', rfl, hlives, rfl, hdue, hrun, hstate, hstartAt⟩

end Runner

end BusScript
