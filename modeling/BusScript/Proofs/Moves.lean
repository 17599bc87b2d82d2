import BusScript.Proofs.Verified
import BusScript.Proofs.WordEffects

/-!
The run of a machine move by move. A call of the host is cut into passes, and a pass into what its fibers
do: go on, run a word, finish. The moves are the functions that the machine itself is made of, so what
holds after every move holds at every moment of every run. What is said later of the past is noted
down on the way.
-/

namespace BusScript

open Outcome (bind bind_iff get_iff ite_iff)

inductive HostCall where
  | start
  | tick
  | packet (p : Packet)
  | connected
  | disconnected (device : DeviceId)

def HostCall.run (fuel : Nat) : HostCall → Machine → Option Called
  | .start => Machine.start fuel
  | .tick => Machine.tick fuel
  | .packet p => Machine.processPacket fuel p
  | .connected => Machine.deviceConnected fuel
  | .disconnected device => Machine.deviceDisconnected fuel device

theorem Machine.eq_of_new {bytes : Bytes} {host : Host} {config : Config} {random : Random} {m : Machine}
    (h : Machine.new bytes host config random = .ok m) :
    ∃ image, Image.load bytes = .ok image ∧ image.verify = .ok () ∧ m = {
      image, config, host, registers := .zero, operands := {}, globals := Array.replicate image.numGlobals 0
      roles := image.roles.toList.map Role.ofClass, packet := {}, wokenBy := none, fibers := [], nextFiberId := 0
      cache := .new config.cacheCapacity, random, panic := none, nextAutobind := host.now + config.autobindInterval
      signals := [], overrun := none } := by
  simp only [Machine.new, Except.bind_ok_iff, pure, Except.pure, Except.ok.injEq] at h
  grind

def stateAfter {ε σ α : Type} : EStateM.Result ε σ α → σ
  | .ok _ s => s
  | .error _ s => s

theorem Outcome.stateAfter {ε σ α : Type} {P : σ → Prop} {r : EStateM.Result ε σ α}
    (h : Outcome (fun _ => P) (fun _ => P) r) : P (stateAfter r) := by
  cases r <;> exact h

inductive Pass where
  /-- Their time has come. -/
  | timer
  /-- A role that they observe has a packet for them. -/
  | observers (role : Nat) (p : Packet)

def Pass.enter : Pass → Machine → Machine
  | .timer, m => m
  | .observers role p, m => { m with packet := p, wokenBy := some role }

namespace Pass

variable (pass : Pass) (m : Machine)

@[simp] theorem fibers_enter : (pass.enter m).fibers = m.fibers := by cases pass <;> rfl

@[simp] theorem host_enter : (pass.enter m).host = m.host := by cases pass <;> rfl

@[simp] theorem roles_enter : (pass.enter m).roles = m.roles := by cases pass <;> rfl

@[simp] theorem panic_enter : (pass.enter m).panic = m.panic := by cases pass <;> rfl

@[simp] theorem config_enter : (pass.enter m).config = m.config := by cases pass <;> rfl

end Pass

/-- How far a call has come. -/
structure Phase where
  /-- The packet that the call takes from the bus. -/
  delivered : Option Packet := none
  /-- The roles that have lost their device and whose cached values still have to go. -/
  dropped : List Nat := []
  pass : Option Pass := none

/-- What a pass over the observers of a role may carry: the packet that the call delivers, or the news that
the role was bound, dropped or signalled. -/
def Phase.Carries (s : Phase) (p : Packet) : Prop :=
  s.delivered = some p ∨ p.code = 0 ∨ p = Scheduling.signalPacket

inductive Note where
  /-- A packet came in for a role. -/
  | heard (time role : Nat) (p : Packet)
  /-- A read of a register was answered from the cache. -/
  | cached (time role : Nat) (code : CommandCode)
  /-- A fiber began to wait for a register while another one waited for it. -/
  | doubled (role : Nat) (code : CommandCode)
  /-- A fiber that waited for a register was answered by the packet at hand. -/
  | answered (role : Nat) (code : CommandCode)
  deriving DecidableEq, Repr

namespace Machine

def hearings (m : Machine) (p : Packet) : List Note :=
  ((List.range m.roles.length).filter fun role => m.roles[role]?.any (·.receives p)).map (.heard m.host.now · p)

/-- What is noted of a word of the fiber at `index`. -/
def notes (m : Machine) (index : Nat) : EStateM.Result Fault Machine Flow → List Note
  | .ok .next _ => ((m.reads? index).map fun (role, code, _) => .cached m.host.now role code).toList
  | .ok .park _ =>
    match m.reads? index with
    | some (role, code, _) => if 0 < m.asking role code then [.doubled role code] else []
    | none => []
  | _ => []

/-- What is noted when the fiber at `index` comes up, if it goes on. -/
def answers (m : Machine) (index : Nat) : EStateM.Result Fault Machine Bool → List Note
  | .ok true _ =>
    match m.fibers[index]?.bind (·.request) with
    | some (.query role code _) => [.answered role code]
    | _ => []
  | _ => []

inductive Moves : Phase → Machine → List Note → Phase → Machine → Prop
  /-- What surrounds the fibers is cleared or marked, and fibers may go away. -/
  | tidy {s : Phase} {m : Machine} (fibers : List Fiber) (operands : Operands) (wokenBy : Option Nat)
      (signals : List Nat) (overrun : Option (Nat × Nat)) (panic : Option PanicCode) :
      fibers.Sublist m.fibers → Moves s m [] s { m with fibers, operands, wokenBy, signals, overrun, panic }
  /-- Between two calls the clock, the devices and the bus may change in any way. -/
  | host {m : Machine} (host : Host) : Moves {} m [] {} { m with host }
  | reset {m : Machine} : Moves {} m [] {} m.reset
  | startMain {s : Phase} {m : Machine} : Moves s m [] s (stateAfter (startFiber 0 [] .background m))
  | bind {m : Machine} (nextAutobind : Nat) : Moves {} m [] {} { m with
        roles := (Roles.autobind m.roles m.host.devices).roles, nextAutobind }
  | unbind {m : Machine} (device : DeviceId) : Moves {} m [] { dropped := (Roles.unbind m.roles device).2 }
        { m with roles := (Roles.unbind m.roles device).1 }
  | detach {m : Machine} {role : Nat} {rest : List Nat} :
      Moves { dropped := role :: rest } m [] { dropped := rest } (Scheduling.detach m role)
  /-- A call begins to deliver a packet. -/
  | take {m : Machine} (p : Packet) : Moves {} m (m.hearings p) { delivered := some p } m
  /-- The packet goes to the cached values of a role that receives it. -/
  | deliver {m : Machine} {p : Packet} {role : Nat} : m.roles[role]?.any (·.receives p) = true →
        Moves { delivered := some p } m [] { delivered := some p } { m with cache := m.cache.update role p m.host.now }
  | release {m : Machine} {p : Packet} : Moves { delivered := some p } m [] {} m
  | beginTimer {s : Phase} {m : Machine} :
      s.pass = none → Moves s m [] { s with pass := some .timer } { m with packet := {} }
  | beginObservers {s : Phase} {m : Machine} (role : Nat) {p : Packet} : s.pass = none → s.Carries p →
        Moves s m [] { s with pass := some (.observers role p) } { m with packet := p }
  | endPass {s : Phase} {m : Machine} : Moves s m [] { s with pass := none } m
  /-- A fiber of the pass comes up, but the program has stopped. -/
  | enter {s : Phase} {m : Machine} {pass : Pass} : s.pass = some pass → Moves s m [] s (pass.enter m)
  | resume {s : Phase} {m : Machine} {pass : Pass} (index : Nat) : s.pass = some pass →
      Moves s m (m.answers index (Stepping.resume index (pass.enter m))) s
        (stateAfter (Stepping.resume index (pass.enter m)))
  | step {s : Phase} {m : Machine} {pass : Pass} (index : Nat) : s.pass = some pass →
      Moves s m (m.notes index (Stepping.step index m)) s (stateAfter (Stepping.step index m))
  | finish {s : Phase} {m : Machine} {pass : Pass} (index : Nat) :
      s.pass = some pass → Moves s m [] s (stateAfter (Stepping.finish index m))

inductive Leads (s : Phase) (m : Machine) : List Note → Phase → Machine → Prop
  | refl : Leads s m [] s m
  | move {log notes : List Note} {s' s'' : Phase} {m' m'' : Machine} :
      Leads s m log s' m' → Moves s' m' notes s'' m'' → Leads s m (log ++ notes) s'' m''

variable {m : Machine}

theorem Leads.single {s s' : Phase} {m' : Machine} {notes : List Note}
    (h : Moves s m notes s' m') : Leads s m notes s' m' := Leads.refl.move h

theorem Leads.trans {s s' s'' : Phase} {m' m'' : Machine} {log log' : List Note}
    (h : Leads s m log s' m') (h' : Leads s' m' log' s'' m'') :
    Leads s m (log ++ log') s'' m'' := by
  induction h' with
  | refl => rwa [List.append_nil]
  | move _ hmove ih =>
    rw [← List.append_assoc]
    exact ih.move hmove

/-- Moves lead there, and what is heard on the way is on record. -/
def Goes (record : List (Nat × Packet)) (s : Phase) (m : Machine) (s' : Phase) (m' : Machine) : Prop :=
  ∃ log, Leads s m log s' m' ∧ ∀ time role p, Note.heard time role p ∈ log → (time, p) ∈ record

namespace Goes

variable {record : List (Nat × Packet)} {s s' s'' : Phase} {m m' m'' : Machine}

theorem refl : Goes record s m s m := ⟨[], .refl, fun _ _ _ h => by cases h⟩

theorem trans (h : Goes record s m s' m') (h' : Goes record s' m' s'' m'') :
    Goes record s m s'' m'' := by
  obtain ⟨log, hlog, hheard⟩ := h
  obtain ⟨log', hlog', hheard'⟩ := h'
  refine ⟨log ++ log', hlog.trans hlog', fun time role p hmem => ?_⟩
  grind

theorem mono {record' : List (Nat × Packet)} (h : Goes record s m s' m')
    (hsub : ∀ e ∈ record, e ∈ record') : Goes record' s m s' m' := by
  obtain ⟨log, hlog, hheard⟩ := h
  exact ⟨log, hlog, fun time role p hmem => hsub _ (hheard time role p hmem)⟩

theorem of_moves (h : Moves s m [] s' m') : Goes record s m s' m' :=
  ⟨[], .single h, fun _ _ _ h => by cases h⟩

end Goes

theorem heard_notMem_notes {index : Nat} {r : EStateM.Result Fault Machine Flow}
    {time role : Nat} {p : Packet} : Note.heard time role p ∉ m.notes index r := by
  unfold notes
  split
  · simp
  · split
    · split <;> simp
    · simp
  · simp

theorem heard_notMem_answers {index : Nat} {r : EStateM.Result Fault Machine Bool}
    {time role : Nat} {p : Packet} : Note.heard time role p ∉ m.answers index r := by
  unfold answers
  split
  · split <;> simp
  · simp

def GoesTo {ε α : Type} (record : List (Nat × Packet)) (s : Phase) (m : Machine) (s' : Phase)
    (r : EStateM.Result ε Machine α) : Prop :=
  Outcome (fun _ => Goes record s m s') (fun _ => Goes record s m s') r

section GoesTo

variable {ε α : Type} {record : List (Nat × Packet)} {s s' s'' : Phase} {m m' : Machine}
  {r : EStateM.Result ε Machine α}

theorem Goes.then (h : Goes record s m s' m') (hr : GoesTo record s' m' s'' r) : GoesTo record s m s'' r :=
  hr.mono (fun _ _ => h.trans) fun _ _ => h.trans

theorem GoesTo.on (h : GoesTo record s m s' r) (hend : ∀ m, Moves s' m [] s'' m) : GoesTo record s m s'' r :=
  h.mono (fun _ m' h => h.trans (.of_moves (hend m'))) fun _ m' h => h.trans (.of_moves (hend m'))

end GoesTo

/-- A computation that makes only moves of the phase `s`, however it ends. -/
structure Moving {ε α : Type} (record : List (Nat × Packet)) (s : Phase) (act : EStateM ε Machine α) : Prop where
  ends : ∀ m, GoesTo record s m s (act m)

namespace Moving

variable {ε α β : Type} {record : List (Nat × Packet)} {s : Phase}

theorem bind {x : EStateM ε Machine α} {f : α → EStateM ε Machine β} (hx : Moving record s x)
    (hf : ∀ a, Moving record s (f a)) : Moving record s (x >>= f) := by
  constructor
  intro m
  refine (hx.ends m).bind ?_ fun _ _ h => h
  intro a m' h
  exact h.then ((hf a).ends m')

theorem pure (a : α) : Moving record s (pure a : EStateM ε Machine α) := ⟨fun _ => .refl⟩

theorem throw (e : ε) : Moving record s (throw e : EStateM ε Machine α) := ⟨fun _ => .refl⟩

theorem get : Moving record s (get : EStateM ε Machine Machine) := ⟨fun _ => .refl⟩

theorem of_modify {g : Machine → Machine} (hg : ∀ m, Moves s m [] s (g m)) :
    Moving record s (modify g : EStateM ε Machine PUnit) := ⟨fun m => .of_moves (hg m)⟩

theorem within {g : Machine → Machine} {x : EStateM ε Machine α} (hpass : s.pass = none) {pass : Pass}
    (hbegin : ∀ m, Moves s m [] { s with pass := some pass } (g m))
    (hx : Moving record { s with pass := some pass } x) : Moving record s (do modify g; x) := by
  constructor
  intro m
  rw [GoesTo, bind_iff, Outcome.modify_iff]
  have hend (m' : Machine) : Moves { s with pass := some pass } m' [] s m' := by
    have hmove : Moves { s with pass := some pass } m' [] { s with pass := none } m' := .endPass
    rwa [← hpass] at hmove
  exact (Goes.of_moves (hbegin m)).then ((hx.ends (g m)).on hend)

end Moving

end Machine

open Machine

namespace Stepping

variable {record : List (Nat × Packet)} {s : Phase} {pass : Pass} {index : Nat}

theorem moving_fiber : Moving record s (fiber index) := by
  refine Moving.get.bind fun m => ?_
  cases m.fibers[index]? with
  | none => exact .throw _
  | some f => exact .pure f

theorem moving_step (hpass : s.pass = some pass) : Moving record s (step index) := by
  constructor
  intro m
  have hmove : Moves s m (m.notes index (step index m)) s (stateAfter (step index m)) :=
    .step index hpass
  have hgoes : Goes record s m s (stateAfter (step index m)) :=
    ⟨_, .single hmove, fun _ _ _ hmem => (heard_notMem_notes hmem).elim⟩
  cases hresult : step index m <;> rwa [hresult] at hgoes

theorem moving_finish (hpass : s.pass = some pass) : Moving record s (finish index) := by
  constructor
  intro m
  have hgoes : Goes record s m s (stateAfter (finish index m)) := .of_moves (.finish index hpass)
  cases hresult : finish index m <;> rwa [hresult] at hgoes

theorem moving_runWords (hpass : s.pass = some pass) (budget left : Nat) :
    Moving record s (runWords index budget left) := by
  induction left with
  | zero => exact moving_fiber.bind fun _ => .throw _
  | succ left ih =>
    refine (moving_step hpass).bind fun flow => ?_
    cases flow with
    | next => exact ih
    | park => exact .pure _
    | finish =>
      refine (moving_finish hpass).bind fun goesOn => ?_
      cases goesOn with
      | true => exact ih
      | false => exact .pure _
    | stop code => exact .throw _

theorem runFiber_goes (hpass : s.pass = some pass) (m : Machine) :
    GoesTo record s m s (runFiber index (pass.enter m)) := by
  have hresume : Goes record s m s (stateAfter (resume index (pass.enter m))) :=
    ⟨_, .single (.resume index hpass), fun _ _ _ hmem => (heard_notMem_answers hmem).elim⟩
  rw [runFiber]
  refine bind (Q := fun _ => Goes record s m s) (E := fun _ => Goes record s m s) ?_ ?_ fun _ _ h => h
  · cases hresult : resume index (pass.enter m) <;> rwa [hresult] at hresume
  · intro goesOn m' h
    cases goesOn with
    | true => exact h.then ((moving_runWords hpass _ _).ends m')
    | false => exact h

end Stepping

namespace Scheduling

variable {record : List (Nat × Packet)} {s : Phase} {pass : Pass} {index : Nat}

theorem run_goes (hpass : s.pass = some pass) (m : Machine) : GoesTo record s m s (run index (pass.enter m)) := by
  rw [run]
  split
  · exact .of_moves (.enter hpass)
  · have hrun : GoesTo record s m s (Stepping.runFiber index (pass.enter m)) := Stepping.runFiber_goes hpass m
    cases hresult : Stepping.runFiber index (pass.enter m) with
    | ok u m' =>
      rw [hresult] at hrun
      exact Goes.trans hrun (.of_moves (.tidy _ _ _ _ _ _ (.refl _)))
    | error fault m' =>
      rw [hresult] at hrun
      cases fault with
      | timeout function steps =>
        exact Goes.trans hrun (.of_moves (.tidy _ _ _ _ _ _ (List.eraseIdx_sublist ..)))
      | panic | invalid | host => exact Goes.trans hrun (.of_moves (.tidy _ _ _ _ _ _ (.refl _)))

theorem moving_runDue (hpass : s.pass = some .timer) (now : Nat) (ids : List UInt32) :
    Moving record s (runDue now ids) := by
  induction ids with
  | nil => exact .pure _
  | cons first rest ih =>
    constructor
    intro m
    rw [GoesTo, runDue, bind_iff, get_iff, ite_iff]
    refine ⟨fun _ => .refl, fun _ => ?_⟩
    cases fiberIndex? m first with
    | none => exact ih.ends m
    | some index =>
      simp only [ite_iff]
      refine ⟨fun _ => ?_, fun _ => ih.ends m⟩
      refine (run_goes hpass m).bind ?_ fun _ _ h => h
      exact fun _ m' h => h.then (ih.ends m')

theorem moving_wakeDue (hpass : s.pass = some .timer) (fuel : Nat) : Moving record s (wakeDue fuel) := by
  induction fuel with
  | zero => exact .throw _
  | succ fuel ih =>
    refine Moving.get.bind fun m => ?_
    simp only
    split
    · exact (moving_runDue hpass _ _).bind fun _ => ih
    · exact .pure _

variable {p : Packet}

theorem runWoken_goes {role : Nat} (hpass : s.pass = some (.observers role p)) (m : Machine) :
    GoesTo record s m s (runWoken role p index m) := by
  have hrun : GoesTo record s m s (run index { m with packet := p, wokenBy := some role }) := run_goes hpass m
  rw [runWoken]
  cases hresult : run index { m with packet := p, wokenBy := some role } with
  | ok | error =>
    rw [hresult] at hrun
    exact Goes.trans hrun (.of_moves (.tidy _ _ _ _ _ _ (.refl _)))

theorem moving_runObservers {role : Nat} (hpass : s.pass = some (.observers role p))
    (ids : List UInt32) : Moving record s (runObservers role p ids) := by
  induction ids with
  | nil => exact .pure _
  | cons first rest ih =>
    refine Moving.get.bind fun m => ?_
    cases fiberIndex? m first with
    | none => exact ih
    | some index =>
      simp only
      split
      · exact Moving.bind ⟨runWoken_goes hpass⟩ fun _ => ih
      · exact ih

theorem moving_wakeRole (hpass : s.pass = none) (hcarries : s.Carries p) (role : Nat) :
    Moving record s (wakeRole role p) := by
  rw [wakeRole]
  refine .within hpass (fun m => .beginObservers role hpass hcarries) (Moving.get.bind fun m => ?_)
  exact moving_runObservers rfl _

theorem moving_wakeSignalled (hpass : s.pass = none) (roles : List Nat) : Moving record s (wakeSignalled roles) := by
  induction roles with
  | nil => exact .pure _
  | cons role rest ih => exact (moving_wakeRole hpass (.inr (.inr rfl)) role).bind fun _ => ih

theorem moving_settle (hpass : s.pass = none) (fuel : Nat) : Moving record s (settle fuel) := by
  induction fuel with
  | zero => exact .throw _
  | succ fuel ih =>
    rw [settle]
    refine Moving.get.bind fun m => Moving.bind (.of_modify fun m => ?_) fun _ => ?_
    · exact .tidy _ _ _ _ _ _ (.refl _)
    refine (moving_wakeSignalled hpass _).bind fun _ => ?_
    rw [← bind_assoc]
    refine Moving.bind (.within hpass (fun m => .beginTimer hpass) (moving_wakeDue rfl fuel)) fun _ => ?_
    refine Moving.get.bind fun m => ?_
    split
    · exact ih
    · exact .pure _

theorem moving_startMain : Moving record s startMain := by
  constructor
  intro m
  have hstart : Goes record s m s (stateAfter (startFiber 0 [] .background m)) :=
    .of_moves .startMain
  rw [startMain]
  cases hresult : startFiber 0 [] .background m with
  | ok u m' =>
    rw [hresult] at hstart
    exact hstart
  | error fault m' =>
    rw [hresult] at hstart
    cases fault <;> exact Goes.trans hstart (.of_moves (.tidy _ _ _ _ _ _ (.refl _)))

theorem moving_wakeBound (roles : List Nat) : Moving record {} (wakeBound roles) := by
  induction roles with
  | nil => exact .pure _
  | cons role rest ih => exact (moving_wakeRole rfl (.inr (.inl rfl)) role).bind fun _ => ih

theorem autobind_goes (m : Machine) (nextAutobind : Nat) :
    GoesTo record {} m {} (autobind { m with nextAutobind }) := by
  rw [GoesTo, autobind, bind_iff, get_iff, bind_iff, Outcome.set_iff]
  exact (Goes.of_moves (.bind nextAutobind)).then ((moving_wakeBound _).ends _)

theorem moving_autobind : Moving record {} autobind := ⟨fun m => autobind_goes m m.nextAutobind⟩

theorem moving_autobindIfDue : Moving record {} autobindIfDue := by
  constructor
  intro m
  rw [GoesTo, autobindIfDue, bind_iff, get_iff]
  simp only [ite_iff]
  exact ⟨fun _ => autobind_goes m _, fun _ => .refl⟩

theorem moving_deliver (p : Packet) (indices : List Nat) :
    Moving record { delivered := some p } (deliver p indices) := by
  induction indices with
  | nil => exact .pure _
  | cons index rest ih =>
    constructor
    intro m
    rw [GoesTo, deliver, bind_iff, get_iff]
    simp only [ite_iff]
    refine ⟨fun hreceives => ?_, fun _ => ih.ends m⟩
    have hwake : Moving record { delivered := some p } (do wakeRole index p; deliver p rest) :=
      (moving_wakeRole rfl (.inl rfl) index).bind fun _ => ih
    exact (Goes.of_moves (.deliver hreceives)).then (hwake.ends _)

theorem foldl_detach_goes (roles : List Nat) (m : Machine) :
    Goes record { dropped := roles } m {} (roles.foldl detach m) := by
  induction roles generalizing m with
  | nil => exact .refl
  | cons role rest ih => exact (Goes.of_moves .detach).trans (ih (detach m role))

theorem wakeDropped_goes (device : DeviceId) (roles : List Nat) (m : Machine) :
    GoesTo record { dropped := roles } m {} (wakeDropped device roles m) := by
  induction roles generalizing m with
  | nil => exact .refl
  | cons role rest ih =>
    have hdetach : Goes record { dropped := role :: rest } m { dropped := rest } (detach m role) :=
      .of_moves .detach
    have hwake : Moving record { dropped := rest } (wakeRole role { device }) :=
      moving_wakeRole rfl (.inr (.inl rfl)) role
    have hwake := hwake.ends (detach m role)
    simp only [wakeDropped]
    cases hresult : wakeRole role { device } (detach m role) with
    | ok u m' =>
      rw [hresult] at hwake
      exact (hdetach.trans hwake).then (ih m')
    | error e m' =>
      rw [hresult] at hwake
      exact (hdetach.trans hwake).trans (foldl_detach_goes rest m')

theorem moving_dropDevice (device : DeviceId) : Moving record {} (dropDevice device) := by
  constructor
  intro m
  rw [GoesTo, dropDevice, bind_iff, get_iff]
  exact (Goes.of_moves (.unbind device)).then (wakeDropped_goes device _ _)

end Scheduling

namespace Machine

variable {record : List (Nat × Packet)} {m m' : Machine} {outcome : Except MachineError Unit}

theorem call_goes {act : Scheduling Unit} (hact : GoesTo record {} m {} (act m))
    (hcall : m.call act = some (outcome, m')) : Goes record {} m {} m' := by
  rw [call] at hcall
  split at hcall
  · cases hcall
    exact .refl
  · cases hresult : act m with
    | ok u m1 =>
      rw [hresult] at hcall hact
      cases hcall
      exact Goes.trans hact (.of_moves (.tidy _ _ _ _ _ _ (.refl _)))
    | error e m1 =>
      rw [hresult] at hcall hact
      cases e with
      | outOfFuel => cases hcall
      | failed e =>
        cases hcall
        exact Goes.trans hact (.of_moves (.tidy _ _ _ _ _ _ (.refl _)))

end Machine

/-- The packets that a call delivers at the time `now`. -/
def HostCall.delivers (now : Nat) : HostCall → List (Nat × Packet)
  | .packet p => [(now, p)]
  | _ => []

theorem HostCall.run_goes {m m' : Machine} {outcome : Except MachineError Unit} {fuel : Nat}
    {call : HostCall} (hcall : call.run fuel m = some (outcome, m')) :
    Goes (call.delivers m.host.now) {} m {} m' := by
  have hsettle {record : List (Nat × Packet)} {s : Phase} (hpass : s.pass = none) :
      Moving record s (Scheduling.settle fuel) := Scheduling.moving_settle hpass fuel
  cases call with
  | start => exact call_goes ((Scheduling.moving_startMain.bind fun _ => hsettle rfl).ends m) hcall
  | tick => exact call_goes ((Scheduling.moving_autobindIfDue.bind fun _ => hsettle rfl).ends m) hcall
  | packet p =>
    refine call_goes ?_ hcall
    rw [GoesTo, bind_iff, get_iff]
    have htake : Goes [(m.host.now, p)] {} m { delivered := some p } m := by
      refine ⟨m.hearings p, .single (.take p), fun time role q hmem => ?_⟩
      obtain ⟨index, _, hnote⟩ := List.mem_map.1 hmem
      simp_all
    have hdeliver : Moving [(m.host.now, p)] { delivered := some p }
        (Scheduling.deliver p (List.range m.roles.length)) := Scheduling.moving_deliver p _
    refine (htake.then ((hdeliver.ends m).on fun _ => .release)).bind ?_ fun _ _ h => h
    exact fun _ m1 h => h.then ((hsettle rfl).ends m1)
  | connected => exact call_goes ((Scheduling.moving_autobind.bind fun _ => hsettle rfl).ends m) hcall
  | disconnected device =>
    exact call_goes (((Scheduling.moving_dropDevice device).bind fun _ => hsettle rfl).ends m) hcall

/-- The machines that calls lead to, with the packets that were delivered and when. Between two calls the
host may change in any way, and it may reset the machine. -/
inductive Machine.Recorded (m : Machine) : List (Nat × Packet) → Machine → Prop
  | refl : m.Recorded [] m
  | host {record : List (Nat × Packet)} {m' : Machine} (host : Host) :
      m.Recorded record m' → m.Recorded record { m' with host }
  | reset {record : List (Nat × Packet)} {m' : Machine} : m.Recorded record m' → m.Recorded record m'.reset
  | call {record : List (Nat × Packet)} {m' m'' : Machine} {outcome : Except MachineError Unit}
      (fuel : Nat) (call : HostCall) :
      m.Recorded record m' → call.run fuel m' = some (outcome, m'') →
        m.Recorded (record ++ call.delivers m'.host.now) m''

theorem Machine.Recorded.goes {m m' : Machine} {record : List (Nat × Packet)}
    (h : m.Recorded record m') : Goes record {} m {} m' := by
  induction h with
  | refl => exact .refl
  | host host _ ih => exact ih.trans (.of_moves (.host host))
  | reset _ ih => exact ih.trans (.of_moves .reset)
  | call fuel call _ hcall ih =>
    refine (ih.mono ?_).trans ((HostCall.run_goes hcall).mono ?_)
    · exact fun _ hmem => List.mem_append_left _ hmem
    · exact fun _ hmem => List.mem_append_right _ hmem

end BusScript
