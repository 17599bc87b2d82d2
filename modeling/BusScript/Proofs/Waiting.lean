import BusScript.Proofs.CachedReports
import BusScript.Proofs.Collections
import BusScript.Proofs.Stances

/-!
Fibers that wait for the bus. A fiber with a request observes the role of the request. While the role is bound, the
fiber has a time at which it goes on; a command that can be sent is due. While the role is not bound, it waits to be
woken. Where this does not hold yet, because the binding has just changed, a task is still open that wakes the fiber.
-/

namespace BusScript

def Task.Calls (role : Nat) (id : UInt32) : Task → Prop
  | wakeBound roles => role ∈ roles
  | wakeDropped _ roles => role ∈ roles
  | wakeRole r _ => r = role
  | runObservers r _ ids => r = role ∧ id ∈ ids
  | _ => False

def Task.AnyCalls (role : Nat) (id : UInt32) (tasks : List Task) : Prop := ∃ task ∈ tasks, task.Calls role id

/-- How a fiber waits for what it wants of a role with the binding `binding`. -/
def Stance.WaitsFor (now : Nat) (request : Request) (st : Stance) : Option Binding → Prop
  | none => st.wakeAt = none ∨ st.isDue now = true
  | some _ => ∃ time, st.wakeAt = some time ∧ ∀ role code payload, request = .send role code payload → time ≤ now

/-- A fiber with a request waits for its role, or is going to be woken. -/
structure Stance.Attended (roles : List Role) (now : Nat) (tasks : List Task) (st : Stance)
    (request : Request) : Prop where
  observed : st.observed = some request.role
  role : ∃ r, roles[request.role]? = some r ∧
    (st.WaitsFor now request r.binding ∨ Task.AnyCalls request.role st.id tasks)

def Moment.Attentive (a : Moment) : Prop :=
  ∀ st ∈ a.machine.stances, ∀ request, st.request = some request →
    st.Attended a.machine.roles a.machine.host.now a.tasks request

namespace Moment

open Stepping

variable {a b : Moment} {pass : Pass} {index : Nat} {tasks : List Task}

variable {id : UInt32} {tasks' : List Task} {request : Request}

theorem anyCalls_tail {role : Nat} {task : Task} (h : Task.AnyCalls role id (task :: tasks))
    (hnot : ¬ task.Calls role id) : Task.AnyCalls role id tasks := by
  obtain ⟨task', hmem, hcalls⟩ := h
  rcases List.mem_cons.1 hmem with rfl | hmem
  · exact (hnot hcalls).elim
  · exact ⟨task', hmem, hcalls⟩

theorem anyCalls_cons {role : Nat} (task : Task) (h : Task.AnyCalls role id tasks) :
    Task.AnyCalls role id (task :: tasks) := by
  obtain ⟨task', hmem, hcalls⟩ := h
  exact ⟨task', List.mem_cons_of_mem _ hmem, hcalls⟩

theorem anyCalls_head {role : Nat} {task : Task} (h : task.Calls role id) :
    Task.AnyCalls role id (task :: tasks) := ⟨task, List.mem_cons_self, h⟩

theorem anyCalls_replace {role : Nat} {task task' : Task}
    (h : Task.AnyCalls role id (task :: tasks)) (hreplace : task.Calls role id → task'.Calls role id) :
    Task.AnyCalls role id (task' :: tasks) := by
  obtain ⟨task'', hmem, hcalls⟩ := h
  rcases List.mem_cons.1 hmem with rfl | hmem
  · exact anyCalls_head (hreplace hcalls)
  · exact ⟨task'', List.mem_cons_of_mem _ hmem, hcalls⟩

theorem Wakes.anyCalls (h : a.Wakes pass index tasks) {role : Nat}
    (hother : Scheduling.fiberIndex? a.machine id ≠ some index) (hcalls : Task.AnyCalls role id a.tasks) :
    Task.AnyCalls role id tasks := by
  cases h with
  | due hturn htasks hindex hfiber hdue =>
    rw [htasks] at hcalls
    exact anyCalls_replace hcalls False.elim
  | observer hturn htasks hindex hfiber hobserved =>
    rw [htasks] at hcalls
    refine anyCalls_replace hcalls fun hcalls => ⟨hcalls.1, ?_⟩
    rcases List.mem_cons.1 hcalls.2 with rfl | hmem
    · exact (hother hindex).elim
    · exact hmem

theorem Plans.anyCalls {m m' : Machine} {stage stage' : Stage}
    (h : Plans m tasks stage m' tasks' stage') {role : Nat} {f : Fiber}
    (hindex : Scheduling.fiberIndex? m id = some index) (hfiber : m.fibers[index]? = some f)
    (hobserved : f.observed = some role) (hid : f.id = id) (hcalls : Task.AnyCalls role id tasks) :
    Task.AnyCalls role id tasks' := by
  cases h with
  | bindNow | bind | drop | passBy | skipDue => exact anyCalls_replace hcalls False.elim
  | bindLater | deliverEnd | signalledEnd | dueEnd => exact anyCalls_tail hcalls False.elim
  | bound | dropped =>
    obtain ⟨task, hmem, hcalls⟩ := hcalls
    rcases List.mem_cons.1 hmem with rfl | hmem
    · rcases List.mem_cons.1 hcalls with rfl | hrest
      · exact anyCalls_head rfl
      · exact anyCalls_cons _ (anyCalls_head hrest)
    · exact anyCalls_cons _ (anyCalls_cons _ ⟨task, hmem, hcalls⟩)
  | boundEnd | droppedEnd => exact anyCalls_tail hcalls List.not_mem_nil
  | deliver | signalled => exact anyCalls_cons _ (anyCalls_replace hcalls False.elim)
  | wakeRole =>
    refine anyCalls_replace hcalls ?_
    rintro rfl
    refine ⟨rfl, List.mem_map.2 ⟨f, List.mem_filter.2 ⟨List.mem_of_getElem? hfiber, ?_⟩, hid⟩⟩
    rw [hobserved, beq_self_eq_true]
  | skipObserver hskip =>
    refine anyCalls_replace hcalls fun hcalls => ⟨hcalls.1, ?_⟩
    rcases List.mem_cons.1 hcalls.2 with rfl | hmem
    · obtain ⟨rfl, -⟩ := hcalls
      exact (hskip index f hindex hfiber hobserved).elim
    · exact hmem
  | observersEnd => exact anyCalls_tail hcalls fun h => List.not_mem_nil h.2
  | _ => obtain ⟨_, hmem, -⟩ := hcalls; cases hmem

theorem Plans.role {m m' : Machine} {tasks' : List Task} {stage stage' : Stage}
    (h : Plans m tasks stage m' tasks' stage') {role : Nat} {r : Role} (hrole : m.roles[role]? = some r)
    (id : UInt32) :
    ∃ r', m'.roles[role]? = some r' ∧ (r'.binding = r.binding ∨ Task.AnyCalls role id tasks') := by
  cases h with
  | bind =>
    rcases Roles.autobind_cases m.host.devices hrole with hkept | ⟨hmem, -, b, -, hbound⟩
    · exact ⟨r, hkept, .inl rfl⟩
    · exact ⟨_, hbound, .inr (anyCalls_head hmem)⟩
  | drop =>
    rcases Roles.unbind_getElem? hrole with ⟨⟨hmem, -⟩, hdropped⟩ | hkept
    · exact ⟨_, hdropped, .inr (anyCalls_head hmem)⟩
    · exact ⟨r, hkept, .inl rfl⟩
  | _ => exact ⟨r, hrole, .inl rfl⟩

theorem attended_mono {roles : List Role} {now : Nat} {st : Stance} (h : st.Attended roles now tasks request)
    (hcalls : Task.AnyCalls request.role st.id tasks → Task.AnyCalls request.role st.id tasks') :
    st.Attended roles now tasks' request := by
  obtain ⟨r, hrole, hwaits⟩ := h.role
  exact ⟨h.observed, r, hrole, hwaits.imp_right hcalls⟩

theorem attended_of_acts {roles : List Role} {now : Nat} {flow : Flow} {s s' : List Stance}
    (hacts : Acts now roles index s flow s')
    (hrequest : ∀ st, s[index]? = some st → st.request = none)
    (hs : ∀ st ∈ s, ∀ request, st.request = some request → st.Attended roles now tasks request) :
    ∀ st ∈ s', ∀ request, st.request = some request → st.Attended roles now tasks request := by
  -- the fiber that runs had no request
  have hmodify {g : Stance → Stance} (hg : ∀ st, st.request = none → ∀ request, (g st).request = some request →
        (g st).Attended roles now tasks request) :
      ∀ st ∈ s.modify index g, ∀ request, st.request = some request →
        st.Attended roles now tasks request := by
    intro st hmem
    rcases mem_modify hmem with ⟨j, -, hst⟩ | ⟨st, hst, rfl⟩
    · exact hs st (List.mem_of_getElem? hst)
    · exact hg st (hrequest st hst)
  cases hacts with
  | keeps hflow => exact hs
  | starts id =>
    intro st hmem
    rcases List.mem_append.1 hmem with hmem | hmem
    · exact hs st hmem
    · rw [List.mem_singleton.1 hmem]
      rintro request ⟨⟩
  | observes | sleeps => grind
  | @requests request r hrole =>
    refine hmodify fun st hnone request' hsome => ?_
    cases hsome
    refine ⟨rfl, r, hrole, .inl ?_⟩
    cases r.binding with
    | none => exact .inr (decide_eq_true (Nat.le_refl now))
    | some b => exact ⟨now, rfl, fun _ _ _ _ => Nat.le_refl now⟩

theorem attended_of_holds {roles : List Role} {now : Nat} {s s' : List Stance} (hholds : Holds now roles index s s')
    (hs : ∀ st ∈ s, ∀ request, st.request = some request → st.Attended roles now tasks request)
    (hothers : ∀ j st, j ≠ index → s[j]? = some st → ∀ request, st.request = some request →
      st.Attended roles now tasks' request) :
    ∀ st ∈ s', ∀ request, st.request = some request → st.Attended roles now tasks' request := by
  cases hholds with
  | @unbound st request r hst hrequest hrole hbinding =>
    intro st' hmem
    rcases mem_modify hmem with ⟨j, hj, hst'⟩ | ⟨_, hst', rfl⟩
    · exact hothers j st' hj hst'
    · rw [hst, Option.some.injEq] at hst'
      subst hst'
      intro request' hsome
      rw [hrequest, Option.some.injEq] at hsome
      subst hsome
      refine ⟨(hs st (List.mem_of_getElem? hst) request hrequest).observed, r, hrole, .inl ?_⟩
      rw [hbinding]
      exact .inl rfl
  | @asks st role resend later code r b hst hrequest hrole hbinding =>
    intro st' hmem
    rcases mem_modify hmem with ⟨j, hj, hst'⟩ | ⟨_, hst', rfl⟩
    · exact hothers j st' hj hst'
    · rw [hst, Option.some.injEq] at hst'
      subst hst'
      rintro request' ⟨⟩
      refine ⟨(hs st (List.mem_of_getElem? hst) _ hrequest).observed, r, hrole, .inl ?_⟩
      rw [hbinding]
      exact ⟨now + resend, rfl, by rintro _ _ _ ⟨⟩⟩
  | @waits st role resend time code r b hst hrequest hrole hbinding hwakeAt htime =>
    intro st' hmem
    obtain ⟨j, hj⟩ := List.mem_iff_getElem?.1 hmem
    by_cases hindex : j = index
    · subst hindex
      rw [hst, Option.some.injEq] at hj
      subst hj
      intro request' hsome
      rw [hrequest, Option.some.injEq] at hsome
      subst hsome
      refine ⟨(hs st hmem _ hrequest).observed, r, hrole, .inl ?_⟩
      rw [hbinding]
      exact ⟨time, hwakeAt, by rintro _ _ _ ⟨⟩⟩
    · exact hothers j st' hindex hj

theorem Orderly.fiberIndex? (ha : a.Orderly) {j : Nat} {st : Stance}
    (hst : a.machine.stances[j]? = some st) (hrequest : st.request = some request) :
    Scheduling.fiberIndex? a.machine st.id = some j := by
  have hrun : st ≠ .fresh st.id a.machine.host.now := by
    intro hfresh
    rw [hfresh] at hrequest
    cases hrequest
  obtain ⟨st', hst', hfind⟩ := ha.apart.found hst hrun
  rw [hst, Option.some.injEq] at hst'
  rw [Machine.fiberIndex?_eq, hst']
  exact hfind

theorem Attentive.others (hattends : a.Attentive) (ha : a.Orderly) (hwakes : a.Wakes pass index tasks)
    {j : Nat} {st : Stance} (hj : j ≠ index) (hst : a.machine.stances[j]? = some st)
    (hrequest : st.request = some request) : st.Attended a.machine.roles a.machine.host.now tasks request := by
  refine attended_mono (hattends st (List.mem_of_getElem? hst) request hrequest) (hwakes.anyCalls ?_)
  rw [ha.fiberIndex? hst hrequest]
  exact fun h => hj (Option.some.inj h)

theorem Steps.attentive (h : a.Steps b) (ha : a.Orderly) (hattends : a.Attentive) : b.HasFailed ∨ b.Attentive := by
  -- what a word does to the stances
  have hacts {turn : Turn} {flow : Flow} {m' : Machine} (hturn : a.turn = some turn)
      (hdid : Did turn.index a.machine flow m') :
      ∀ st ∈ m'.stances, ∀ request, st.request = some request →
        st.Attended a.machine.roles a.machine.host.now a.tasks request :=
    attended_of_acts hdid.acts (fun st => ha.request turn st hturn) hattends
  cases h with
  | word hturn hleft hdid =>
    right
    rw [Attentive, hdid.stays.roles, hdid.stays.now]
    exact hacts hturn hdid
  | @parks turn left m' hturn hleft hdid =>
    right
    rw [Attentive, Machine.stances_leave, Pass.roles_leave, Pass.host_leave]
    change ∀ st ∈ m'.stances, ∀ request, st.request = some request → st.Attended m'.roles m'.host.now a.tasks request
    rw [hdid.stays.roles, hdid.stays.now]
    exact hacts hturn hdid
  | @repeats turn left m' m'' hturn hleft hdid hfinished =>
    right
    have hstays := hdid.stays.trans hfinished.stays
    have hstances : m''.stances = m'.stances := hfinished.stances
    rw [Attentive, hstances, hstays.roles, hstays.now]
    exact hacts hturn hdid
  | @ends turn left m' m'' hturn hleft hdid hfinished =>
    right
    have hstays := hdid.stays.trans hfinished.stays
    have hstances : m''.stances = m'.stances.eraseIdx turn.index := hfinished.stances
    rw [Attentive, Machine.stances_leave, Pass.roles_leave, Pass.host_leave]
    change ∀ st ∈ m''.stances, ∀ request, st.request = some request → st.Attended m''.roles m''.host.now a.tasks request
    rw [hstances, hstays.roles, hstays.now]
    exact fun st hmem => hacts hturn hdid st (List.mem_of_mem_eraseIdx hmem)
  | @overruns turn f hturn hleft =>
    right
    rw [Attentive, Machine.stances_leave, Pass.roles_leave, Pass.host_leave]
    intro st hmem
    refine hattends st (List.mem_of_mem_eraseIdx (i := turn.index) ?_)
    rwa [Machine.stances, List.eraseIdx_map]
  | @goesOn pass index budget tasks m' hwakes hresumed hbudget =>
    right
    have hstances := hresumed.stances
    have hroles : m'.roles = a.machine.roles := by rw [hresumed.stays.roles, Pass.roles_enter]
    have hnow : m'.host.now = a.machine.host.now := by rw [hresumed.stays.now, Pass.host_enter]
    rw [Machine.stances_enter] at hstances
    rw [Attentive, hstances, hroles, hnow]
    intro st hmem request hrequest
    rcases mem_modify hmem with ⟨j, hj, hst⟩ | ⟨_, _, rfl⟩
    · exact hattends.others ha hwakes hj hst hrequest
    · cases hrequest
  | @stays pass index tasks m' hwakes hresumed =>
    right
    have hholds := hresumed.holds
    have hroles : m'.roles = a.machine.roles := by rw [hresumed.stays.roles, Pass.roles_enter]
    have hnow : m'.host.now = a.machine.host.now := by rw [hresumed.stays.now, Pass.host_enter]
    rw [Machine.stances_enter, Pass.host_enter, Pass.roles_enter] at hholds
    rw [Attentive, Machine.stances_leave, Pass.roles_leave, Pass.host_leave]
    change ∀ st ∈ m'.stances, ∀ request, st.request = some request → st.Attended m'.roles m'.host.now tasks request
    rw [hroles, hnow]
    exact attended_of_holds hholds hattends fun j st hj hst request => hattends.others ha hwakes hj hst
  | @starts tasks m' hturn htasks hstarted =>
    right
    rw [Attentive, hstarted.stays.roles, hstarted.stays.now]
    have hold : ∀ st ∈ a.machine.stances, ∀ request, st.request = some request →
        st.Attended a.machine.roles a.machine.host.now tasks request := by
      intro st hmem request hrequest
      refine attended_mono (hattends st hmem request hrequest) fun hcalls => ?_
      rw [htasks] at hcalls
      exact anyCalls_tail hcalls False.elim
    rcases hstarted.stances with hstances | ⟨id, hstances⟩
    · rwa [hstances]
    · rw [hstances]
      intro st hmem
      rcases List.mem_append.1 hmem with hmem | hmem
      · exact hold st hmem
      · rw [List.mem_singleton.1 hmem]
        rintro request ⟨⟩
  | @plans m' tasks stage hturn hplans =>
    right
    have hstances : m'.stances = a.machine.stances := congrArg (List.map Fiber.stance) hplans.fibers
    rw [Attentive, hstances, hplans.host]
    intro st hmem request hrequest
    obtain ⟨j, hst⟩ := List.mem_iff_getElem?.1 hmem
    obtain ⟨hobserved, r, hrole, hwaits⟩ := hattends st hmem request hrequest
    obtain ⟨f, hfiber, rfl⟩ : ∃ f, a.machine.fibers[j]? = some f ∧ f.stance = st := by
      rwa [Machine.stances, List.getElem?_map, Option.map_eq_some_iff] at hst
    obtain ⟨r', hrole', hbinding⟩ := hplans.role hrole f.id
    refine ⟨hobserved, r', hrole', ?_⟩
    rcases hbinding with hbinding | hcalls
    · rw [hbinding]
      exact hwaits.imp_right (hplans.anyCalls (ha.fiberIndex? hst hrequest) hfiber hobserved rfl)
    · exact .inr hcalls
  | fails => exact .inl ⟨_, rfl⟩

end Moment

structure Stance.Parked (roles : List Role) (st : Stance) (request : Request) : Prop where
  observed : st.observed = some request.role
  role : ∃ r, roles[request.role]? = some r ∧ (r.binding = none ∧ st.wakeAt = none ∨
      r.binding ≠ none ∧ ∃ role code resend time, request = .query role code resend ∧ st.wakeAt = some time)

/-- A machine between calls, whose program has not stopped. -/
structure Machine.Idle (m : Machine) : Prop where
  ids : (m.stances.map (·.id)).Nodup
  requests : ∀ st ∈ m.stances, ∀ request, st.request = some request → st.Parked m.roles request
  tidy : m.Tidy
  signals : m.signals = []

theorem Machine.Idle.update {m : Machine} (h : m.Idle) (host : Host) (overrun : Option (Nat × Nat)) :
    Idle { m with host, overrun } :=
  ⟨h.ids, h.requests, ⟨h.tidy.operands, h.tidy.wokenBy⟩, h.signals⟩

theorem Machine.idle_reset (m : Machine) : m.reset.Idle :=
  ⟨List.nodup_nil, (by rintro _ ⟨⟩), ⟨rfl, rfl⟩, rfl⟩

namespace HostCall

open Moment

variable {m m' : Machine} {call : HostCall} {fuel : Nat} {outcome : Except MachineError Unit}

theorem orderly_first (h : m.Idle) (call : HostCall) : (call.first m).Orderly := by
  refine .of_idle rfl (Stance.apart_of_nodup h.ids) (fun now ids hmem => ?_) h.tidy
  cases call <;> cases List.mem_singleton.1 hmem

theorem attentive_first (h : m.Idle) (call : HostCall) : (call.first m).Attentive := by
  intro st hmem request hrequest
  obtain ⟨hobserved, r, hrole, hwaits⟩ := h.requests st hmem request hrequest
  refine ⟨hobserved, r, hrole, .inl ?_⟩
  rcases hwaits with ⟨hbinding, hwakeAt⟩ | ⟨hbinding, role, code, resend, time, rfl, hwakeAt⟩
  · rw [hbinding]
    exact .inl hwakeAt
  · cases hb : r.binding with
    | none => exact (hbinding hb).elim
    | some b => exact ⟨time, hwakeAt, by rintro _ _ _ ⟨⟩⟩

theorem parked_of_attended {roles : List Role} {now : Nat} {st : Stance} {request : Request}
    (h : st.Attended roles now [] request) (hdue : st.isDue now = false) : st.Parked roles request := by
  obtain ⟨hobserved, r, hrole, hwaits | ⟨_, hmem, -⟩⟩ := h
  · refine ⟨hobserved, r, hrole, ?_⟩
    cases hb : r.binding with
    | none =>
      rw [hb] at hwaits
      refine .inl ⟨rfl, hwaits.resolve_right ?_⟩
      rw [hdue]
      exact Bool.false_ne_true
    | some b =>
      rw [hb] at hwaits
      obtain ⟨time, hwakeAt, hsend⟩ := hwaits
      refine .inr ⟨Option.some_ne_none b, ?_⟩
      rw [Stance.isDue, hwakeAt, Option.any_some, decide_eq_false_iff_not] at hdue
      cases request with
      | send role code payload => exact (hdue (hsend role code payload rfl)).elim
      | query role code resend => exact ⟨role, code, resend, time, rfl, hwakeAt⟩
  · cases hmem

theorem after_first (h : m.Idle) (hpanic : m.panic = none) (call : HostCall) (n : Nat) :
    ((call.first m).after n).HasFailed ∨ ((call.first m).after n).Orderly ∧ ((call.first m).after n).Attentive := by
  refine after_of_steps (P := fun a => a.Orderly ∧ a.Attentive) ?_ (.live hpanic rfl)
    ⟨orderly_first h call, attentive_first h call⟩ n
  intro a b _ ha hsteps
  rcases hsteps.orderly ha.1 with hfailed | horderly
  · exact .inl hfailed
  · exact (hsteps.attentive ha.1 ha.2).imp_right fun hattentive => ⟨horderly, hattentive⟩

theorem panic_of_run (hrun : call.run fuel m = some (outcome, m')) (hpanic' : m'.panic = none) : m.panic = none := by
  cases hpanic : m.panic with
  | none => rfl
  | some code =>
    rw [run_of_panic (by rw [hpanic]; rfl)] at hrun
    cases hrun
    rw [hpanic] at hpanic'
    cases hpanic'

theorem idle_of_settled (horderly : (Moment.rest m).Orderly) (hattentive : (Moment.rest m).Attentive)
    (hsettled : m.Settled) : m.Idle := by
  have hdue : ∀ st ∈ m.stances, st.isDue m.host.now = false := by
    intro st hmem
    obtain ⟨f, hf, rfl⟩ := List.mem_map.1 hmem
    exact hsettled.due f hf
  refine ⟨horderly.apart.nodup hdue, fun st hmem request hrequest => ?_, horderly.tidy rfl, hsettled.signals⟩
  exact parked_of_attended (hattentive st hmem request hrequest) (hdue st hmem)

/-- A call that returns without a panic leaves the machine idle, with nothing left to do at this time. -/
theorem idle_of_run (h : m.panic = none → m.Idle) (hrun : call.run fuel m = some (outcome, m'))
    (hpanic' : m'.panic = none) : m'.Idle ∧ m'.Settled := by
  have hpanic := panic_of_run hrun hpanic'
  obtain ⟨m'', ⟨n, hlast⟩, -, hsettled, rfl⟩ := rest_of_run hpanic hrun hpanic'
  have hinvariant := after_first (h hpanic) hpanic call n
  rw [hlast] at hinvariant
  rcases hinvariant with ⟨_, hfailed⟩ | ⟨horderly, hattentive⟩
  · cases hfailed
  · exact ⟨(idle_of_settled horderly hattentive hsettled).update .., hsettled.due, hsettled.signals⟩

end HostCall

namespace Machine

variable {bytes : Bytes} {host : Host} {config : Config} {random : Random} {m m' : Machine}
  {record : List (Nat × Packet)}

theorem idle_of_new (h : Machine.new bytes host config random = .ok m) : m.Idle := by
  obtain ⟨image, -, -, rfl⟩ := Machine.eq_of_new h
  exact ⟨List.nodup_nil, (by rintro _ ⟨⟩), ⟨rfl, rfl⟩, rfl⟩

theorem Recorded.idle (hnew : Machine.new bytes host config random = .ok m)
    (h : m.Recorded record m') : m'.panic = none → m'.Idle := by
  induction h with
  | refl => exact fun _ => idle_of_new hnew
  | host host _ ih => exact fun hpanic => (ih hpanic).update ..
  | reset => exact fun _ => idle_reset _
  | call fuel call _ hrun ih => exact fun hpanic => (HostCall.idle_of_run ih hrun hpanic).1

/-- No fiber is stranded on the bus. After every call that leaves the program running, a fiber with a request
observes the role of the request and has no time to go on exactly while that role is not bound. While it is bound, the
request is for the value of a register, and is repeated later. -/
theorem no_fiber_is_stranded (hnew : Machine.new bytes host config random = .ok m)
    (hrecorded : m.Recorded record m') {call : HostCall} {fuel : Nat} {outcome : Except MachineError Unit}
    {m'' : Machine} (hrun : call.run fuel m' = some (outcome, m'')) (hpanic : m''.panic = none) :
    ∀ f ∈ m''.fibers, ∀ request, f.request = some request → f.observed = some request.role ∧
      ∃ r, m''.roles[request.role]? = some r ∧ (f.wakeAt = none ↔ r.binding = none) ∧
        (r.binding ≠ none → ∃ role code resend time, request = .query role code resend ∧
          f.wakeAt = some time ∧ m''.host.now < time) := by
  intro f hf request hrequest
  obtain ⟨hidle, hsettled⟩ := HostCall.idle_of_run (hrecorded.idle hnew) hrun hpanic
  obtain ⟨hobserved, r, hrole, hwaits⟩ :=
    hidle.requests f.stance (List.mem_map.2 ⟨f, hf, rfl⟩) request hrequest
  refine ⟨hobserved, r, hrole, ?_⟩
  rcases hwaits with ⟨hbinding, hwakeAt⟩ | ⟨hbinding, role, code, resend, time, rfl, hwakeAt⟩
  · exact ⟨⟨fun _ => hbinding, fun _ => hwakeAt⟩, fun hbound => (hbound hbinding).elim⟩
  · change f.wakeAt = some time at hwakeAt
    have hdue := hsettled.due f hf
    rw [Fiber.isDue, hwakeAt, Option.any_some, decide_eq_false_iff_not, Nat.not_le] at hdue
    rw [hwakeAt]
    refine ⟨⟨(by rintro ⟨⟩), fun h => (hbinding h).elim⟩, fun _ => ?_⟩
    exact ⟨role, code, resend, time, rfl, rfl, hdue⟩

end Machine

/-- A script begins to read a register before there is a servo. When the servo appears, the register is asked for at
once, and again 20 milliseconds later. -/
theorem no_fiber_is_stranded_reading :
    ∃ compiled m m' outcome m'' f, compile Catalog.builtin {} rereadingScript = .ok compiled ∧
      Machine.new compiled.image servoHost {} (.ofSeed 1) = .ok m ∧ m.Recorded [] m' ∧
      HostCall.connected.run 64 m' = some (outcome, m'') ∧ m''.panic = none ∧ f ∈ m''.fibers ∧
      f.request = some (.query 0 0x1002 40) ∧ f.observed = some 0 ∧
      ∃ r, m''.roles[0]? = some r ∧ (f.wakeAt = none ↔ r.binding = none) := by
  have hplays : playsTo rereadingScript servoHost [.call .start] (fun record m' => record = [] ∧
      (HostCall.connected.run 64 m').any fun called => called.2.panic.isNone &&
        called.2.fibers.any (·.request == some (.query 0 0x1002 40))) = true := by
    decide +kernel
  obtain ⟨compiled, m, record, m', hcompile, hnew, hrecorded, hcheck⟩ := exists_of_playsTo hplays
  obtain ⟨rfl, hcalled⟩ := of_decide_eq_true hcheck
  obtain ⟨⟨outcome, m''⟩, hrun, hasks⟩ := (Option.any_eq_true _ _).1 hcalled
  obtain ⟨hpanic, hfibers⟩ := Bool.and_eq_true_iff.1 hasks
  obtain ⟨f, hf, hrequest⟩ := List.any_eq_true.1 hfibers
  rw [Option.isNone_iff_eq_none] at hpanic
  obtain ⟨hobserved, r, hrole, hwakeAt, -⟩ := Machine.no_fiber_is_stranded hnew hrecorded hrun hpanic f hf _
    (eq_of_beq hrequest)
  exact ⟨compiled, m, m', outcome, m'', f, hcompile, hnew, hrecorded, hrun, hpanic, hf, eq_of_beq hrequest,
    hobserved, r, hrole, hwakeAt⟩

end BusScript
