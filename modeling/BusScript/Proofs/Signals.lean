import BusScript.Proofs.BindingRuns
import BusScript.Proofs.Overruns
import BusScript.Proofs.SentCommands

namespace BusScript

namespace Machine

/-- The condition that the next word of the fiber at `index` signals. -/
def signals? (m : Machine) (index : Nat) : Option Nat :=
  match m.nextAsync? index with
  | some (.sendCmd, p) =>
    if p.b.toUInt16 == Condition.signal && m.roles[p.a]?.any (·.isLocal) then some p.a else none
  | _ => none

end Machine

/-- The conditions whose observers a task has still to wake. -/
def Task.owed : Task → List Nat
  | wakeSignalled roles => roles
  | _ => []

theorem Pass.signals_enter (pass : Pass) (m : Machine) : (pass.enter m).signals = m.signals := by cases pass <;> rfl

theorem Pass.signals_leave (pass : Pass) (m : Machine) : (pass.leave m.betweenFibers).signals = m.signals := by
  cases pass <;> rfl

namespace Stepping

variable {m m' : Machine} {index : Nat}

theorem Did.queue {flow : Flow} (h : Did index m flow m') :
    m'.signals = m.signals ++ (m.signals? index).toList := by
  rw [Machine.signals?]
  cases h with
  | computes _ hasync _ h => rw [hasync, h.rest, Option.toList_none, List.append_nil]
  | starts _ hasync _ hstart =>
    rw [hasync, Option.toList_none, List.append_nil]
    cases hstart <;> rfl
  | observes _ hasync | pauses hasync | uploads hasync | hits hasync | asks hasync =>
    rw [hasync]
    exact (List.append_nil _).symm
  | signals hasync hrole hlocal =>
    simp only [hasync, hrole, Option.any_some, hlocal, Bool.and_true]
    split
    · rfl
    · exact (List.append_nil _).symm
  | sends hasync hrole hlocal =>
    simp only [hasync, hrole, Option.any_some, hlocal, Bool.and_false]
    exact (List.append_nil _).symm

theorem Finished.queue {goesOn : Bool} (h : Finished index m goesOn m') : m'.signals = m.signals := by cases h <;> rfl

theorem Resumed.queue {goesOn : Bool} (h : Resumed index m goesOn m') : m'.signals = m.signals := by cases h <;> rfl

theorem resume_free {f : Fiber} (hfiber : m.fibers[index]? = some f) (hrequest : f.request = none) :
    ∃ m', resume index m = .ok true m' := by
  have hgoes := goOn_reframes (h := id) (Q := fun goesOn _ => goesOn = true) (E := fun _ _ => False) hfiber
    (fun _ => ⟨rfl, rfl⟩) fun _ _ _ => rfl
  have hresume : resume index m = goOn index m := by
    rw [resume_eq, serveRequest, bind_assoc, bind_of_ok (fiber_eq hfiber), hrequest]
    rfl
  rw [List.modify_id, ← hresume] at hgoes
  cases hresult : resume index m with
  | ok goesOn m' =>
    rw [hresult, Outcome.ok_iff] at hgoes
    exact ⟨m', by rw [hgoes]⟩
  | error fault m' =>
    rw [hresult] at hgoes
    exact hgoes.elim

end Stepping

namespace Moment

variable {a b : Moment} {role n : Nat}

def signals? (a : Moment) : Option Nat :=
  a.turn.bind fun turn => if turn.left = 0 then none else a.machine.signals? turn.index

/-- The condition whose observers are to be woken next because it was signalled. -/
def notifies? (a : Moment) : Option Nat :=
  match a.turn, a.tasks with
  | none, .wakeSignalled (role :: _) :: _ => some role
  | _, _ => none

/-- What is signalled in the next `n` moments, in order. -/
def signalled (a : Moment) (n : Nat) : List Nat := (List.range n).filterMap fun k => (a.after k).signals?

/-- The passes that begin for signals in the next `n` moments, in order. -/
def notified (a : Moment) (n : Nat) : List Nat := (List.range n).filterMap fun k => (a.after k).notifies?

def owed (a : Moment) : List Nat := a.tasks.flatMap Task.owed ++ a.machine.signals

theorem signals?_of_idle (hturn : a.turn = none) : a.signals? = none := by rw [signals?, hturn]; rfl

theorem notifies?_of_turn {turn : Turn} (hturn : a.turn = some turn) : a.notifies? = none := by rw [notifies?, hturn]

theorem tasks_of_notifies? (h : a.notifies? = some role) :
    a.turn = none ∧ ∃ roles tasks, a.tasks = .wakeSignalled (role :: roles) :: tasks := by
  rw [notifies?] at h
  split at h
  · next hturn htasks =>
    cases h
    exact ⟨hturn, _, _, htasks⟩
  · cases h

theorem Wakes.owed {pass : Pass} {index : Nat} {tasks : List Task} (h : a.Wakes pass index tasks) :
    a.notifies? = none ∧ a.tasks.flatMap Task.owed = tasks.flatMap Task.owed := by
  cases h with
  | due hturn htasks | observer hturn htasks =>
    rw [notifies?, hturn, htasks]
    exact ⟨rfl, rfl⟩

theorem Plans.owed {m m' : Machine} {tasks tasks' : List Task} {stage stage' : Stage}
    (h : Plans m tasks stage m' tasks' stage') :
    (notifies? ⟨m, none, tasks, stage⟩).toList ++ owed ⟨m', none, tasks', stage'⟩ = owed ⟨m, none, tasks, stage⟩ := by
  cases h with
  | signals => simp [notifies?, Moment.owed, Task.owed]
  | _ => rfl

/-- What is signalled comes last, and a pass begins with what comes first. -/
theorem Steps.owed (h : a.Steps b) :
    b.HasFailed ∨ a.notifies?.toList ++ b.owed = a.owed ++ a.signals?.toList := by
  have hrunning {turn : Turn} {left : Nat} {m' : Machine} (hturn : a.turn = some turn) (hleft : turn.left = left + 1)
      (hqueue : m'.signals = a.machine.signals ++ (a.machine.signals? turn.index).toList) (turn' : Option Turn) :
      a.notifies?.toList ++ Moment.owed { a with machine := m', turn := turn' } = a.owed ++ a.signals?.toList := by
    rw [notifies?_of_turn hturn, signals?, hturn, Option.bind_some, if_neg (hleft ▸ Nat.succ_ne_zero left), Moment.owed,
      Moment.owed, hqueue, List.append_assoc]
    rfl
  have hwaking {pass : Pass} {index : Nat} {tasks : List Task} {m' : Machine} (hwakes : a.Wakes pass index tasks)
      (hqueue : m'.signals = a.machine.signals) (turn' : Option Turn) :
      a.notifies?.toList ++ Moment.owed ⟨m', turn', tasks, a.stage⟩ = a.owed ++ a.signals?.toList := by
    rw [hwakes.owed.1, signals?_of_idle hwakes.turn, Moment.owed, Moment.owed, hwakes.owed.2, hqueue]
    exact (List.append_nil _).symm
  cases h with
  | word hturn hleft hdid => exact .inr (hrunning hturn hleft hdid.queue _)
  | parks hturn hleft hdid => exact .inr (hrunning hturn hleft ((Pass.signals_leave ..).trans hdid.queue) _)
  | repeats hturn hleft hdid hfinished => exact .inr (hrunning hturn hleft (hfinished.queue.trans hdid.queue) _)
  | ends hturn hleft hdid hfinished =>
    exact .inr (hrunning hturn hleft ((Pass.signals_leave ..).trans (hfinished.queue.trans hdid.queue)) _)
  | @overruns turn f hturn hleft =>
    rw [notifies?_of_turn hturn, signals?, hturn, Option.bind_some, if_pos hleft, Option.toList_none, List.append_nil]
    refine .inr ?_
    cases turn.pass <;> rfl
  | goesOn hwakes hresumed => exact .inr (hwaking hwakes (hresumed.queue.trans (Pass.signals_enter ..)) _)
  | stays hwakes hresumed =>
    refine .inr (hwaking hwakes ?_ _)
    rw [Pass.signals_leave, hresumed.queue, Pass.signals_enter]
  | starts hturn htasks hstarted =>
    rw [signals?_of_idle hturn, notifies?, hturn, Moment.owed, Moment.owed, htasks]
    refine .inr ?_
    cases hstarted <;> exact (List.append_nil _).symm
  | plans hturn hplans =>
    rw [signals?_of_idle hturn, Option.toList_none, List.append_nil]
    have howed := hplans.owed
    rw [notifies?] at howed ⊢
    rw [hturn]
    exact .inr howed
  | fails => exact .inl ⟨_, rfl⟩

theorem signalled_succ (a : Moment) (n : Nat) : a.signalled (n + 1) = a.signalled n ++ (a.after n).signals?.toList := by
  rw [signalled, List.range_succ, List.filterMap_append, signalled]
  cases h : (a.after n).signals? <;> simp [h]

theorem notified_succ (a : Moment) (n : Nat) : a.notified (n + 1) = a.notified n ++ (a.after n).notifies?.toList := by
  rw [notified, List.range_succ, List.filterMap_append, notified]
  cases h : (a.after n).notifies? <;> simp [h]

theorem notified_append_owed (ha : a.Fit) (n : Nat) :
    (a.after n).machine.panic.isSome = true ∨ a.notified n ++ (a.after n).owed = a.owed ++ a.signalled n := by
  induction n with
  | zero => exact .inr (List.append_nil _).symm
  | succ n ih =>
    rw [notified_succ, signalled_succ, after_add]
    cases hnext : (a.after n).next? with
    | none =>
      -- nothing happens any more
      rw [Moment.after, hnext, Option.getD_none, Moment.after]
      obtain ⟨hturn, htasks⟩ : (a.after n).turn = none ∧ (a.after n).tasks = [] := by
        rw [next?] at hnext
        split at hnext <;> simp_all
      rwa [signals?_of_idle hturn, notifies?, hturn, htasks, Option.toList_none, List.append_nil, List.append_nil]
    | some b =>
      rw [after_one hnext]
      have hfit := ha.after n
      have hpanic := hfit.panic_of_next hnext
      have ih := ih.resolve_left (by rw [hpanic]; decide)
      rcases (steps_of_next hpanic hnext).owed with hfailed | howed
      · exact .inl (((Follows.next hnext).fit hfit).panic_of_failed hfailed)
      · refine .inr ?_
        rw [List.append_assoc, howed, ← List.append_assoc, ih, List.append_assoc]

theorem executes?_wake {pass : Pass} {index : Nat} {tasks : List Task} {f : Fiber} (hpanic : a.machine.panic = none)
    (hf : a.machine.fibers[index]? = some f) (hrequest : f.request = none) :
    (wake pass index tasks a.stage a.machine).executes? = some f.id := by
  obtain ⟨m', hresume⟩ := Stepping.resume_free (m := pass.enter a.machine) (by rwa [Pass.fibers_enter]) hrequest
  have hbudget : 0 < max m'.config.stepBudget 1 := Nat.lt_of_lt_of_le Nat.zero_lt_one (Nat.le_max_right ..)
  rw [wake, hpanic, Option.isSome_none, if_neg (by decide), hresume]
  exact executes?_goesOn (Stepping.resumed_of_resume hresume) hbudget (Machine.getElem?_stances hf)

theorem Once.executes {p : Packet} {f : Fiber} (h : Once role p a n f.id) (ha : a.Fit) (hparks : a.Parks f.id f.stance)
    (hrequest : f.request = none) {k : Nat} {m' : Machine} (hk : k < n) (hresumes : (a.after k).ResumesFiber f.id m') :
    (a.after (k + 1)).executes? = some f.id := by
  cases h with
  | stopped _ hdormant => exact (hdormant k hk m' hresumes).elim
  | @resumed k0 _ hk0 _ _ _ honly =>
    obtain rfl := honly k hk m' hresumes
    have hdormant : a.Dormant k f.id := by
      intro k' hk' m'' hresumes'
      have heq := honly k' (by omega) m'' hresumes'
      omega
    obtain ⟨pass, index, tasks, f', hwakes, hnext, hf', hid, -⟩ := hresumes
    have hpanic := (ha.after k).panic_of_next hnext
    have hparks := (hparks.after ha hdormant).resolve_left (by rw [hpanic]; decide)
    -- it is the fiber that it was when the pass began
    have hfind := find?_of_found hwakes.found (Machine.getElem?_stances hf')
    rw [show f'.stance.id = f.id from hid, hparks.found, Option.some.injEq] at hfind
    have hrequest' : f'.request = none := (congrArg Stance.request hfind).symm.trans hrequest
    rw [after_add, after_one hnext, ← hid]
    exact executes?_wake hpanic hf' hrequest'

theorem through_of_notifies? (ha : a.Fit) (h : a.notifies? = some role) :
    ∃ roles tasks n, a.tasks = .wakeSignalled (role :: roles) :: tasks ∧
      Through (.wakeSignalled roles :: tasks) a.stage (a.after n) ∧
      ∀ f ∈ a.machine.fibers, f.observed = some role → Once role Scheduling.signalPacket a n f.id ∧
        (f.request = none → ∀ k < n, ∀ m', (a.after k).ResumesFiber f.id m' →
          (a.after (k + 1)).executes? = some f.id) := by
  obtain ⟨hturn, roles, tasks, htasks⟩ := tasks_of_notifies? h
  have hnext : a.next? = some ⟨a.machine, none,
      .wakeRole role Scheduling.signalPacket :: .wakeSignalled roles :: tasks, a.stage⟩ := by
    rw [next?, hturn, htasks]
    rfl
  have hpanic := ha.panic_of_next hnext
  obtain ⟨n, hthrough, honce⟩ := through_of_wakeRole ((Follows.next hnext).fit ha) hpanic rfl rfl
  have hdormant (id : UInt32) : a.Dormant 1 id := by
    intro k hk m' hresumes
    obtain rfl : k = 0 := by omega
    obtain ⟨_, _, _, _, hwakes, -⟩ := hresumes
    have hnone := hwakes.owed.1
    rw [Moment.after, h] at hnone
    cases hnone
  refine ⟨roles, tasks, 1 + n, htasks, by rwa [after_add, after_one hnext], fun f hf hobserved => ?_⟩
  have honce : Once role Scheduling.signalPacket a (1 + n) f.id :=
    Once.later (by rw [after_one hnext]; exact honce f hf hobserved) (hdormant f.id)
  exact ⟨honce, fun hrequest k hk m' => honce.executes ha ((ha.orderly hpanic).parks hturn hf hobserved) hrequest hk⟩

theorem Steps.proper (h : a.Steps b) (ha : ∀ r ∈ a.machine.roles, Roles.Proper r) :
    b.HasFailed ∨ ∀ r ∈ b.machine.roles, Roles.Proper r := by
  cases h.outlines with
  | acts habides => exact .inr (habides.roles ▸ ha)
  | fails => exact .inl ⟨_, rfl⟩
  | plans _ hplans =>
    refine .inr ?_
    generalize a.machine = m, a.tasks = tasks, a.stage = stage at hplans ha
    cases hplans with
    | bind => exact Roles.Proper.apply ha (.autobind m.host.devices)
    | drop => exact Roles.Proper.apply ha (.unbind _)
    | _ => exact ha

section

variable {m : Machine} {bytes : Bytes} {host : Host} {config : Config} {random : Random}

theorem Reached.proper (hnew : Machine.new bytes host config random = .ok m) (h : Reached m a) :
    a.machine.panic = none → ∀ r ∈ a.machine.roles, Roles.Proper r := by
  have hunbound {roles : List Role} (hroles : ∀ r ∈ roles, r.binding = none) : ∀ r ∈ roles, Roles.Proper r := by
    intro r hr b hb
    rw [hroles r hr] at hb
    cases hb
  refine h.holds hnew (I := fun m => ∀ r ∈ m.roles, Roles.Proper r) ?_ (fun _ _ => Steps.proper)
    (fun _ _ _ => id) fun m' _ => ?_
  · obtain ⟨image, -, -, rfl⟩ := Machine.eq_of_new hnew
    exact hunbound fun r hr => by obtain ⟨_, -, rfl⟩ := List.mem_map.1 hr; rfl
  · exact hunbound fun r hr => by obtain ⟨_, -, rfl⟩ := List.mem_map.1 hr; rfl

/-- Conditions are signalled exactly once. In a call that does not stop the program there are as many passes for signals as
words that signal, for the same roles in the same order, and each comes after its word. A pass begins when no fiber runs. In
it, everyone who observes the role comes up exactly once, with the event 1 and because of that role, and goes on if it does
not wait for the value of a register. What is sent is never for a local role. -/
theorem signals_are_delivered_once (hnew : Machine.new bytes host config random = .ok m) :
    (∀ (m₀ m' : Machine) (call : HostCall) (fuel : Nat) (outcome : Except MachineError Unit), Reached m (.rest m₀) →
      call.run fuel m₀ = some (outcome, m') → m'.panic = none →
        ∃ n, ((call.first m₀).after n).isOver = true ∧ (call.first m₀).notified n = (call.first m₀).signalled n ∧
          ∀ k ≤ n, (call.first m₀).notified k <+: (call.first m₀).signalled k) ∧
    (∀ (a : Moment) (role : Nat), Reached m a → a.notifies? = some role → a.turn = none ∧
      Scheduling.signalPacket.eventNumber? = some 1 ∧
      ∃ roles tasks n, a.tasks = .wakeSignalled (role :: roles) :: tasks ∧
        Through (.wakeSignalled roles :: tasks) a.stage (a.after n) ∧
        ∀ f ∈ a.machine.fibers, f.observed = some role → Once role Scheduling.signalPacket a n f.id ∧
          (f.request = none → ∀ k < n, ∀ m', (a.after k).ResumesFiber f.id m' →
            (a.after (k + 1)).executes? = some f.id)) ∧
    ∀ a b : Moment, Reached m a → a.next? = some b → b.machine.host.sent = a.machine.host.sent ∨
      ∃ f request r bind, a.Sends b f (request.packet bind) ∧ f.request = some request ∧
        a.machine.roles[request.role]? = some r ∧ r.binding = some bind ∧ r.isLocal = false := by
  refine ⟨fun m₀ m' call fuel outcome hreached hrun hpanic' => ?_, fun a role hreached hnotifies => ?_,
    fun a b hreached hnext => ?_⟩
  · have hpanic : m₀.panic = none := by
      by_contra hsome
      rw [HostCall.run_of_panic (Option.isSome_iff_ne_none.2 hsome)] at hrun
      cases hrun
      exact hsome hpanic'
    have hfit := hreached.fit hnew
    have hfirst := (Follows.call hpanic call).fit hfit
    have howed : (call.first m₀).owed = [] := by
      have hsignals := (hfit.idle rfl hpanic).signals
      rw [Moment.owed]
      cases call <;> exact hsignals
    obtain ⟨m'', ⟨n, hn⟩, hlive, hsettled, -⟩ := HostCall.rest_of_run hpanic hrun hpanic'
    have hruns (k : Nat) (hk : k ≤ n) : (call.first m₀).notified k ++ ((call.first m₀).after k).owed =
        (call.first m₀).signalled k := by
      have hcounts := notified_append_owed hfirst k
      rw [howed, List.nil_append] at hcounts
      refine hcounts.resolve_left fun hsome => ?_
      -- a program that has stopped does not go on to the end of the call
      have hover : ((call.first m₀).after k).isOver = true := by
        cases hnext : ((call.first m₀).after k).next? with
        | none => rw [isOver, hnext]; rfl
        | some b => rw [(hfirst.after k).panic_of_next hnext] at hsome; cases hsome
      rw [← Nat.add_sub_cancel' hk, after_add, after_of_isOver hover] at hn
      rw [hn, show (Moment.rest m'').machine.panic = none from hlive] at hsome
      cases hsome
    refine ⟨n, by rw [hn]; rfl, ?_, fun k hk => ⟨_, hruns k hk⟩⟩
    have hall := hruns n (Nat.le_refl n)
    rwa [hn, show (Moment.rest m'').owed = [] from hsettled.signals, List.append_nil] at hall
  · exact ⟨(tasks_of_notifies? hnotifies).1, by decide, through_of_notifies? (hreached.fit hnew) hnotifies⟩
  · have hpanic := (hreached.fit hnew).panic_of_next hnext
    rcases (steps_of_next hpanic hnext).sent with hsame | ⟨f, request, r, bind, hsends, hrequest, hrole, hbinding, -⟩
    · exact .inl hsame
    · have hproper := hreached.proper hnew hpanic r (List.mem_of_getElem? hrole)
      exact .inr ⟨f, request, r, bind, hsends, hrequest, hrole, hbinding, (hproper bind hbinding).1⟩

end

end Moment

open Script in
/-- A condition is signalled twice. -/
def signallingScript : List Stmt :=
  [declare "c" (some (.call {} (name "condition") [])),
    .expr {} (.call {} (member (member (name "c") "signalled") "sub") [.arrow {} [] []]),
    .expr {} (.call {} (member (name "c") "signal") []),
    .expr {} (.call {} (member (name "c") "signal") [])]

/-- The second pass wakes the observer once more. -/
theorem signals_are_delivered_once_twice :
    ∃ compiled m outcome m' a n n', compile Catalog.builtin {} signallingScript = .ok compiled ∧
      Machine.new compiled.image {} {} (.ofSeed 1) = .ok m ∧ HostCall.start.run 8 m = some (outcome, m') ∧
      m'.panic = none ∧ (HostCall.start.first m).notified n = (HostCall.start.first m).signalled n ∧
      Moment.Reached m a ∧ a.tasks.flatMap Task.owed = [0] ∧ Moment.Once 0 Scheduling.signalPacket a n' 1 := by
  have hloads : loadsTo {} signallingScript {} (fun m =>
      (HostCall.start.run 8 m).any (·.2.panic.isNone) = true ∧ (m.trail [.call .start]).length = 66 ∧
      let a := m.history [.call .start] 41
      a.notifies? = some 0 ∧ a.tasks.flatMap Task.owed = [0] ∧
        a.machine.fibers.map (fun f => (f.id, f.observed)) = [(1, some 0), (2, none)]) = true := by
    decide +kernel
  obtain ⟨compiled, m, hcompile, hnew, hcheck⟩ := exists_of_loadsTo hloads
  obtain ⟨hruns, hlength, hnotifies, howed, hfibers⟩ := of_decide_eq_true hcheck
  obtain ⟨⟨outcome, m'⟩, hrun, hpanic⟩ := (Option.any_eq_true _ _).1 hruns
  have hreached : Moment.Reached m (m.history [.call .start] 41) := Machine.reached_history (by omega)
  generalize m.history [.call .start] 41 = a at *
  obtain ⟨hcalls, hpasses, -⟩ := Moment.signals_are_delivered_once hnew
  obtain ⟨n, -, hall, -⟩ := hcalls m m' .start 8 outcome .refl hrun (Option.isNone_iff_eq_none.1 hpanic)
  obtain ⟨-, -, -, -, n', -, -, honce⟩ := hpasses a 0 hreached hnotifies
  obtain ⟨f, hf, hstance⟩ := List.mem_map.1 (hfibers ▸ List.mem_cons_self)
  obtain ⟨hid, hobserved⟩ := Prod.mk.inj hstance
  exact ⟨compiled, m, outcome, m', a, n, n', hcompile, hnew, hrun, Option.isNone_iff_eq_none.1 hpanic, hall, hreached,
    howed, hid ▸ (honce f hf hobserved).1⟩

end BusScript
