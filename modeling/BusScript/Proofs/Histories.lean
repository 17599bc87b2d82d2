import BusScript.Proofs.Waiting

/-!
Histories: the moments of the calls of a run, one call after the other, with what the host does in between. What a
call leaves is a moment of the history, and so is every moment of a call that never returns. A fiber that is parked
stays as it is until it comes up.
-/

namespace BusScript

namespace Moment

def executes? (a : Moment) : Option UInt32 :=
  a.turn.bind fun turn => if turn.left = 0 then none else a.machine.fibers[turn.index]?.map (·.id)

/-- What can come after a moment of a history, unless the machine is reset. -/
inductive Follows : Moment → Moment → Prop
  | next {a b : Moment} (hnext : a.next? = some b) : Follows a b
  | returns {a : Moment} (hover : a.isOver = true) : Follows a (.rest { a.machine with overrun := none })
  | host {m : Machine} (host : Host) : Follows (.rest m) (.rest { m with host })
  | call {m : Machine} (hpanic : m.panic = none) (call : HostCall) : Follows (.rest m) (call.first m)

inductive Reached (m : Machine) : Moment → Prop
  | refl : Reached m (.rest m)
  | follows {a b : Moment} : Reached m a → a.Follows b → Reached m b
  | reset {m' : Machine} : Reached m (.rest m') → Reached m (.rest m'.reset)

/-- A history leads from `a` to a moment, before which it does not come to `P`. -/
inductive Until (P : Moment → Prop) (a : Moment) : Moment → Prop
  | refl : Until P a a
  | step {b c : Moment} : Until P a b → ¬ P b → b.Follows c → Until P a c

inductive Fit (a : Moment) : Prop
  | live (hpanic : a.machine.panic = none) (hstage : a.stage.isOpen = true) (horderly : a.Orderly)
      (hattentive : a.Attentive)
  | rest (hrest : a = .rest a.machine) (hidle : a.machine.panic = none → a.machine.Idle)
  | failed (hpanic : a.machine.panic.isSome = true) (hturn : a.turn = none) (hover : a.isOver = true)

variable {a b c : Moment} {P : Moment → Prop}

theorem Steps.fit (h : a.Steps b) (hpanic : a.machine.panic = none) (hstage : a.stage.isOpen = true)
    (horderly : a.Orderly) (hattentive : a.Attentive) : b.Fit := by
  have hstands := h.stands hpanic hstage
  by_cases hfailed : b.HasFailed
  · have hover := hstands.isOver_of_failed hfailed
    cases hstands with
    | live _ hopen => rw [isOver_of_isOpen hopen] at hover; cases hover
    | done _ hrest =>
      obtain ⟨_, hfailed⟩ := hfailed
      rw [hrest] at hfailed
      cases hfailed
    | failed error hpanic' heq => exact .failed hpanic' (by rw [heq]) hover
  · have horderly' := (h.orderly horderly).resolve_left hfailed
    have hattentive' := (h.attentive horderly hattentive).resolve_left hfailed
    cases hstands with
    | live hpanic' hopen => exact .live hpanic' hopen horderly' hattentive'
    | done hpanic' hrest hsettled =>
      rw [hrest] at horderly' hattentive'
      exact .rest hrest fun _ => HostCall.idle_of_settled horderly' hattentive' hsettled
    | failed error hpanic' heq => exact (hfailed ⟨_, by rw [heq]⟩).elim

theorem Fit.idle (h : a.Fit) (hover : a.isOver = true) (hpanic : a.machine.panic = none) :
    a.machine.Idle := by
  cases h with
  | live _ hstage => rw [isOver_of_isOpen hstage] at hover; cases hover
  | rest _ hidle => exact hidle hpanic
  | failed hpanic' => rw [hpanic] at hpanic'; cases hpanic'

theorem Fit.orderly (h : a.Fit) (hpanic : a.machine.panic = none) : a.Orderly := by
  cases h with
  | live _ _ horderly => exact horderly
  | rest hrest hidle =>
    have hidle := hidle hpanic
    rw [hrest]
    exact .of_idle rfl (Stance.apart_of_nodup hidle.ids) (by rintro _ _ ⟨⟩) hidle.tidy
  | failed hpanic' => rw [hpanic] at hpanic'; cases hpanic'

theorem Fit.turn_of_panic (h : a.Fit) (hpanic : a.machine.panic.isSome = true) : a.turn = none := by
  cases h with
  | live hnone => rw [hnone] at hpanic; cases hpanic
  | rest hrest => rw [hrest]; rfl
  | failed _ hturn => exact hturn

theorem Fit.panic_of_failed (h : a.Fit) (hfailed : a.HasFailed) : a.machine.panic.isSome = true := by
  obtain ⟨why, hstage⟩ := hfailed
  cases h with
  | live _ hopen => rw [hstage] at hopen; cases hopen
  | rest hrest => rw [hrest] at hstage; cases hstage
  | failed hpanic => exact hpanic

theorem Fit.live_of_turn (h : a.Fit) {turn : Turn} (hturn : a.turn = some turn) :
    a.machine.panic = none ∧ a.Orderly := by
  cases h with
  | live hpanic _ horderly => exact ⟨hpanic, horderly⟩
  | rest hrest => rw [hrest] at hturn; cases hturn
  | failed _ hnone => rw [hnone] at hturn; cases hturn

theorem Fit.panic_of_next (h : a.Fit) (hnext : a.next? = some b) : a.machine.panic = none := by
  cases h with
  | live hpanic => exact hpanic
  | rest hrest => rw [hrest] at hnext; cases hnext
  | failed _ _ hover => rw [isOver, hnext] at hover; cases hover

theorem Follows.steps (h : a.Follows b) (ha : a.Fit) : (a.next? = some b ∧ a.machine.panic = none ∧ a.Orderly) ∨
      b.turn = none ∧ b.machine.fibers = a.machine.fibers ∧ b.machine.panic = a.machine.panic := by
  cases h with
  | next hnext =>
    have hpanic := ha.panic_of_next hnext
    exact .inl ⟨hnext, hpanic, ha.orderly hpanic⟩
  | returns | host | call => exact .inr ⟨rfl, rfl, rfl⟩

theorem Follows.fit (h : a.Follows b) (ha : a.Fit) : b.Fit := by
  cases h with
  | next hnext =>
    cases ha with
    | live hpanic hstage horderly hattentive =>
      exact (steps_of_next hpanic hnext).fit hpanic hstage horderly hattentive
    | rest hrest => rw [hrest] at hnext; cases hnext
    | failed _ _ hover =>
      rw [isOver, hnext] at hover
      cases hover
  | returns hover => exact .rest rfl fun hpanic => (ha.idle hover hpanic).update ..
  | host => exact .rest rfl fun hpanic => (ha.idle rfl hpanic).update ..
  | call hpanic call =>
    have hidle := ha.idle rfl hpanic
    exact .live hpanic rfl (HostCall.orderly_first hidle call) (HostCall.attentive_first hidle call)

variable {m : Machine} {st : Stance}

theorem Reached.fit {bytes : Bytes} {host : Host} {config : Config} {random : Random}
    (hnew : Machine.new bytes host config random = .ok m) (h : Reached m a) : a.Fit := by
  induction h with
  | refl => exact .rest rfl fun _ => Machine.idle_of_new hnew
  | follows _ hfollows ih => exact hfollows.fit ih
  | reset => exact .rest rfl fun _ => Machine.idle_reset _

/-- What a new machine has and a reset restores, and what neither a step nor the host takes from it, it has until the
program stops. -/
theorem Reached.holds {bytes : Bytes} {host : Host} {config : Config} {random : Random}
    (hnew : Machine.new bytes host config random = .ok m) (h : Reached m a) {I : Machine → Prop} (hI : I m)
    (hstep : ∀ a b : Moment, a.Steps b → I a.machine → b.HasFailed ∨ I b.machine)
    (hupdate : ∀ m' host overrun, I m' → I { m' with host, overrun })
    (hreset : ∀ m', Reached m (.rest m') → I m'.reset) : a.machine.panic = none → I a.machine := by
  induction h with
  | refl => exact fun _ => hI
  | @follows a b hreached hfollows ih =>
    intro hpanic
    have hfit := hreached.fit hnew
    cases hfollows with
    | next hnext =>
      have hpanic' := hfit.panic_of_next hnext
      refine (hstep a b (steps_of_next hpanic' hnext) (ih hpanic')).resolve_left fun hfailed => ?_
      have hsome := (Follows.fit (.next hnext) hfit).panic_of_failed hfailed
      rw [hpanic] at hsome
      cases hsome
    | returns | host => exact hupdate _ _ _ (ih hpanic)
    | call => exact ih hpanic
  | reset hreached => exact fun _ => hreset _ hreached

theorem Reached.comesTo (h : Reached m a) (hcomes : a.ComesTo b) : Reached m b := by
  obtain ⟨n, rfl⟩ := hcomes
  induction n generalizing a with
  | zero => exact h
  | succ n ih =>
    rw [after]
    cases hnext : a.next? with
    | none => exact ih h
    | some b => exact ih (h.follows (.next hnext))

theorem machine_of_conclude {outcome : Except MachineError Unit}
    (h : Machine.conclude a.result = some (outcome, m)) : m = { a.machine with overrun := none } := by
  rw [result] at h
  cases hstage : a.stage with
  | failed why =>
    rw [hstage] at h
    cases why with
    | failed error => cases h; rfl
    | outOfFuel => cases h
  | _ => rw [hstage] at h; cases h; rfl

theorem reached_of_recorded {m' : Machine} {record : List (Nat × Packet)} (h : m.Recorded record m') :
    Reached m (.rest m') := by
  induction h with
  | refl => exact .refl
  | host host _ ih => exact ih.follows (.host host)
  | reset _ ih => exact .reset ih
  | @call record m' m'' outcome fuel call _ hrun ih =>
    cases hpanic : m'.panic with
    | some code =>
      rw [HostCall.run_of_panic (by rw [hpanic]; rfl)] at hrun
      cases hrun
      exact ih
    | none =>
      obtain ⟨a, hcomes, hover, hconclude⟩ := HostCall.comesTo_of_run hpanic hrun
      rw [machine_of_conclude hconclude]
      exact ((ih.follows (.call hpanic call)).comesTo hcomes).follows (.returns hover)

theorem Until.fit (h : a.Until P c) (ha : a.Fit) : c.Fit := by
  induction h with
  | refl => exact ha
  | step _ _ hfollows ih => exact hfollows.fit ih

theorem Until.after (h : a.Until P b) {n : Nat} (hnot : ∀ k < n, ¬ P (b.after k)) : a.Until P (b.after n) := by
  induction n with
  | zero => exact h
  | succ n ih =>
    have hbefore := ih fun k hk => hnot k (Nat.lt_succ_of_lt hk)
    rw [after_add]
    cases hnext : (b.after n).next? with
    | none => rwa [Moment.after, hnext, Option.getD_none, Moment.after]
    | some c =>
      rw [after_one hnext]
      exact hbefore.step (hnot n (Nat.lt_succ_self n)) (.next hnext)

/-- What every moment hands on to the next one, as long as the history has not come to `P`. -/
theorem Until.holds {I : Moment → Prop} (h : a.Until P c) (ha : a.Fit) (hI : I a)
    (hstep : ∀ b c : Moment, b.Fit → ¬ P b → I b → b.Follows c → I c) : I c := by
  induction h with
  | refl => exact hI
  | step huntil hnot hfollows ih => exact hstep _ _ (huntil.fit ha) hnot ih hfollows

/-- The fiber `id` is parked: it is there with the stance `st`, and it is not its turn. -/
structure Parks (a : Moment) (id : UInt32) (st : Stance) : Prop where
  found : a.machine.stances.find? (·.id == id) = some st
  idle : ∀ turn x, a.turn = some turn → a.machine.stances[turn.index]? = some x → x.id ≠ id

section Find

variable {s : List Stance} {index : Nat} {id : UInt32} {x : Stance} {g : Stance → Stance}

theorem find?_modify (hx : s[index]? = some x) (hid : x.id ≠ id) (hg : ∀ st, (g st).id = st.id) :
    (s.modify index g).find? (·.id == id) = s.find? (·.id == id) := by
  induction s generalizing index with
  | nil => cases hx
  | cons y s ih => grind

theorem find?_eraseIdx (hx : s[index]? = some x) (hid : x.id ≠ id) :
    (s.eraseIdx index).find? (·.id == id) = s.find? (·.id == id) := by
  induction s generalizing index with
  | nil => cases hx
  | cons y s ih =>
    cases index with
    | zero => simp_all
    | succ index => rw [List.eraseIdx_cons_succ, List.find?_cons, List.find?_cons, ih hx]

theorem find?_append (h : s.find? (·.id == id) = some st) (t : List Stance) :
    (s ++ t).find? (·.id == id) = some st := by
  rw [List.find?_append, h]
  rfl

theorem find?_of_found (h : Stance.Found s index) (hx : s[index]? = some x) : s.find? (·.id == x.id) = some x := by
  obtain ⟨y, hy, hfind⟩ := h
  rw [hx, Option.some.injEq] at hy
  subst hy
  obtain ⟨hlt, hid, hbefore⟩ := List.findIdx?_eq_some_iff_getElem.1 hfind
  refine List.find?_eq_some_iff_getElem.2 ⟨beq_self_eq_true _, index, hlt, ?_, fun j hj => ?_⟩
  · exact (List.getElem?_eq_some_iff.1 hx).2
  · simp_all

theorem find?_modify_self (h : Stance.Found s index) (hx : s[index]? = some x) (hg : ∀ st, (g st).id = st.id) :
    (s.modify index g).find? (·.id == x.id) = some (g x) := by
  rw [← hg x]
  refine find?_of_found (h.modify index hg) ?_
  rw [List.getElem?_modify_eq, hx]
  rfl

theorem find?_of_acts {now : Nat} {roles : List Role} {flow : Flow} {s' : List Stance}
    (hacts : Stepping.Acts now roles index s flow s') (hx : s[index]? = some x) (hid : x.id ≠ id)
    (hfind : s.find? (·.id == id) = some st) :
    s'.find? (·.id == id) = some st ∧ ∃ x', s'[index]? = some x' ∧ x'.id = x.id := by
  have hmodify {g : Stance → Stance} (hg : ∀ st, (g st).id = st.id) : (s.modify index g).find? (·.id == id) = some st ∧
        ∃ x', (s.modify index g)[index]? = some x' ∧ x'.id = x.id := by
    refine ⟨(find?_modify hx hid hg).trans hfind, g x, ?_, hg x⟩
    rw [List.getElem?_modify_eq, hx]
    rfl
  cases hacts with
  | keeps => exact ⟨hfind, x, hx, rfl⟩
  | starts => grind
  | observes | sleeps | requests => exact hmodify fun _ => rfl

theorem find?_of_holds {now : Nat} {roles : List Role} {s' : List Stance}
    (hholds : Stepping.Holds now roles index s s') (hx : s[index]? = some x) (hid : x.id ≠ id) :
    s'.find? (·.id == id) = s.find? (·.id == id) := by
  cases hholds with
  | unbound | asks => exact find?_modify hx hid fun _ => rfl
  | waits => rfl

end Find

/-- A fiber with the stance `st` comes up. -/
inductive BringsUp (a : Moment) (st : Stance) : Moment → Prop
  | goesOn {pass : Pass} {index budget : Nat} {tasks : List Task} {m' : Machine}
      (hwakes : a.Wakes pass index tasks) (hst : a.machine.stances[index]? = some st)
      (hresumed : Stepping.Resumed index (pass.enter a.machine) true m') (hbudget : 0 < budget) :
      BringsUp a st ⟨m', some { pass, index, budget, left := budget }, tasks, a.stage⟩
  | stays {pass : Pass} {index : Nat} {tasks : List Task} {m' : Machine}
      (hwakes : a.Wakes pass index tasks) (hst : a.machine.stances[index]? = some st)
      (hresumed : Stepping.Resumed index (pass.enter a.machine) false m') :
      BringsUp a st ⟨pass.leave m'.betweenFibers, none, tasks, a.stage⟩

theorem Parks.id {id : UInt32} {st : Stance} (h : a.Parks id st) : st.id = id := by
  have hid := List.find?_some h.found
  exact beq_iff_eq.1 hid

theorem Parks.of_idle {id : UInt32} (hturn : b.turn = none)
    (hfind : b.machine.stances.find? (·.id == id) = some st) : b.Parks id st :=
  ⟨hfind, fun turn _ h => by rw [hturn] at h; cases h⟩

theorem Parks.of_running {id : UInt32} {x : Stance} {turn : Turn} {tasks : List Task}
    {stage : Stage} (hfind : m.stances.find? (·.id == id) = some st) (hx : m.stances[turn.index]? = some x)
    (hid : x.id ≠ id) : Parks ⟨m, some turn, tasks, stage⟩ id st := by
  refine ⟨hfind, ?_⟩
  grind

theorem executes?_eq (a : Moment) : a.executes? =
    a.turn.bind fun turn => if turn.left = 0 then none else a.machine.stances[turn.index]?.map (·.id) := by
  simp only [executes?, Machine.stances, List.getElem?_map, Option.map_map]
  rfl

theorem executes?_goesOn {pass : Pass} {index budget : Nat} {tasks : List Task} {stage : Stage} {m' : Machine}
    (hresumed : Stepping.Resumed index (pass.enter m) true m') (hbudget : 0 < budget)
    (hst : m.stances[index]? = some st) :
    executes? ⟨m', some { pass, index, budget, left := budget }, tasks, stage⟩ = some st.id := by
  have hstances := hresumed.stances
  rw [Machine.stances_enter] at hstances
  rw [executes?_eq, Option.bind_some, if_neg (Nat.ne_of_gt hbudget)]
  change m'.stances[index]?.map (·.id) = some st.id
  rw [hstances, List.getElem?_modify_eq, hst]
  rfl

theorem Parks.not_executes {id : UInt32} (h : a.Parks id st) : a.executes? ≠ some id := by
  rw [executes?_eq]
  intro hid
  obtain ⟨turn, hturn, hid⟩ := Option.bind_eq_some_iff.1 hid
  split at hid
  · cases hid
  · obtain ⟨x, hx, hid⟩ := Option.map_eq_some_iff.1 hid
    exact h.idle turn x hturn hx hid

theorem parks_leave {pass : Pass} {index : Nat} {m' : Machine} {g : Stance → Stance}
    {tasks : List Task} {stage : Stage} (hfound : Stance.Found a.machine.stances index)
    (hst : a.machine.stances[index]? = some st) (hg : ∀ st, (g st).id = st.id)
    (hstances : m'.stances = a.machine.stances.modify index g) :
    Parks ⟨pass.leave m'.betweenFibers, none, tasks, stage⟩ st.id (g st) := by
  refine .of_idle rfl ?_
  rw [Machine.stances_leave]
  change m'.stances.find? (·.id == st.id) = some (g st)
  rw [hstances, find?_modify_self hfound hst hg]

theorem Steps.parks_or_bringsUp (h : a.Steps b) (ha : a.Orderly) {id : UInt32} (hparks : a.Parks id st) :
    b.HasFailed ∨ b.Parks id st ∨ a.BringsUp st b := by
  -- the fiber that has its turn is another one
  have hother {turn : Turn} (hturn : a.turn = some turn) :
      ∃ x, a.machine.stances[turn.index]? = some x ∧ x.id ≠ id := by
    obtain ⟨x, hx, -⟩ := ha.found turn hturn
    exact ⟨x, hx, hparks.idle turn x hturn hx⟩
  cases h with
  | word hturn hleft hdid =>
    obtain ⟨x, hx, hid⟩ := hother hturn
    obtain ⟨hfind, x', hx', hid'⟩ := find?_of_acts hdid.acts hx hid hparks.found
    exact .inr (.inl (.of_running hfind hx' (hid' ▸ hid)))
  | parks hturn hleft hdid =>
    obtain ⟨x, hx, hid⟩ := hother hturn
    refine .inr (.inl (.of_idle rfl ?_))
    rw [Machine.stances_leave]
    exact (find?_of_acts hdid.acts hx hid hparks.found).1
  | repeats hturn hleft hdid hfinished =>
    obtain ⟨x, hx, hid⟩ := hother hturn
    obtain ⟨hfind, x', hx', hid'⟩ := find?_of_acts hdid.acts hx hid hparks.found
    have hstances := hfinished.stances
    rw [if_pos rfl] at hstances
    rw [← hstances] at hfind hx'
    exact .inr (.inl (.of_running hfind hx' (hid' ▸ hid)))
  | @ends turn left m' m'' hturn hleft hdid hfinished =>
    obtain ⟨x, hx, hid⟩ := hother hturn
    obtain ⟨hfind, x', hx', hid'⟩ := find?_of_acts hdid.acts hx hid hparks.found
    have hstances : m''.stances = m'.stances.eraseIdx turn.index := hfinished.stances
    refine .inr (.inl (.of_idle rfl ?_))
    rw [Machine.stances_leave]
    change m''.stances.find? (·.id == id) = some st
    rw [hstances, find?_eraseIdx hx' (hid' ▸ hid), hfind]
  | @overruns turn f hturn hleft =>
    obtain ⟨x, hx, hid⟩ := hother hturn
    have hfind := (find?_eraseIdx hx hid).trans hparks.found
    rw [Machine.stances, List.eraseIdx_map] at hfind
    refine .inr (.inl (.of_idle rfl ?_))
    rw [Machine.stances_leave]
    exact hfind
  | @goesOn pass index budget tasks m' hwakes hresumed hbudget =>
    obtain ⟨x, hx, -⟩ := hwakes.found
    by_cases hid : x.id = id
    · have hfind := find?_of_found hwakes.found hx
      rw [hid, hparks.found, Option.some.injEq] at hfind
      subst hfind
      exact .inr (.inr (.goesOn hwakes hx hresumed hbudget))
    · have hstances := hresumed.stances
      rw [Machine.stances_enter] at hstances
      refine .inr (.inl (.of_running (x := { x with wakeAt := none, observed := none, request := none }) ?_ ?_ hid))
      · rw [hstances]
        refine (find?_modify hx hid ?_).trans hparks.found
        exact fun _ => rfl
      · simp_all
  | @stays pass index tasks m' hwakes hresumed =>
    obtain ⟨x, hx, -⟩ := hwakes.found
    by_cases hid : x.id = id
    · have hfind := find?_of_found hwakes.found hx
      rw [hid, hparks.found, Option.some.injEq] at hfind
      subst hfind
      exact .inr (.inr (.stays hwakes hx hresumed))
    · have hholds := hresumed.holds
      rw [Machine.stances_enter] at hholds
      refine .inr (.inl (.of_idle rfl ?_))
      rw [Machine.stances_leave]
      exact (find?_of_holds hholds hx hid).trans hparks.found
  | @starts tasks m' hturn htasks hstarted =>
    refine .inr (.inl (.of_idle rfl ?_))
    rcases hstarted.stances with hstances | ⟨id', hstances⟩
    · exact hstances ▸ hparks.found
    · exact hstances ▸ find?_append hparks.found _
  | plans hturn hplans =>
    refine .inr (.inl (.of_idle rfl ?_))
    rw [Machine.stances, hplans.fibers]
    exact hparks.found
  | fails => exact .inl ⟨_, rfl⟩

theorem Steps.of_async (h : a.Steps b) {turn : Turn} {op : AsyncOp} {p : Operands} (hturn : a.turn = some turn)
    (hleft : turn.left ≠ 0) (hasync : a.machine.nextAsync? turn.index = some (op, p)) :
    b.HasFailed ∨ (∃ m' left, Stepping.Did turn.index a.machine .next m' ∧
        b = { a with machine := m', turn := some { turn with left } }) ∨
      ∃ m', Stepping.Did turn.index a.machine .park m' ∧
        b = { a with machine := turn.pass.leave m'.betweenFibers, turn := none } := by
  have hidle (h : a.turn = none) : False := by
    rw [hturn] at h
    cases h
  have hnot {m' : Machine} (hdid : Stepping.Did turn.index a.machine .finish m') : False := by
    cases hdid with
    | computes hcall hnone => rw [hasync] at hnone; cases hnone
  cases h with
  | @word turn' left m' hturn' hleft' hdid => simp_all
  | @parks turn' left m' hturn' hleft' hdid => grind
  | @repeats turn' left m' m'' hturn' hleft' hdid | @ends turn' left m' m'' hturn' hleft' hdid => simp_all
  | @overruns turn' f' hturn' hleft' => simp_all
  | goesOn hwakes | stays hwakes => exact (hidle hwakes.turn).elim
  | starts hturn' | plans hturn' => exact (hidle hturn').elim
  | fails => exact .inl ⟨_, rfl⟩

end Moment

end BusScript
