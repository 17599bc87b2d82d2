import BusScript.Proofs.ClockBounds

namespace BusScript

namespace Machine

variable {m m' : Machine}

end Machine

namespace Moment

variable {a b c : Moment}

end Moment

namespace HostCall

open Moment

variable {m : Machine}

end HostCall

namespace Moment

variable {a b c : Moment}

variable {id : UInt32} {time : Nat}

theorem BringsUp.executes (h : a.BringsUp ⟨id, some time, none, none⟩ b)
    (ha : a.Orderly) : b.executes? = some id ∧ time ≤ b.machine.host.now := by
  cases h with
  | @goesOn pass index budget tasks m' hwakes hst hresumed hbudget =>
    refine ⟨executes?_goesOn hresumed hbudget hst, ?_⟩
    rw [hresumed.stays.now, Pass.host_enter]
    cases hwakes with
    | @due now index id ids tasks f hturn htasks hindex hfiber hdue =>
      have hnow := ha.clock now (id :: ids) (by rw [htasks]; exact List.mem_cons_self)
      rw [Machine.getElem?_stances hfiber, Option.some.injEq] at hst
      have hwakeAt : f.wakeAt = some time := congrArg Stance.wakeAt hst
      rwa [Fiber.isDue, hwakeAt, Option.any_some, decide_eq_true_iff, hnow] at hdue
    | @observer role index p id ids tasks f hturn htasks hindex hfiber hobserved =>
      rw [Machine.getElem?_stances hfiber, Option.some.injEq] at hst
      have hnone : f.observed = none := congrArg Stance.observed hst
      rw [hobserved] at hnone
      cases hnone
  | stays hwakes hst hresumed =>
    have hholds := hresumed.holds
    rw [Machine.stances_enter] at hholds
    exact (hholds.request hst rfl).elim

theorem Until.sleeps (h : a.Until (·.executes? = some id) c) (ha : a.Fit)
    (hparks : a.Parks id ⟨id, some time, none, none⟩) :
    c.machine.panic.isSome = true ∨ c.Parks id ⟨id, some time, none, none⟩ ∨
      c.executes? = some id ∧ time ≤ c.machine.host.now := by
  refine h.holds (I := fun c => c.machine.panic.isSome = true ∨ c.Parks id ⟨id, some time, none, none⟩ ∨
    c.executes? = some id ∧ time ≤ c.machine.host.now) ha (.inr (.inl hparks)) ?_
  intro b c hb hnot hI hfollows
  rcases hfollows.steps hb with ⟨hnext, hpanic, horderly⟩ | ⟨hturn, hfibers, hpanic⟩
  · rcases hI with hsome | hparks | ⟨hexecutes, -⟩
    · rw [hpanic] at hsome
      cases hsome
    · rcases (steps_of_next hpanic hnext).parks_or_bringsUp horderly hparks with hfailed | hparks | hbrings
      · exact .inl ((hfollows.fit hb).panic_of_failed hfailed)
      · exact .inr (.inl hparks)
      · exact .inr (.inr (hbrings.executes horderly))
    · exact (hnot hexecutes).elim
  · rcases hI with hsome | hparks | ⟨hexecutes, -⟩
    · exact .inl (hpanic ▸ hsome)
    · refine .inr (.inl (.of_idle hturn ?_))
      rw [Machine.stances, hfibers]
      exact hparks.found
    · exact (hnot hexecutes).elim

def Wakens (id : UInt32) (a : Moment) : Prop := a.executes? = some id ∨ a.machine.panic.isSome = true

/-- A call goes on, the fiber `id` sleeps, and its time has come. -/
structure Overslept (id : UInt32) (time : Nat) (a : Moment) : Prop where
  fit : a.Fit
  panic : a.machine.panic = none
  parks : a.Parks id ⟨id, some time, none, none⟩
  due : time ≤ a.machine.host.now

section Overslept

variable {id : UInt32} {time : Nat} {tasks : List Task} {stage : Stage}

theorem Overslept.steps (h : a.Overslept id time) (hnext : a.next? = some b) : a.Steps b :=
  steps_of_next h.panic hnext

theorem Overslept.next (h : a.Overslept id time) (hnext : a.next? = some b) : b.Wakens id ∨ b.Overslept id time := by
  have hfit := (Follows.next hnext).fit h.fit
  have horderly := h.fit.orderly h.panic
  cases hpanic : b.machine.panic with
  | some code => exact .inl (.inr (by rw [hpanic]; rfl))
  | none =>
    have hfailed : ¬ b.HasFailed := by
      intro hfailed
      have hsome := hfit.panic_of_failed hfailed
      rw [hpanic] at hsome
      cases hsome
    rcases (h.steps hnext).parks_or_bringsUp horderly h.parks with hfailed' | hparks | hbrings
    · exact (hfailed hfailed').elim
    · exact .inr ⟨hfit, hpanic, hparks, (h.steps hnext).now.symm ▸ h.due⟩
    · exact .inl (.inl (hbrings.executes horderly).1)

theorem Overslept.comesTo (h : a.Overslept id time) (hcomes : a.ComesTo b) :
    (∃ n, (a.after n).Wakens id) ∨ b.Overslept id time := by
  obtain ⟨n, rfl⟩ := hcomes
  induction n generalizing a with
  | zero => exact .inr h
  | succ n ih =>
    cases hnext : a.next? with
    | none =>
      rw [after_of_isOver (by rw [isOver, hnext]; rfl)]
      exact .inr h
    | some b =>
      have hafter (k : Nat) : a.after (k + 1) = b.after k := by rw [after, hnext, Option.getD_some]
      rcases h.next hnext with hwakens | hb
      · exact .inl ⟨1, by rw [hafter]; exact hwakens⟩
      · grind

theorem Overslept.task (h : a.Overslept id time) {r : EStateM.Result Interrupt Machine Unit}
    (hcomes : a.ComesTo (ofResult tasks stage r)) :
    (∃ n, (a.after n).Wakens id) ∨
      ∃ m, a.ComesTo ⟨m, none, tasks, stage⟩ ∧ Overslept id time ⟨m, none, tasks, stage⟩ := by
  refine (h.comesTo hcomes).imp_right fun hlast => ?_
  cases r with
  | ok u m => exact ⟨m, hcomes, hlast⟩
  | error why m =>
    have hsome := hlast.fit.panic_of_failed ⟨why, rfl⟩
    rw [hlast.panic] at hsome
    cases hsome

theorem Overslept.fiber (h : a.Overslept id time) :
    ∃ index f, Scheduling.fiberIndex? a.machine id = some index ∧ a.machine.fibers[index]? = some f ∧
      f.stance = ⟨id, some time, none, none⟩ ∧ f.isDue a.machine.host.now = true := by
  have hfind := h.parks.found
  rw [Machine.stances, List.find?_map, Option.map_eq_some_iff] at hfind
  obtain ⟨f, hfind, hstance⟩ := hfind
  obtain ⟨hid, index, hlt, hf, hbefore⟩ := List.find?_eq_some_iff_getElem.1 hfind
  have hwakeAt : f.wakeAt = some time := congrArg Stance.wakeAt hstance
  refine ⟨index, f, ?_, ?_, hstance, ?_⟩
  · refine List.findIdx?_eq_some_iff_getElem.2 ⟨hlt, hf ▸ hid, fun j hj => ?_⟩
    have hnot := hbefore j hj
    rwa [Bool.not_eq_true', ← Bool.not_eq_true] at hnot
  · rw [List.getElem?_eq_getElem hlt, hf]
  · rw [Fiber.isDue, hwakeAt, Option.any_some]
    exact decide_eq_true h.due

variable {m : Machine}

theorem Overslept.comesUp {now : Nat} {ids : List UInt32}
    (h : Overslept id time ⟨m, none, .runDue now (id :: ids) :: tasks, stage⟩)
    (hsteps : Steps ⟨m, none, .runDue now (id :: ids) :: tasks, stage⟩ b) :
    b.HasFailed ∨ BringsUp ⟨m, none, .runDue now (id :: ids) :: tasks, stage⟩ ⟨id, some time, none, none⟩ b := by
  obtain ⟨index, f, hindex, hfiber, hstance, hdue⟩ := h.fiber
  have hst {pass : Pass} {index' : Nat} {tasks' : List Task}
      (hwakes : Wakes ⟨m, none, .runDue now (id :: ids) :: tasks, stage⟩ pass index' tasks') :
      m.stances[index']? = some ⟨id, some time, none, none⟩ := by
    cases hwakes with
    | due _ htasks hindex' =>
      cases htasks
      rw [hindex, Option.some.injEq] at hindex'
      rw [← hindex', ← hstance]
      exact Machine.getElem?_stances hfiber
    | observer _ htasks => cases htasks
  cases hsteps with
  | word hturn | parks hturn | repeats hturn | ends hturn | overruns hturn => cases hturn
  | goesOn hwakes hresumed hbudget => exact .inr (.goesOn hwakes (hst hwakes) hresumed hbudget)
  | stays hwakes hresumed => exact .inr (.stays hwakes (hst hwakes) hresumed)
  | starts _ htasks => cases htasks
  | plans _ hplans =>
    cases hplans with
    | skipDue hskip =>
      have hnow := (h.fit.orderly h.panic).clock now (id :: ids) List.mem_cons_self
      have hnot := hskip index f hindex hfiber
      rw [hnow, hdue] at hnot
      cases hnot
  | fails => exact .inl ⟨_, rfl⟩

theorem comesTo_runDue (now : Nat) (x : UInt32) (ids : List UInt32) (hpanic : m.panic = none) :
    ∃ r, ComesTo ⟨m, none, .runDue now (x :: ids) :: tasks, stage⟩ (ofResult (.runDue now ids :: tasks) stage r) := by
  have hnext : next? ⟨m, none, .runDue now (x :: ids) :: tasks, stage⟩ =
      some (begin tasks stage m (.runDue now (x :: ids))) := rfl
  rw [begin, hpanic, Option.isSome_none, if_neg (by decide)] at hnext
  cases hindex : Scheduling.fiberIndex? m x with
  | none =>
    rw [hindex] at hnext
    exact ⟨.ok () m, .of_next hnext (.refl _)⟩
  | some index =>
    rw [hindex] at hnext
    simp only at hnext
    split at hnext
    · exact ⟨_, .of_next hnext (comesTo_run .timer index m)⟩
    · exact ⟨.ok () m, .of_next hnext (.refl _)⟩

theorem wakens_of_comesTo (hcomes : a.ComesTo b) (h : ∃ n, (b.after n).Wakens id) : ∃ n, (a.after n).Wakens id := by
  obtain ⟨n, rfl⟩ := hcomes
  obtain ⟨k, hwakens⟩ := h
  exact ⟨n + k, by rwa [after_add]⟩

theorem Overslept.runDue {now : Nat} {ids : List UInt32}
    (h : Overslept id time ⟨m, none, .runDue now ids :: tasks, stage⟩) (hmem : id ∈ ids) :
    ∃ n, (after ⟨m, none, .runDue now ids :: tasks, stage⟩ n).Wakens id := by
  induction ids generalizing m with
  | nil => cases hmem
  | cons x ids ih =>
    by_cases hx : x = id
    · subst hx
      obtain ⟨b, hnext⟩ : ∃ b, next? ⟨m, none, .runDue now (x :: ids) :: tasks, stage⟩ = some b := ⟨_, rfl⟩
      refine ⟨1, ?_⟩
      rw [after, hnext]
      rcases h.comesUp (h.steps hnext) with hfailed | hbrings
      · exact .inr (((Follows.next hnext).fit h.fit).panic_of_failed hfailed)
      · exact .inl (hbrings.executes (h.fit.orderly h.panic)).1
    · obtain ⟨r, hcomes⟩ : ∃ r, ComesTo ⟨m, none, .runDue now (x :: ids) :: tasks, stage⟩
          (ofResult (.runDue now ids :: tasks) stage r) := comesTo_runDue now x ids h.panic
      rcases h.task hcomes with hwakens | ⟨m', hcomes', hlater⟩
      · exact hwakens
      · exact wakens_of_comesTo hcomes' (ih hlater ((List.mem_cons.1 hmem).resolve_left (Ne.symm hx)))

end Overslept

end Moment

namespace HostCall

open Moment

variable {id : UInt32} {time : Nat} {m : Machine}

end HostCall

namespace Moment

variable {a : Moment}

theorem Stands.config (h : a.Stands) (n : Nat) : (a.after n).machine.config = a.machine.config := by
  induction n generalizing a with
  | zero => rfl
  | succ n ih =>
    rw [Moment.after]
    cases hnext : a.next? with
    | none => exact ih h
    | some b =>
      cases h with
      | live hpanic hstage =>
        have hsteps := steps_of_next hpanic hnext
        exact (ih (hsteps.stands hpanic hstage)).trans hsteps.config
      | done hpanic hrest hsettled => rw [hrest] at hnext; cases hnext
      | failed error hpanic hfailed => rw [hfailed] at hnext; cases hnext

end Moment

namespace Machine

open Moment

variable {bytes : Bytes} {host : Host} {config : Config} {random : Random} {m m' : Machine}
  {record : List (Nat × Packet)}

theorem Recorded.config_eq (h : m.Recorded record m') : m'.config = m.config := by
  induction h with
  | refl => rfl
  | host _ _ ih | reset _ ih => exact ih
  | @call record m' m'' outcome fuel call _ hrun ih =>
    cases hpanic : m'.panic with
    | some code =>
      rw [HostCall.run_of_panic (by rw [hpanic]; rfl)] at hrun
      cases hrun
      exact ih
    | none =>
      obtain ⟨a, ⟨n, rfl⟩, hover, hconclude⟩ := HostCall.comesTo_of_run hpanic hrun
      rw [machine_of_conclude hconclude]
      exact (Stands.config (.live hpanic rfl) n).trans ih

theorem Recorded.overrun (hnew : Machine.new bytes host config random = .ok m) (h : m.Recorded record m') :
    m'.overrun = none := by
  induction h with
  | refl =>
    obtain ⟨image, -, -, rfl⟩ := Machine.eq_of_new hnew
    rfl
  | host _ _ ih => exact ih
  | reset => rfl
  | @call record m' m'' outcome fuel call _ hrun ih =>
    cases hpanic : m'.panic with
    | some code =>
      rw [HostCall.run_of_panic (by rw [hpanic]; rfl)] at hrun
      cases hrun
      exact ih
    | none =>
      obtain ⟨a, -, -, hconclude⟩ := HostCall.comesTo_of_run hpanic hrun
      rw [machine_of_conclude hconclude]

end Machine

end BusScript
