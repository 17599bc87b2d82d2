import BusScript.Proofs.MomentSteps

namespace BusScript

open Scheduling (runDue settle wakeDue)

open Outcome (bind_iff get_iff ite_iff modify_iff ok_iff)

namespace Moment

variable {a b : Moment}

/-- How moments end that do not end well. Without enough fuel they have not ended after as many moments. -/
def Stops (a : Moment) (fuel : Nat) : Interrupt → Machine → Prop
  | .outOfFuel, _ => ∃ n, fuel ≤ n ∧ (a.after n).isOver = false
  | .failed error, m => a.ComesTo ⟨m, none, [], .failed (.failed error)⟩

variable {fuel : Nat} {why : Interrupt} {m : Machine}

theorem Stops.of_comesTo (h : a.ComesTo b) (hb : b.Stops fuel why m) : a.Stops fuel why m := by
  cases why with
  | failed error => exact h.trans hb
  | outOfFuel =>
    obtain ⟨k, rfl⟩ := h
    obtain ⟨n, hle, hover⟩ := hb
    exact ⟨k + n, by omega, by rwa [after_add]⟩

theorem Stops.of_next (h : a.next? = some b) (hb : b.Stops fuel why m) : a.Stops (fuel + 1) why m := by
  cases why with
  | failed error => exact ComesTo.of_next h hb
  | outOfFuel =>
    obtain ⟨n, hle, hover⟩ := hb
    exact ⟨n + 1, by omega, by rwa [after, h, Option.getD_some]⟩

theorem Stops.of_task {stage : Stage} (hstands : a.Stands)
    (h : a.ComesTo (ofResult [] stage (.error why m))) : a.Stops fuel why m := by
  obtain ⟨error, rfl⟩ := (hstands.comesTo h).error_of_failed rfl
  exact h

theorem wakeDue_ends (fuel : Nat) (m : Machine) (hpanic : m.panic = none) :
    Outcome (fun _ m' => ComesTo ⟨m, none, [], .due⟩ ⟨m', none, [], .due⟩ ∧ m'.fibers.filter (·.isDue m'.host.now) = [])
      (Stops ⟨m, none, [], .due⟩ fuel) (wakeDue fuel m) := by
  induction fuel generalizing m with
  | zero => exact ⟨0, Nat.le_refl 0, isOver_of_isOpen rfl⟩
  | succ fuel ih =>
    rw [wakeDue, bind_iff, get_iff, ite_iff]
    constructor
    · intro hdue
      have hnext : next? ⟨m, none, [], .due⟩ = some ⟨m, none,
          [.runDue m.host.now ((m.fibers.filter (·.isDue m.host.now)).map (·.id))], .due⟩ := by
        simp only [next?, proceed, hdue, if_pos]
      have hruns := Task.runs (.runDue m.host.now ((m.fibers.filter (·.isDue m.host.now)).map (·.id))) m [] .due
      have hstands : Stands ⟨m, none, [.runDue m.host.now ((m.fibers.filter (·.isDue m.host.now)).map (·.id))], .due⟩ :=
        .live hpanic rfl
      rw [Task.act] at hruns
      rw [bind_iff]
      cases hresult : runDue m.host.now ((m.fibers.filter (·.isDue m.host.now)).map (·.id)) m with
      | error why m' =>
        rw [hresult] at hruns
        exact .of_next hnext (.of_task hstands hruns)
      | ok u m' =>
        rw [hresult] at hruns
        have hpanic' : m'.panic = none := (hstands.comesTo hruns).panic rfl
        refine (ih m' hpanic').mono ?_ ?_
        · exact fun _ _ h => ⟨.of_next hnext (hruns.trans h.1), h.2⟩
        · exact fun _ _ h => .of_next hnext (.of_comesTo hruns h)
    · intro hdue
      refine ⟨.refl _, ?_⟩
      rwa [Bool.not_eq_true, Bool.not_eq_false', List.isEmpty_iff] at hdue

theorem settle_ends (fuel : Nat) (m : Machine) (hpanic : m.panic = none) :
    Outcome (fun _ m' => ComesTo ⟨m, none, [], .signals⟩ ⟨m', none, [], .done⟩)
      (Stops ⟨m, none, [], .signals⟩ fuel) (settle fuel m) := by
  induction fuel generalizing m with
  | zero => exact ⟨0, Nat.le_refl 0, rfl⟩
  | succ fuel ih =>
    have hruns := Task.runs (.wakeSignalled m.signals) { m with signals := [] } [] .timers
    have hstands : Stands ⟨{ m with signals := [] }, none, [.wakeSignalled m.signals], .timers⟩ :=
      .live hpanic rfl
    rw [Task.act] at hruns
    rw [settle, bind_iff, get_iff, bind_iff, modify_iff, bind_iff]
    cases hresult : Scheduling.wakeSignalled m.signals { m with signals := [] } with
    | error why m' =>
      rw [hresult] at hruns
      exact .of_next rfl (.of_task hstands hruns)
    | ok u m' =>
      rw [hresult] at hruns
      have hpanic' : m'.panic = none := (hstands.comesTo hruns).panic rfl
      have htimers : ComesTo ⟨{ m with signals := [] }, none, [.wakeSignalled m.signals], .timers⟩
          ⟨{ m' with packet := {} }, none, [], .due⟩ := hruns.trans (.of_next rfl (.refl _))
      rw [ok_iff, bind_iff, modify_iff, bind_iff]
      refine (wakeDue_ends fuel { m' with packet := {} } hpanic').mono ?_ ?_
      · rintro _ m'' ⟨hcomes, hdue⟩
        have hpanic'' : m''.panic = none :=
          ((hstands.comesTo htimers).comesTo hcomes).panic rfl
        have hscan : next? ⟨m'', none, [], .due⟩ =
            if !m''.signals.isEmpty && m''.panic.isNone then some ⟨m'', none, [], .signals⟩
            else some ⟨m'', none, [], .done⟩ := by
          simp only [next?, proceed, hdue, List.isEmpty_nil, Bool.not_true, Bool.false_eq_true, if_false]
        rw [bind_iff, get_iff, ite_iff]
        constructor
        · intro hsignals
          rw [if_pos hsignals] at hscan
          have hagain := (htimers.trans hcomes).trans (.of_next hscan (.refl _))
          refine (ih m'' hpanic'').mono ?_ ?_
          · exact fun _ _ h => .of_next rfl (hagain.trans h)
          · exact fun _ _ h => .of_next rfl (.of_comesTo hagain h)
        · intro hsignals
          rw [if_neg hsignals] at hscan
          exact .of_next rfl ((htimers.trans hcomes).trans (.of_next hscan (.refl _)))
      · exact fun _ _ h => .of_next rfl (.of_comesTo htimers h)

end Moment

namespace HostCall

open Moment

/-- What a call does before everything settles. -/
def task (m : Machine) : HostCall → Task
  | .start => .startMain
  | .tick => .autobindIfDue
  | .packet p => .deliver p (List.range m.roles.length)
  | .connected => .autobind
  | .disconnected device => .dropDevice device

def first (m : Machine) (call : HostCall) : Moment := ⟨m, none, [call.task m], .signals⟩

theorem run_of_panic {m : Machine} (hpanic : m.panic.isSome = true) (fuel : Nat) (call : HostCall) :
    call.run fuel m = some (.ok (), m) := by
  cases call <;> exact if_pos hpanic

theorem run_eq {m : Machine} (hpanic : m.panic = none) (fuel : Nat) (call : HostCall) :
    call.run fuel m = Machine.conclude ((do (call.task m).act; settle fuel : Scheduling Unit) m) := by
  have hnot : ¬ m.panic.isSome = true := by rw [hpanic]; decide
  cases call <;> exact if_neg hnot

variable {m : Machine} {call : HostCall} {fuel : Nat} {called : Called}

theorem ends (hpanic : m.panic = none) (fuel : Nat) (call : HostCall) :
    Outcome (fun _ m' => (call.first m).ComesTo ⟨m', none, [], .done⟩) (Stops (call.first m) fuel)
      ((do (call.task m).act; settle fuel : Scheduling Unit) m) := by
  have hruns := Task.runs (call.task m) m [] .signals
  have hstands : (call.first m).Stands := .live hpanic rfl
  rw [bind_iff]
  cases hresult : (call.task m).act m with
  | error why m' =>
    rw [hresult] at hruns
    exact .of_task hstands hruns
  | ok u m' =>
    rw [hresult] at hruns
    have hpanic' : m'.panic = none := (hstands.comesTo hruns).panic rfl
    refine (settle_ends fuel m' hpanic').mono ?_ ?_
    · exact fun _ _ h => hruns.trans h
    · exact fun _ _ h => .of_comesTo hruns h

/-- A call that returns is a sequence of moments that ends, and returns what the last one leaves. -/
theorem comesTo_of_run (hpanic : m.panic = none) (hrun : call.run fuel m = some called) :
    ∃ a, (call.first m).ComesTo a ∧ a.isOver = true ∧ Machine.conclude a.result = some called := by
  have hends := ends hpanic fuel call
  rw [run_eq hpanic] at hrun
  cases hresult : (do (call.task m).act; settle fuel : Scheduling Unit) m with
  | ok u m' =>
    rw [hresult] at hends hrun
    exact ⟨_, hends, rfl, hrun⟩
  | error why m' =>
    rw [hresult] at hends hrun
    cases why with
    | outOfFuel => cases hrun
    | failed error => exact ⟨_, hends, rfl, hrun⟩

theorem rest_of_run {m' : Machine} {outcome : Except MachineError Unit} (hpanic : m.panic = none)
    (hrun : call.run fuel m = some (outcome, m')) (hpanic' : m'.panic = none) :
    ∃ m'', (call.first m).ComesTo (.rest m'') ∧ m''.panic = none ∧ m''.Settled ∧ m' = { m'' with overrun := none } := by
  obtain ⟨a, hcomes, hover, hresult⟩ := comesTo_of_run hpanic hrun
  have hstands : a.Stands := Stands.comesTo (.live hpanic rfl) hcomes
  cases hstands with
  | live hlive hstage =>
    rw [isOver_of_isOpen hstage] at hover
    cases hover
  | done hlive hrest hsettled =>
    rw [hrest] at hcomes hresult
    cases hresult
    exact ⟨a.machine, hcomes, hlive, hsettled, rfl⟩
  | failed error hstopped hfailed =>
    rw [hfailed] at hresult
    cases hresult
    rw [hpanic'] at hstopped
    cases hstopped

theorem unfinished_of_run (hpanic : m.panic = none) (hrun : call.run fuel m = none) :
    ∃ n, fuel ≤ n ∧ ((call.first m).after n).isOver = false := by
  have hends := ends hpanic fuel call
  rw [run_eq hpanic] at hrun
  cases hresult : (do (call.task m).act; settle fuel : Scheduling Unit) m with
  | ok u m' => rw [hresult] at hrun; cases hrun
  | error why m' =>
    rw [hresult] at hends hrun
    cases why with
    | outOfFuel => exact hends
    | failed error => cases hrun

theorem returns_iff (hpanic : m.panic = none) :
    (∃ fuel, (call.run fuel m).isSome = true) ↔ ∃ n, ((call.first m).after n).isOver = true := by
  constructor
  · rintro ⟨fuel, hsome⟩
    obtain ⟨called, hrun⟩ := Option.isSome_iff_exists.1 hsome
    obtain ⟨a, ⟨n, rfl⟩, hover, -⟩ := comesTo_of_run hpanic hrun
    exact ⟨n, hover⟩
  · rintro ⟨n, hover⟩
    refine ⟨n, ?_⟩
    cases hrun : call.run n m with
    | some called => rfl
    | none =>
      obtain ⟨k, hle, hnot⟩ := unfinished_of_run hpanic hrun
      obtain ⟨l, rfl⟩ := Nat.exists_eq_add_of_le hle
      rw [after_add, after_of_isOver hover, hover] at hnot
      cases hnot

end HostCall

end BusScript
