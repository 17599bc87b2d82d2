import BusScript.Proofs.Containment
import BusScript.Proofs.Settling

namespace BusScript

namespace Moment

variable {a b : Moment}

structure Endless (a : Moment) : Prop where
  stands : a.Stands
  goesOn : ∀ n, (a.after n).isOver = false
  kempt : ∀ n, (a.after n).machine.panic = none → (a.after n).machine.Kempt

namespace Endless

variable (h : a.Endless)
include h

theorem after (n : Nat) : (a.after n).Endless := by
  refine ⟨h.stands.after n, fun k => ?_, fun k => ?_⟩
  · rw [← after_add]
    exact h.goesOn (n + k)
  · rw [← after_add]
    exact h.kempt (n + k)

theorem not_failed (n : Nat) : ¬ (a.after n).HasFailed := by
  intro hfailed
  have hover := (h.stands.after n).isOver_of_failed hfailed
  rw [h.goesOn n] at hover
  cases hover

theorem live : a.machine.panic = none ∧ a.stage.isOpen = true := by
  have hgoesOn := h.goesOn 0
  cases h.stands with
  | live hpanic hstage => exact ⟨hpanic, hstage⟩
  | done _ hrest =>
    rw [hrest] at hgoesOn
    cases hgoesOn
  | failed _ _ hfailed =>
    rw [hfailed] at hgoesOn
    cases hgoesOn

theorem next : a.next? = some (a.after 1) := by
  have hgoesOn := h.goesOn 0
  rw [Moment.after, isOver, Option.isNone_eq_false_iff] at hgoesOn
  obtain ⟨b, hnext⟩ := Option.isSome_iff_exists.1 hgoesOn
  rw [Moment.after, hnext]
  rfl

theorem steps (n : Nat) : (a.after n).Steps (a.after (n + 1)) := by
  rw [after_add]
  exact steps_of_next (h.after n).live.1 (h.after n).next

theorem idles : ∃ n m, a.after n = ⟨m, none, [], a.stage⟩ := by
  -- what a fiber or a task leaves
  have hresult {b : Moment} (tasks : List Task) (r : EStateM.Result Interrupt Machine Unit) (stage : Stage)
      (hb : b.Endless) (hcomes : b.ComesTo (ofResult tasks stage r)) :
      ∃ n m, b.after n = ⟨m, none, tasks, stage⟩ := by
    obtain ⟨n, hn⟩ := hcomes
    cases r with
    | ok u m => exact ⟨n, m, hn⟩
    | error why m => exact (hb.not_failed n ⟨why, by rw [hn]; rfl⟩).elim
  have htasks (tasks : List Task) {m : Machine} {stage : Stage} (hb : Endless ⟨m, none, tasks, stage⟩) :
      ∃ n m', Moment.after ⟨m, none, tasks, stage⟩ n = ⟨m', none, [], stage⟩ := by
    induction tasks generalizing m with
    | nil => exact ⟨0, m, rfl⟩
    | cons task tasks ih =>
      obtain ⟨n, m', hn⟩ := hresult tasks _ stage hb (task.runs m tasks stage)
      obtain ⟨k, m'', hk⟩ := ih (hn ▸ hb.after n)
      exact ⟨n + k, m'', by rw [after_add, hn, hk]⟩
  obtain ⟨m, turn, tasks, stage⟩ := a
  cases turn with
  | none => exact htasks tasks h
  | some turn =>
    obtain ⟨n, m', hn⟩ := hresult tasks _ stage h (comesTo_runWords turn.pass turn.index turn.budget turn.left m)
    obtain ⟨k, m'', hk⟩ := htasks tasks (hn ▸ h.after n)
    exact ⟨n + k, m'', by rw [after_add, hn, hk]⟩

theorem comes_due_of_timers (hstage : a.stage = .timers) : ∃ n m, a.after n = ⟨m, none, [], .due⟩ := by
  obtain ⟨n, m, hn⟩ := h.idles
  rw [hstage] at hn
  exact ⟨n + 1, { m with packet := {} }, by rw [after_add, hn]; rfl⟩

theorem comes_due : ∃ n m, a.after n = ⟨m, none, [], .due⟩ := by
  obtain ⟨n, m, hn⟩ := h.idles
  have hopen := h.live.2
  cases hstage : a.stage with
  | due =>
    rw [hstage] at hn
    exact ⟨n, m, hn⟩
  | timers => exact h.comes_due_of_timers hstage
  | signals =>
    rw [hstage] at hn
    obtain ⟨k, m', hk⟩ := (h.after (n + 1)).comes_due_of_timers (by rw [after_add, hn]; rfl)
    exact ⟨n + 1 + k, m', by rw [after_add, hk]⟩
  | done | failed => rw [hstage] at hopen; cases hopen

end Endless

theorem Steps.signals (h : a.Steps b) (hcalm : a.rouses = false) (ha : a.machine.signals = []) :
    b.HasFailed ∨ b.machine.signals = [] := by
  have hdid {turn : Turn} {left : Nat} {flow : Flow} {m' : Machine} (hturn : a.turn = some turn)
      (hleft : turn.left = left + 1) (hdid : Stepping.Did turn.index a.machine flow m') : m'.signals = [] := by
    obtain ⟨hcall, hsend⟩ := calm_of_turn hcalm hturn (by omega)
    cases hdid with
    | computes _ _ _ h => rw [h.rest]; exact ha
    | starts hstarts => rw [hcall] at hstarts; cases hstarts
    | signals hasync => exact (hsend _ hasync).elim
    | _ => exact ha
  have hleave (pass : Pass) {m' : Machine} (hm' : m'.signals = []) : (pass.leave m').signals = [] := by
    cases pass <;> exact hm'
  have hresumed {pass : Pass} {index : Nat} {goesOn : Bool} {m' : Machine}
      (h : Stepping.Resumed index (pass.enter a.machine) goesOn m') : m'.signals = [] := by
    cases pass <;> cases h <;> exact ha
  cases h with
  | word hturn hleft hword => exact .inr (hdid hturn hleft hword)
  | parks hturn hleft hword =>
    have hsignals := hdid hturn hleft hword
    exact .inr (hleave _ hsignals)
  | repeats hturn hleft hword hfinished =>
    have hsignals := hdid hturn hleft hword
    cases hfinished
    exact .inr hsignals
  | ends hturn hleft hword hfinished =>
    have hsignals := hdid hturn hleft hword
    cases hfinished
    exact .inr (hleave _ hsignals)
  | overruns => exact .inr (hleave _ ha)
  | goesOn _ hgoesOn => exact .inr (hresumed hgoesOn)
  | stays _ hstays =>
    have hsignals := hresumed hstays
    exact .inr (hleave _ hsignals)
  | starts _ _ hstarted => cases hstarted <;> exact .inr ha
  | plans _ hplans =>
    generalize a.machine = m at hplans ha
    generalize a.tasks = tasks at hplans
    generalize a.stage = stage at hplans
    cases hplans with
    | signals => exact .inr rfl
    | _ => exact .inr ha
  | fails => exact .inl ⟨_, rfl⟩

namespace Endless

variable (h : a.Endless) (hcalm : ∀ n, (a.after n).rouses = false)
include h hcalm

theorem signals_after (ha : a.machine.signals = []) (n : Nat) : (a.after n).machine.signals = [] := by
  induction n with
  | zero => exact ha
  | succ n ih => exact ((h.steps n).signals (hcalm n) ih).resolve_left (h.not_failed _)

theorem settles (n : Nat) (hn : (a.after n).Timed) :
    (a.after (n + 1)).stage = .signals ∧ (a.after n).machine.signals ≠ [] ∨
      (a.after (n + 1)).Timed ∧ (a.after (n + 1)).unrest ≤ (a.after n).unrest ∧
        ((a.after n).Resumes → (a.after (n + 1)).unrest < (a.after n).unrest) := by
  have hkempt := h.kempt n (h.after n).live.1
  rcases (h.steps n).settles hn hkempt (hcalm n) with hfailed | ⟨-, -, -, hdone | hsignals⟩ | htimed
  · exact (h.not_failed _ hfailed).elim
  · have hopen := (h.after (n + 1)).live.2
    rw [hdone] at hopen
    cases hopen
  · exact .inl hsignals
  · exact .inr htimed

theorem timed_of_signals (ha : a.Timed) (hsignals : a.machine.signals = []) (n : Nat) : (a.after n).Timed := by
  induction n with
  | zero => exact ha
  | succ n ih =>
    rcases h.settles hcalm n ih with ⟨-, hnot⟩ | ⟨htimed, -⟩
    · exact (hnot (h.signals_after hcalm hsignals n)).elim
    · exact htimed

theorem comes_timed : ∃ n, ∀ k, (a.after (n + k)).Timed := by
  have htimed (m : Machine) : Timed ⟨m, none, [], .due⟩ := ⟨rfl, by rintro _ ⟨⟩, by rintro _ ⟨⟩⟩
  obtain ⟨n, m, hn⟩ := h.comes_due
  by_cases hall : ∀ k, (a.after (n + k)).Timed
  · exact ⟨n, hall⟩
  · -- the first moment that is not one of the pass delivers all signals, and no new ones come
    classical
    obtain ⟨k, hk, hleast⟩ : ∃ k, ¬ (a.after (n + k)).Timed ∧ ∀ j < k, (a.after (n + j)).Timed := by
      have hex := not_forall.1 hall
      exact ⟨Nat.find hex, Nat.find_spec hex, fun j hj => not_not.1 (Nat.find_min hex hj)⟩
    obtain ⟨j, rfl⟩ : ∃ j, k = j + 1 := by
      refine Nat.exists_eq_succ_of_ne_zero fun hzero => hk ?_
      simp_all
    obtain ⟨hstage, -⟩ := (h.settles hcalm (n + j) (hleast j (Nat.lt_succ_self j))).resolve_right fun hnot => hk hnot.1
    have hb := h.after (n + j + 1)
    obtain ⟨i, m', hi⟩ := hb.idles
    rw [hstage] at hi
    have hc := hb.after (i + 1)
    have hempty : ((a.after (n + j + 1)).after (i + 1)).machine.signals = [] := by
      rw [after_add, hi]
      rfl
    obtain ⟨l, m'', hl⟩ := hc.comes_due
    have hcalm' (n' k' : Nat) (x : Nat) : (((a.after n').after k').after x).rouses = false := by
      rw [← after_add, ← after_add]
      exact hcalm _
    refine ⟨n + j + 1 + (i + 1) + l, fun x => ?_⟩
    rw [after_add, after_add, after_add]
    refine (hc.after l).timed_of_signals (fun y => ?_) ?_ ?_ x
    · rw [← after_add]
      exact hcalm' _ _ _
    · rw [hl]
      exact htimed m''
    · exact hc.signals_after (hcalm' _ _) hempty l

theorem comes_still : ∃ n, ∀ k, (a.after (n + k)).Timed ∧ ¬ (a.after (n + k)).Resumes := by
  obtain ⟨n, hn⟩ := h.comes_timed hcalm
  have hstep (k : Nat) := ((h.settles hcalm (n + k) (hn k)).resolve_left fun hnot => by
    have hstage := (hn (k + 1)).stage
    grind)
  have hanti : Antitone fun k => (a.after (n + k)).unrest := antitone_nat_of_succ_le fun k => (hstep k).2.1
  obtain ⟨l, hl⟩ := WellFoundedLT.antitone_chain_condition hanti
  refine ⟨n + l, fun k => ?_⟩
  rw [Nat.add_assoc]
  refine ⟨hn (l + k), fun hresumes => ?_⟩
  have hlt := (hstep (l + k)).2.2 hresumes
  have hsame := (hl (l + k) (Nat.le_add_right ..)).symm.trans (hl (l + k + 1) (by omega))
  exact absurd hsame hlt.ne'

end Endless

theorem Endless.resumes_of_nodup (h : a.Endless) (hidle : ∃ m, a = ⟨m, none, [], .due⟩)
    (hnext : (a.after 1).Timed) (hids : (a.machine.fibers.map (·.id)).Nodup) : (a.after 1).Resumes := by
  obtain ⟨m, rfl⟩ := hidle
  have hpanic := h.live.1
  have hstep := h.next
  cases hdue : m.fibers.filter (·.isDue m.host.now) with
  | nil =>
    -- the pass would be over
    have hstage := hnext.stage
    cases hsignals : (!m.signals.isEmpty && m.panic.isNone) <;>
      simp only [Moment.after, next?, proceed, hdue, hsignals, List.isEmpty_nil, Bool.not_true, Bool.false_eq_true,
        if_false, if_true, Option.getD_some] at hstage <;>
      cases hstage
  | cons f rest =>
    have hscan : Moment.after ⟨m, none, [], .due⟩ 1 =
        ⟨m, none, [.runDue m.host.now (f.id :: rest.map (·.id))], .due⟩ := by
      simp only [Moment.after, next?, proceed, hdue]
      rfl
    obtain ⟨hmem, hisDue⟩ := List.mem_filter.1 (hdue ▸ List.mem_cons_self : f ∈ m.fibers.filter _)
    have hsome : (m.fibers.findIdx? (·.id == f.id)).isSome = true := by grind
    obtain ⟨index, hindex⟩ := Option.isSome_iff_exists.1 hsome
    obtain ⟨hlt, hid, -⟩ := List.findIdx?_eq_some_iff_getElem.1 hindex
    have hfound : m.fibers[index] = f :=
      List.inj_on_of_nodup_map hids (List.getElem_mem hlt) hmem (beq_iff_eq.1 hid)
    rw [hscan]
    exact ⟨.timer, index, _, .due rfl rfl hindex (List.getElem?_eq_getElem hlt) (hfound ▸ hisDue)⟩

theorem resumes_of_turn (hpanic : a.machine.panic = none) (hnext : a.next? = some b) (ha : a.turn = none)
    (hb : b.turn ≠ none) : a.Resumes := by
  cases steps_of_next hpanic hnext with
  | word hturn | repeats hturn => rw [ha] at hturn; cases hturn
  | goesOn hwakes => exact ⟨_, _, _, hwakes⟩
  | _ => exact (hb rfl).elim

theorem turn_after_still (hstands : a.Stands) (hstill : ∀ n, ¬ (a.after n).Resumes) (hturn : a.turn = none) (n : Nat) :
    (a.after n).turn = none := by
  induction n with
  | zero => exact hturn
  | succ n ih =>
    rw [after_add]
    cases hnext : (a.after n).next? with
    | none => rwa [after, hnext]
    | some b =>
      rw [after, hnext]
      have hpanic : (a.after n).machine.panic = none := by
        cases hstands.after n with
        | live hpanic | done hpanic => exact hpanic
        | failed _ _ hfailed => rw [hfailed] at hnext; cases hnext
      exact not_not.1 fun hb => hstill n (resumes_of_turn hpanic hnext ih hb)

/-- A fiber that runs comes to an end of its turn. So if no fiber comes up, no words are run in the end. -/
theorem calm_of_still (hstands : a.Stands) (hstill : ∀ n, ¬ (a.after n).Resumes) :
    ∃ n, ∀ k, (a.after (n + k)).rouses = false := by
  obtain ⟨n, hn⟩ : ∃ n, (a.after n).turn = none := by
    cases hturn : a.turn with
    | none => exact ⟨0, hturn⟩
    | some turn =>
      obtain ⟨m, _, tasks, stage⟩ := a
      cases hturn
      obtain ⟨n, hn⟩ : ComesTo ⟨m, some turn, tasks, stage⟩ _ :=
        comesTo_runWords turn.pass turn.index turn.budget turn.left m
      refine ⟨n, ?_⟩
      rw [hn]
      generalize turn.pass.leaves _ = r
      cases r <;> rfl
  refine ⟨n, fun k => ?_⟩
  have hnone := turn_after_still (hstands.after n) (fun k => by rw [← after_add]; exact hstill (n + k)) hn k
  rw [after_add, rouses, hnone]
  rfl

theorem Resumes.not_over (h : a.Resumes) : a.isOver = false := by
  obtain ⟨_, _, _, hwakes⟩ := h
  rw [isOver, next?]
  cases hwakes with
  | due hturn htasks | observer hturn htasks => rw [hturn, htasks]; rfl

theorem not_rouses_of_isOver (hover : a.isOver = true) : a.rouses = false := by
  rw [isOver, next?] at hover
  rw [rouses]
  cases hturn : a.turn with
  | none => rfl
  | some turn => rw [hturn] at hover; cases hover

section

variable (hstands : a.Stands) (hkempt : ∀ n, (a.after n).machine.panic = none → (a.after n).machine.Kempt)
include hstands hkempt

/-- If there are no more commands and background calls, then in the end no fiber comes up. -/
theorem still_of_calm (hcalm : ∃ n, ∀ k, (a.after (n + k)).rouses = false) : ∃ n, ∀ k, ¬ (a.after (n + k)).Resumes := by
  by_cases hover : ∃ n, (a.after n).isOver = true
  · obtain ⟨n, hn⟩ := hover
    refine ⟨n, fun k hresumes => ?_⟩
    rw [after_add, after_of_isOver hn] at hresumes
    rw [hresumes.not_over] at hn
    cases hn
  · obtain ⟨n, hn⟩ := hcalm
    have hendless : a.Endless := ⟨hstands, fun n => Bool.eq_false_of_not_eq_true (not_exists.1 hover n), hkempt⟩
    obtain ⟨l, hl⟩ := (hendless.after n).comes_still fun k => by rw [← after_add]; exact hn k
    refine ⟨n + l, fun k => ?_⟩
    rw [Nat.add_assoc, after_add]
    exact (hl k).2

theorem isOver_of_calm (hids : ∀ n, ((a.after n).machine.fibers.map (·.id)).Nodup)
    (hcalm : ∃ n, ∀ k, (a.after (n + k)).rouses = false) : ∃ n, (a.after n).isOver = true := by
  by_contra hover
  obtain ⟨n, hn⟩ := hcalm
  have hendless : a.Endless := ⟨hstands, fun n => Bool.eq_false_of_not_eq_true (not_exists.1 hover n), hkempt⟩
  obtain ⟨l, hl⟩ := (hendless.after n).comes_still fun k => by rw [← after_add]; exact hn k
  -- at the next scan the first fiber that is due comes up
  obtain ⟨i, m, hi⟩ := ((hendless.after n).after l).idles
  have hlast : ((a.after n).after l).stage = .due := (hl 0).1.stage
  rw [hlast] at hi
  have hscan := (((hendless.after n).after l).after i).resumes_of_nodup ⟨m, hi⟩
    (by rw [← after_add, ← after_add]; exact (hl (i + 1)).1)
    (by rw [← after_add, ← after_add]; exact hids _)
  rw [← after_add, ← after_add] at hscan
  exact (hl (i + 1)).2 hscan

end

end Moment

namespace Machine

open Moment

variable {bytes : Bytes} {host : Host} {config : Config} {random : Random} {m m' : Machine}
  {record : List (Nat × Packet)}

/-- Only commands and background calls keep a call busy. While the clock leaves room for the settings, all times fit.
In every call fibers come up finitely often if and only if
finitely many words send commands or start fibers; and if no two fibers ever have the same id, the call returns if and
only if there are finitely many of these words. After a panic calls return at once. -/
theorem calls_return_unless_kept_busy (hnew : Machine.new bytes host config random = .ok m)
    (hpatient : config.Patient) (hrecorded : m.Recorded record m') (call : HostCall) :
    (∀ last a, config.LeavesRoom last → ReachedBy last m a → a.machine.panic = none → a.machine.TimesFit) ∧
    (m'.panic.isSome = true → ∀ fuel, call.run fuel m' = some (.ok (), m')) ∧
    (m'.panic = none →
      ({n | ((call.first m').after n).Resumes}.Finite ↔ {n | ((call.first m').after n).rouses = true}.Finite) ∧
      ((∀ n, (((call.first m').after n).machine.fibers.map (·.id)).Nodup) →
        ((∃ fuel, (call.run fuel m').isSome = true) ↔ {n | ((call.first m').after n).rouses = true}.Finite))) := by
  refine ⟨fun last a hroom hreached hpanic => (hreached.timely hnew hroom hpanic).timesFit,
    fun hpanic fuel => HostCall.run_of_panic hpanic fuel call, fun hpanic => ?_⟩
  have hstands : (call.first m').Stands := .live hpanic rfl
  have hreached : Reached m (call.first m') := (reached_of_recorded hrecorded).follows (.call hpanic call)
  have hkempt (n : Nat) := (hreached.comesTo ⟨n, rfl⟩).kempt hnew hpatient
  rw [finite_iff, finite_iff, HostCall.returns_iff hpanic]
  simp only [Bool.not_eq_true]
  refine ⟨⟨fun ⟨n, hn⟩ => ?_, still_of_calm hstands hkempt⟩, fun hids => ⟨fun ⟨n, hn⟩ => ?_, ?_⟩⟩
  · obtain ⟨l, hl⟩ := calm_of_still (hstands.after n) fun k => by rw [← after_add]; exact hn k
    exact ⟨n + l, fun k => by rw [Nat.add_assoc, after_add]; exact hl k⟩
  · refine ⟨n, fun k => ?_⟩
    rw [after_add, after_of_isOver hn]
    exact not_rouses_of_isOver hn
  · exact isOver_of_calm hstands hkempt hids

end Machine

/-- A script begins to read a register before there is a servo. When the servo appears, fibers come up finitely often,
as the call returns. -/
theorem calls_return_unless_kept_busy_reading :
    ∃ compiled m m', compile Catalog.builtin {} rereadingScript = .ok compiled ∧
      Machine.new compiled.image servoHost {} (.ofSeed 1) = .ok m ∧ Config.Patient {} ∧
      Config.LeavesRoom {} 1000 ∧ Moment.ReachedBy 1000 m (.rest m) ∧ m.TimesFit ∧ m.Recorded [] m' ∧
      m'.panic = none ∧ (HostCall.connected.run 64 m').isSome = true ∧
      {n | ((HostCall.connected.first m').after n).Resumes}.Finite := by
  have hplays : playsTo rereadingScript servoHost [.call .start] (fun record m' => record = [] ∧
      m'.panic = none ∧ (HostCall.connected.run 64 m').isSome = true) = true := by
    decide +kernel
  obtain ⟨compiled, m, record, m', hcompile, hnew, hrecorded, hcheck⟩ := exists_of_playsTo hplays
  obtain ⟨rfl, hpanic, hrun⟩ := of_decide_eq_true hcheck
  have hpatient : Config.Patient {} := ⟨by decide, by decide, by decide, by decide⟩
  have hroom : Config.LeavesRoom {} 1000 := by constructor <;> decide
  have hnew' : m.panic = none ∧ m.host.now ≤ 1000 := by
    obtain ⟨image, -, -, rfl⟩ := Machine.eq_of_new hnew
    exact ⟨rfl, Nat.zero_le _⟩
  have hreached : Moment.ReachedBy 1000 m (.rest m) := .refl hnew'.2
  obtain ⟨hfits, -, hcalls⟩ := Machine.calls_return_unless_kept_busy hnew hpatient hrecorded .connected
  obtain ⟨hbusy, -⟩ := hcalls hpanic
  refine ⟨compiled, m, m', hcompile, hnew, hpatient, hroom, hreached, hfits 1000 _ hroom hreached hnew'.1,
    hrecorded, hpanic, hrun, ?_⟩
  obtain ⟨n, hn⟩ := (HostCall.returns_iff hpanic).1 ⟨64, hrun⟩
  refine hbusy.2 (finite_iff.2 ⟨n, fun k => ?_⟩)
  rw [Moment.after_add, Moment.after_of_isOver hn, Moment.not_rouses_of_isOver hn]
  exact Bool.false_ne_true

namespace Moment

variable {a : Moment}

theorem after_period {n p : Nat} (h : a.after (n + p) = a.after n) (k i : Nat) :
    a.after (n + p * k + i) = a.after (n + i) := by
  induction k with
  | zero => rfl
  | succ k ih =>
    rw [show n + p * (k + 1) + i = n + p + (p * k + i) by rw [Nat.mul_succ]; omega, after_add, h, ← after_add,
      ← Nat.add_assoc, ih]

def delivers : Moment → Bool
  | ⟨_, none, [], .signals⟩ => true
  | _ => false

theorem eq_of_delivers (h : a.delivers = true) : a = ⟨a.machine, none, [], .signals⟩ := by
  unfold delivers at h
  split at h
  · rfl
  · cases h

end Moment

/-- The image of a main function that observes a condition, signals it, waits for it and starts over. -/
def restlessImage : Bytes :=
  { ImageTables.ofMain [0xb002, 0x1080, 0xc003, 0xc000, 0x9085, 0xb000] with roles := [Condition.classId] }.image

open Moment in
/-- A program that signals the condition it observes keeps a call busy for ever, though no pause is empty: the fiber
comes up again and again, and the call returns on no fuel. -/
theorem restless_program_never_settles : ∃ m, Machine.new restlessImage {} {} (.ofSeed 1) = .ok m ∧
      m.config.Patient ∧ 0 < m.config.stepBudget ∧ 0 < m.config.autobindInterval ∧
      {n | ((HostCall.start.first m).after n).Resumes}.Infinite ∧ ∀ fuel, HostCall.start.run fuel m = none := by
  -- from the thirteenth moment on the moments repeat
  have hrepeats : (Machine.new restlessImage {} {} (.ofSeed 1)).toOption.any (fun m =>
      let a := HostCall.start.first m
      m.panic.isNone && (a.after 12).delivers && (a.after 25).delivers &&
        decide ((a.after 25).machine = (a.after 12).machine) && (a.after 15).machine.panic.isNone &&
        (a.after 15).turn.isNone && (a.after 16).turn.isSome) = true := by
    decide +kernel
  cases hnew : Machine.new restlessImage {} {} (.ofSeed 1) with
  | error e => rw [hnew] at hrepeats; cases hrepeats
  | ok m =>
    rw [hnew] at hrepeats
    simp only [Except.toOption, Option.any_some, Bool.and_eq_true, Option.isNone_iff_eq_none,
      decide_eq_true_iff] at hrepeats
    obtain ⟨⟨⟨⟨⟨⟨hpanic, hfirst⟩, hsecond⟩, hmachine⟩, hpanic'⟩, hidle⟩, hturn⟩ := hrepeats
    have hperiod := after_period (n := 12) (p := 13) <| by
      rw [eq_of_delivers hfirst, eq_of_delivers hsecond, hmachine]
    have hgoesOn : ((HostCall.start.first m).after 12).isOver = false := by
      rw [eq_of_delivers hfirst]
      rfl
    have hresumes : ((HostCall.start.first m).after 15).Resumes := by
      have hnext : (HostCall.start.first m).after 16 = ((HostCall.start.first m).after 15).after 1 := after_add _ 15 1
      rw [hnext, after] at hturn
      cases hb : ((HostCall.start.first m).after 15).next? with
      | none =>
        rw [hb, Option.getD_none, after, hidle] at hturn
        cases hturn
      | some b =>
        rw [hb, Option.getD_some, after] at hturn
        exact resumes_of_turn hpanic' hb hidle (Option.isSome_iff_ne_none.1 hturn)
    have hconfig := Machine.config_of_new hnew
    refine ⟨m, rfl, ?_, ?_, ?_, Set.infinite_of_forall_exists_gt fun n => ⟨12 + 13 * n + 3, ?_, by omega⟩, fun fuel => ?_⟩
    · rw [hconfig]
      exact ⟨by decide, by decide, by decide, by decide⟩
    · rw [hconfig]
      decide
    · rw [hconfig]
      decide
    · change ((HostCall.start.first m).after (12 + 13 * n + 3)).Resumes
      rw [hperiod n 3]
      exact hresumes
    · refine Option.not_isSome_iff_eq_none.1 fun hsome => ?_
      obtain ⟨n, hover⟩ := (HostCall.returns_iff hpanic).1 ⟨fuel, hsome⟩
      have hlater := hperiod n 0
      rw [show 12 + 13 * n + 0 = n + (12 + 12 * n) by omega, after_add, after_of_isOver hover] at hlater
      rw [hlater, hgoesOn] at hover
      cases hover

end BusScript
