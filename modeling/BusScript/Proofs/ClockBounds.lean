import BusScript.Proofs.Histories

/-!
Times have 64 bits. A machine adds pauses and intervals to the time; as long as the clock and the settings leave room
for them, no sum overflows, so that the times of a machine can be taken for natural numbers.
-/

namespace BusScript

namespace Random

theorem draw_lt {range : Nat} (hrange : 0 < range) (zone tries : Nat) (r : Random) :
    (draw range zone tries r).1 < range := by
  induction tries generalizing r with
  | zero => exact hrange
  | succ tries ih =>
    have hlt : r.next64.1.toNat * range / modulus < range :=
      Nat.div_lt_of_lt_mul (Nat.mul_lt_mul_of_pos_right r.next64.1.toNat_lt hrange)
    simp only [draw]
    split
    · exact hlt
    · exact ih _

theorem between_le (r : Random) {low high : Nat} (hle : low ≤ high) (hhigh : high < modulus) :
    (r.between low high).1 ≤ high := by
  unfold between
  extract_lets range zone
  have hrange : range = high - low + 1 := rfl
  by_cases hwide : modulus ≤ range
  · rw [if_pos hwide]
    have hbits : r.next64.1.toNat < modulus := r.next64.1.toNat_lt
    change r.next64.1.toNat ≤ high
    omega
  · rw [if_neg hwide]
    have hlt := draw_lt (show 0 < range by omega) zone maxTries r
    -- with the outcome of the tries left open, so that none is worked out
    generalize draw range zone maxTries r = drawn at hlt ⊢
    obtain ⟨offset, r'⟩ := drawn
    change low + offset ≤ high
    change offset < range at hlt
    omega

end Random

/-- Room behind `last` for all that is added to the time: no such sum takes more than 64 bits. -/
structure Config.LeavesRoom (c : Config) (last : Nat) : Prop where
  /-- The operand of a pause has 32 bits. -/
  pause : last + 2 ^ 32 ≤ 2 ^ 64
  autobind : last + c.autobindInterval < 2 ^ 64
  backoffMin : c.backoffMin ≤ c.backoffMax
  backoffMax : last + c.backoffMax < 2 ^ 64
  resend : last + max c.resendInitial c.resendMax < 2 ^ 64
  /-- What is asked for again is asked for after twice the time. -/
  twice : 2 * max c.resendInitial c.resendMax < 2 ^ 64

/-- The times of a machine have 64 bits, and so have the sums that it makes when a fiber asks again. -/
structure Machine.TimesFit (m : Machine) : Prop where
  nextAutobind : m.nextAutobind < 2 ^ 64
  wakeAt : ∀ f ∈ m.fibers, ∀ time, f.wakeAt = some time → time < 2 ^ 64
  resend : ∀ f ∈ m.fibers, ∀ role code resend, f.request = some (.query role code resend) →
    m.host.now + resend < 2 ^ 64 ∧ 2 * resend < 2 ^ 64

structure Stance.Timely (c : Config) (st : Stance) : Prop where
  wakeAt : ∀ time, st.wakeAt = some time → time < 2 ^ 64
  resend : ∀ role code resend, st.request = some (.query role code resend) →
    resend ≤ max c.resendInitial c.resendMax

/-- What holds of a machine while the clock is not past `last`. -/
structure Machine.Timely (last : Nat) (m : Machine) : Prop where
  room : m.config.LeavesRoom last
  now : m.host.now ≤ last
  operands : m.operands.Collected
  nextAutobind : m.nextAutobind < 2 ^ 64
  stances : ∀ st ∈ m.stances, st.Timely m.config

namespace Machine

variable {last : Nat} {m : Machine} {bytes : Bytes} {host : Host} {config : Config} {random : Random}

theorem config_of_new (hnew : Machine.new bytes host config random = .ok m) : m.config = config := by
  obtain ⟨image, -, -, rfl⟩ := Machine.eq_of_new hnew
  rfl

theorem Timely.resend_fits (h : m.Timely last) {st : Stance} (hst : st ∈ m.stances) {role resend : Nat}
    {code : CommandCode} (hrequest : st.request = some (.query role code resend)) :
    m.host.now + resend < 2 ^ 64 ∧ 2 * resend < 2 ^ 64 := by
  have hresend := (h.stances st hst).resend role code resend hrequest
  have hroom := h.room.resend
  have htwice := h.room.twice
  have hnow := h.now
  omega

theorem Timely.timesFit (h : m.Timely last) : m.TimesFit := by
  have hmem {f : Fiber} (hf : f ∈ m.fibers) : f.stance ∈ m.stances := List.mem_map_of_mem hf
  exact ⟨h.nextAutobind, fun f hf => (h.stances _ (hmem hf)).wakeAt,
    fun f hf role code resend => h.resend_fits (hmem hf)⟩

end Machine

namespace Stepping

variable {index : Nat} {m m' : Machine} {flow : Flow}

theorem pause_lt {op : AsyncOp} {p : Operands} (hm : m.operands.Collected)
    (hasync : m.nextAsync? index = some (op, p)) : p.a < 2 ^ 32 := by
  obtain ⟨⟨word, q⟩, hnext, hq⟩ := Option.bind_eq_some_iff.1 hasync
  obtain ⟨f, -, hf⟩ := Option.bind_eq_some_iff.1 hnext
  obtain ⟨w, -, hw⟩ := Option.bind_eq_some_iff.1 hf
  have hlt := (hm.resolve w).1
  split at hw <;> cases hw
  split at hq
  · obtain ⟨_, -, heq⟩ := Option.map_eq_some_iff.1 hq
    cases heq
    exact hlt
  · cases hq

theorem Did.collected (h : Did index m flow m') (hm : m.operands.Collected) : m'.operands.Collected := by
  cases h with
  | computes _ _ _ h => exact h.operands hm
  | starts _ _ _ hstart => cases hstart <;> exact .empty
  | _ => exact .empty

end Stepping

namespace Moment

open Machine

variable {last : Nat} {a b : Moment}

theorem Steps.collected (h : a.Steps b) (ha : a.machine.operands.Collected) :
    b.HasFailed ∨ b.machine.operands.Collected := by
  have hleave (pass : Pass) {m : Machine} (hm : m.operands.Collected) : (pass.leave m).operands.Collected := by
    cases pass <;> exact hm
  cases h with
  | word _ _ hdid => exact .inr (hdid.collected ha)
  | repeats _ _ hdid hfinished =>
    cases hfinished
    exact .inr (hdid.collected ha)
  | parks | ends | overruns | stays => exact .inr (hleave _ .empty)
  | @goesOn pass _ _ _ _ _ hresumed =>
    have henter : (pass.enter a.machine).operands.Collected := by cases pass <;> exact ha
    cases hresumed <;> exact .inr henter
  | starts _ _ hstarted => cases hstarted <;> exact .inr ha
  | plans _ hplans => exact .inr (hplans.operands ▸ ha)
  | fails => exact .inl ⟨_, rfl⟩

theorem Plans.config {m m' : Machine} {tasks tasks' : List Task} {stage stage' : Stage}
    (h : Plans m tasks stage m' tasks' stage') : m'.config = m.config := by
  cases h <;> rfl

theorem Steps.config (h : a.Steps b) : b.machine.config = a.machine.config := by
  cases h.outlines with
  | acts habides => exact habides.config
  | plans _ hplans => exact hplans.config
  | fails _ _ hspared => exact hspared.config

theorem Steps.now (h : a.Steps b) : b.machine.host.now = a.machine.host.now := by
  cases h.outlines with
  | acts habides => exact habides.now
  | plans _ hplans => rw [hplans.host]
  | fails _ _ hspared => exact hspared.now

theorem Steps.nextAutobind (h : a.Steps b) : b.HasFailed ∨ b.machine.nextAutobind = a.machine.nextAutobind ∨
    b.machine.nextAutobind = a.machine.host.now + a.machine.config.autobindInterval := by
  cases h.outlines with
  | acts habides => exact .inr (.inl habides.nextAutobind)
  | plans _ hplans =>
    generalize a.machine = m at hplans
    generalize a.tasks = tasks at hplans
    generalize a.stage = stage at hplans
    cases hplans with
    | bindNow => exact .inr (.inr rfl)
    | _ => exact .inr (.inl rfl)
  | fails => exact .inl ⟨_, rfl⟩

theorem Gives.timely {st : Stance} (h : a.Gives st) (ha : a.machine.Timely last) : st.Timely a.machine.config := by
  have hroom := ha.room
  have hnow := ha.now
  have hlt : a.machine.host.now < 2 ^ 64 := by
    have hpause := hroom.pause
    omega
  have hold {st : Stance} (hst : st ∈ a.machine.stances) := ha.stances st hst
  cases h with
  | keeps hst => exact hold hst
  | fresh id => exact ⟨by rintro _ ⟨⟩; exact hlt, by rintro _ _ _ ⟨⟩⟩
  | observes hst => exact ⟨(hold hst).wakeAt, (hold hst).resend⟩
  | pauses hst hasync =>
    refine ⟨fun time htime => ?_, (hold hst).resend⟩
    have hlt := Stepping.pause_lt ha.operands hasync
    have hpause := hroom.pause
    dsimp only at htime
    split at htime
    · cases htime
    · cases htime
      omega
  | uploads hst hconfig =>
    refine ⟨?_, (hold hst).resend⟩
    rintro _ ⟨⟩
    subst hconfig
    have hmax := hroom.backoffMax
    have hmodulus : Random.modulus = 2 ^ 64 := rfl
    have hle := a.machine.random.between_le hroom.backoffMin (by omega)
    omega
  | sends => exact ⟨by rintro _ ⟨⟩; exact hlt, by rintro _ _ _ ⟨⟩⟩
  | asks =>
    refine ⟨by rintro _ ⟨⟩; exact hlt, ?_⟩
    rintro _ _ _ ⟨⟩
    exact Nat.le_max_left ..
  | goesOn => exact ⟨by rintro _ ⟨⟩, by rintro _ _ _ ⟨⟩⟩
  | waits hst => exact ⟨by rintro _ ⟨⟩, (hold hst).resend⟩
  | repeats hst hrequest =>
    refine ⟨?_, ?_⟩
    · rintro _ ⟨⟩
      exact (ha.resend_fits hst hrequest).1
    · rintro _ _ _ ⟨⟩
      exact Nat.le_trans (Nat.min_le_right ..) (Nat.le_max_right ..)

theorem Steps.timely (h : a.Steps b) (ha : a.machine.Timely last) : b.HasFailed ∨ b.machine.Timely last := by
  by_cases hfailed : b.HasFailed
  · exact .inl hfailed
  · have hautobind : b.machine.nextAutobind < 2 ^ 64 := by
      have hroom := ha.room.autobind
      have hnow := ha.now
      rcases h.nextAutobind.resolve_left hfailed with heq | heq
      · exact heq ▸ ha.nextAutobind
      · omega
    refine .inr ⟨h.config ▸ ha.room, h.now ▸ ha.now, (h.collected ha.operands).resolve_left hfailed, hautobind, ?_⟩
    rw [h.config]
    exact fun st hst => (h.gives.resolve_left hfailed st hst).timely ha

/-- A history leads to a moment, and on the way the clock is not past `last`. -/
inductive ReachedBy (last : Nat) (m : Machine) : Moment → Prop
  | refl (hnow : m.host.now ≤ last) : ReachedBy last m (.rest m)
  | follows {a b : Moment} : ReachedBy last m a → a.Follows b → b.machine.host.now ≤ last → ReachedBy last m b
  | reset {m' : Machine} : ReachedBy last m (.rest m') → ReachedBy last m (.rest m'.reset)

variable {m : Machine} {bytes : Bytes} {host : Host} {config : Config} {random : Random}

theorem ReachedBy.reached (h : ReachedBy last m a) : Reached m a := by
  induction h with
  | refl => exact .refl
  | follows _ hfollows _ ih => exact ih.follows hfollows
  | reset _ ih => exact .reset ih

theorem ReachedBy.now_le (h : ReachedBy last m a) : a.machine.host.now ≤ last := by
  induction h with
  | refl hnow | follows _ _ hnow => exact hnow
  | reset _ ih => exact ih

theorem ReachedBy.comesTo (hnew : Machine.new bytes host config random = .ok m) (h : ReachedBy last m a)
    (hcomes : a.ComesTo b) : ReachedBy last m b := by
  obtain ⟨n, rfl⟩ := hcomes
  induction n generalizing a with
  | zero => exact h
  | succ n ih =>
    rw [after]
    cases hnext : a.next? with
    | none => exact ih h
    | some b =>
      have hnow := (steps_of_next ((h.reached.fit hnew).panic_of_next hnext) hnext).now
      exact ih (h.follows (.next hnext) (hnow ▸ h.now_le))

theorem timely_of_idle {m : Machine} (hroom : m.config.LeavesRoom last) (hnow : m.host.now ≤ last)
    (hoperands : m.operands = {}) (hautobind : m.nextAutobind = m.host.now + m.config.autobindInterval)
    (hfibers : m.fibers = []) : m.Timely last := by
  refine ⟨hroom, hnow, hoperands ▸ .empty, ?_, by rw [Machine.stances, hfibers]; rintro _ ⟨⟩⟩
  have hlt := hroom.autobind
  omega

theorem Reached.config_eq (hnew : Machine.new bytes host config random = .ok m) (h : Reached m a) :
    a.machine.config = config := by
  induction h with
  | refl => exact config_of_new hnew
  | follows hreached hfollows ih =>
    cases hfollows with
    | next hnext => exact (steps_of_next ((hreached.fit hnew).panic_of_next hnext) hnext).config.trans ih
    | returns | host | call => exact ih
  | reset _ ih => exact ih

/-- While the clock leaves room for the settings, all times have 64 bits. -/
theorem ReachedBy.timely (hnew : Machine.new bytes host config random = .ok m) (hroom : config.LeavesRoom last)
    (h : ReachedBy last m a) : a.machine.panic = none → a.machine.Timely last := by
  induction h with
  | refl hnow =>
    intro _
    obtain ⟨image, -, -, rfl⟩ := Machine.eq_of_new hnew
    exact timely_of_idle hroom hnow rfl rfl rfl
  | @follows a b hreached hfollows hnow ih =>
    intro hpanic
    have hfit := hreached.reached.fit hnew
    cases hfollows with
    | next hnext =>
      have hpanic' := hfit.panic_of_next hnext
      refine (steps_of_next hpanic' hnext).timely (ih hpanic') |>.resolve_left fun hfailed => ?_
      have hsome := (Follows.fit (.next hnext) hfit).panic_of_failed hfailed
      rw [hpanic] at hsome
      cases hsome
    | returns | host =>
      have hm := ih hpanic
      exact ⟨hm.room, hnow, hm.operands, hm.nextAutobind, hm.stances⟩
    | call => exact ih hpanic
  | reset hreached =>
    intro _
    rw [← hreached.reached.config_eq hnew] at hroom
    exact timely_of_idle hroom hreached.now_le rfl rfl rfl

end Moment

end BusScript
