import BusScript.Proofs.Requests
import BusScript.Proofs.Histories

namespace BusScript

open Stepping (Frames fiber_of_step length_of_finishes length_of_resume other_of_resume relists_of_step same_of_step step stepped_of_step)

namespace Pass

variable (pass : Pass) (m : Machine)

@[simp] theorem fibers_leave : (pass.leave m).fibers = m.fibers := by cases pass <;> rfl

@[simp] theorem registers_leave : (pass.leave m).registers = m.registers := by cases pass <;> rfl

@[simp] theorem registers_enter : (pass.enter m).registers = m.registers := by cases pass <;> rfl

end Pass

namespace Moment

/-- Where the fiber at `j` stands at the next moment `b`. Only a fiber that has its turn goes from the list, and those
behind it then move up. -/
def place? (a b : Moment) (j : Nat) : Option Nat :=
  match a.turn with
  | none => some j
  | some turn =>
    if b.machine.fibers.length < a.machine.fibers.length then
      if j = turn.index then none else some (if turn.index < j then j - 1 else j)
    else some j

variable {a b : Moment} {j k : Nat} {f : Fiber}

theorem turn_of_isOver (hover : a.isOver = true) : a.turn = none := by
  rw [isOver, next?] at hover
  cases hturn : a.turn with
  | none => rfl
  | some turn => rw [hturn] at hover; cases hover

/-- What becomes of the fiber at `j` from one moment to the next, where it stands at `k`. -/
inductive Carries (a b : Moment) (j k : Nat) (f f' : Fiber) : Prop
  /-- It is not its turn. -/
  | rests (hcallers : f'.callers = f.callers) (hframe : f'.frame = f.frame)
      (hother : ∀ turn, a.turn = some turn → turn.index ≠ j) (hidle : ∀ turn, b.turn = some turn → turn.index ≠ k)
  | runs {turn : Turn} {flow : Flow} {m' : Machine} {f1 : Fiber} (hturn : a.turn = some turn) (hindex : turn.index = j)
      (hleft : turn.left ≠ 0) (hstep : step j a.machine = .ok flow m') (hfiber : m'.fibers[j]? = some f1)
      (hregs : b.machine.registers = m'.registers) (hcallers : f'.callers = f1.callers)
      (hframe : f'.frame = f1.frame ∨ f'.frame = f1.frame.restart)
      (hgoes : flow ≠ .park → ∃ turn', b.turn = some turn' ∧ turn'.index = k)
      (hparks : flow = .park → b.turn = none)
  | goesOn {turn : Turn} (hidle : a.turn = none) (hturn : b.turn = some turn) (hindex : turn.index = k)
      (hcallers : f'.callers = f.callers) (hframe : f'.frame = f.frame.restored)
      (hregs : b.machine.registers = f.frame.restoredRegs a.machine.registers)

theorem place?_of_le (hle : a.machine.fibers.length ≤ b.machine.fibers.length) : a.place? b j = some j := by
  rw [place?]
  cases a.turn with
  | none => rfl
  | some turn => exact if_neg (Nat.not_lt.2 hle)

theorem place?_of_erased {turn : Turn} (hturn : a.turn = some turn) {fibers : List Fiber}
    (hlength : fibers.length = a.machine.fibers.length) (hlt : turn.index < fibers.length)
    (hb : b.machine.fibers = fibers.eraseIdx turn.index) (hplace : a.place? b j = some k) :
    turn.index ≠ j ∧ b.machine.fibers[k]? = fibers[j]? := by
  have hshorter : b.machine.fibers.length < a.machine.fibers.length := by
    rw [hb, List.length_eraseIdx_of_lt hlt]
    omega
  rw [place?, hturn] at hplace
  grind

theorem carries_other {f' : Fiber} (hb : b.machine.fibers[k]? = some f') (hsame : f' = f ∨ f' = { f with isPending := true })
    (hother : ∀ turn, a.turn = some turn → turn.index ≠ j) (hidle : ∀ turn, b.turn = some turn → turn.index ≠ k) :
    b.machine.panic.isSome = true ∨ ∃ f', b.machine.fibers[k]? = some f' ∧ f.Same f' ∧ Carries a b j k f f' := by
  right
  rcases hsame with rfl | rfl
  · exact ⟨_, hb, ⟨rfl, rfl⟩, .rests rfl rfl hother hidle⟩
  · exact ⟨_, hb, ⟨rfl, rfl⟩, .rests rfl rfl hother hidle⟩

theorem Steps.carries (h : a.Steps b) (hf : a.machine.fibers[j]? = some f) (hplace : a.place? b j = some k) :
    b.machine.panic.isSome = true ∨ ∃ f', b.machine.fibers[k]? = some f' ∧ f.Same f' ∧ Carries a b j k f f' := by
  have hstays (hle : a.machine.fibers.length ≤ b.machine.fibers.length) : k = j := by
    rw [place?_of_le hle, Option.some.injEq] at hplace
    exact hplace.symm
  have hnone (hturn : a.turn = none) : ∀ turn, a.turn = some turn → turn.index ≠ j := by
    intro turn h
    rw [hturn] at h
    cases h
  have hne {turn : Turn} (hturn : a.turn = some turn) (hindex : turn.index ≠ j) :
      ∀ turn, a.turn = some turn → turn.index ≠ j := by simp_all
  cases h with
  | @word turn left m' hturn hleft _ hstep =>
    have hrelists := relists_of_step hstep
    obtain rfl := hstays hrelists.length_le
    by_cases hindex : turn.index = k
    · subst hindex
      obtain ⟨f', hf', hsame⟩ := same_of_step hf hstep
      exact .inr ⟨f', hf', hsame, .runs hturn rfl (by omega) hstep hf' rfl rfl (.inl rfl) (fun _ => ⟨_, rfl, rfl⟩)
        (by rintro ⟨⟩)⟩
    · obtain ⟨f', hf', hsame⟩ := hrelists.other hindex hf
      exact carries_other hf' hsame (hne hturn hindex) (by rintro _ ⟨⟩; exact hindex)
  | @parks turn left m' hturn hleft _ hstep =>
    have hrelists := relists_of_step hstep
    have hfibers : (turn.pass.leave m'.betweenFibers).fibers = m'.fibers := Pass.fibers_leave ..
    obtain rfl := hstays (hfibers ▸ hrelists.length_le)
    by_cases hindex : turn.index = k
    · subst hindex
      obtain ⟨f', hf', hsame⟩ := same_of_step hf hstep
      exact .inr ⟨f', hfibers ▸ hf', hsame, .runs hturn rfl (by omega) hstep hf' (Pass.registers_leave ..) rfl (.inl rfl)
        (fun hnot => (hnot rfl).elim) fun _ => rfl⟩
    · obtain ⟨f', hf', hsame⟩ := hrelists.other hindex hf
      exact carries_other (hfibers ▸ hf') hsame (hne hturn hindex) (by rintro _ ⟨⟩)
  | @repeats turn left m' m'' hturn hleft _ hfinished hstep =>
    have hrelists := relists_of_step hstep
    cases hfinished
    obtain rfl := hstays (Nat.le_trans hrelists.length_le (Nat.le_of_eq (List.length_modify ..).symm))
    by_cases hindex : turn.index = k
    · subst hindex
      obtain ⟨f', hf', hsame⟩ := same_of_step hf hstep
      exact .inr ⟨_, Machine.getElem?_modified hf' _, ⟨hsame.id, hsame.function⟩, .runs hturn rfl (by omega) hstep hf' rfl
        rfl (.inr rfl) (fun _ => ⟨_, rfl, rfl⟩) (by rintro ⟨⟩)⟩
    · obtain ⟨f', hf', hsame⟩ := hrelists.other hindex hf
      exact carries_other ((List.getElem?_modify_ne _ _ hindex).trans hf') hsame (hne hturn hindex)
        (by rintro _ ⟨⟩; exact hindex)
  | @ends turn left m' m'' hturn hleft _ hfinished hstep =>
    cases hfinished
    have hlength := length_of_finishes hstep
    obtain ⟨f0, hfiber⟩ := fiber_of_step hstep
    have hlt : turn.index < m'.fibers.length := hlength ▸ (List.getElem?_eq_some_iff.1 hfiber).1
    obtain ⟨hindex, hb⟩ := place?_of_erased hturn hlength hlt (Pass.fibers_leave ..) hplace
    obtain ⟨f', hf', hsame⟩ := (relists_of_step hstep).other hindex hf
    exact carries_other (hb.trans hf') hsame (hne hturn hindex) (by rintro _ ⟨⟩)
  | @overruns turn f0 hturn hleft hfiber =>
    have hlt := (List.getElem?_eq_some_iff.1 hfiber).1
    obtain ⟨hindex, hb⟩ := place?_of_erased hturn rfl hlt (Pass.fibers_leave ..) hplace
    exact carries_other (hb.trans hf) (.inl rfl) (hne hturn hindex) (by rintro _ ⟨⟩)
  | @goesOn pass index budget tasks m' hwakes _ _ hresume =>
    have hlength := length_of_resume hresume
    rw [← Pass.fibers_enter pass a.machine] at hf
    obtain rfl := hstays (Nat.le_of_eq (by rw [hlength, Pass.fibers_enter]))
    by_cases hindex : index = k
    · subst hindex
      obtain ⟨f', hf', hsame, hunparks⟩ := Stepping.unparks_of_resume hf hresume
      cases hunparks with
      | goesOn hcallers hframe hregs =>
        rw [Pass.registers_enter] at hregs
        exact .inr ⟨f', hf', hsame, .goesOn hwakes.turn rfl rfl hcallers hframe hregs⟩
    · exact carries_other ((other_of_resume hindex hresume).trans hf) (.inl rfl) (hnone hwakes.turn)
        (by rintro _ ⟨⟩; exact hindex)
  | @stays pass index tasks m' hwakes _ hresume =>
    have hlength := length_of_resume hresume
    have hleave : (pass.leave m'.betweenFibers).fibers = m'.fibers := Pass.fibers_leave ..
    rw [← Pass.fibers_enter pass a.machine] at hf
    obtain rfl := hstays (Nat.le_of_eq (by rw [hleave, hlength, Pass.fibers_enter]))
    by_cases hindex : index = k
    · subst hindex
      obtain ⟨f', hf', hsame, hunparks⟩ := Stepping.unparks_of_resume hf hresume
      cases hunparks with
      | stays hcallers hframe =>
        exact .inr ⟨f', hleave ▸ hf', hsame, .rests hcallers hframe (hnone hwakes.turn) (by rintro _ ⟨⟩)⟩
    · exact carries_other (hleave ▸ (other_of_resume hindex hresume).trans hf) (.inl rfl) (hnone hwakes.turn)
        (by rintro _ ⟨⟩)
  | @starts tasks m' hturn htasks hstarted =>
    obtain rfl := hstays hstarted.length_le
    obtain ⟨f', hf', hsame⟩ := hstarted.fiber hf
    exact carries_other hf' hsame (hnone hturn) (by rintro _ ⟨⟩)
  | @plans m' tasks stage hturn hplans =>
    obtain rfl := hstays (Nat.le_of_eq (by rw [hplans.fibers]))
    exact carries_other (by rw [hplans.fibers, hf]) (.inl rfl) (hnone hturn) (by rintro _ ⟨⟩)
  | fails hpanic => exact .inl hpanic

theorem frames_of_step {flow : Flow} {m' : Machine} {f1 : Fiber} (hf : a.machine.fibers[j]? = some f)
    (hstep : step j a.machine = .ok flow m') (hfiber : m'.fibers[j]? = some f1) :
    Frames a.machine.registers f (a.machine.nextSave? j) flow m'.registers f1 := by
  obtain ⟨f', hf', hframes⟩ := (stepped_of_step hstep).frames f hf
  simp_all

/-- A fiber of the next moment was there before, or it is a new one. -/
def ComesFrom (a b : Moment) (k : Nat) (f' : Fiber) : Prop :=
  f'.IsNew a.machine.image ∨ ∃ j f, a.machine.fibers[j]? = some f ∧ a.place? b j = some k

theorem Steps.origin (h : a.Steps b) {f' : Fiber} (hf' : b.machine.fibers[k]? = some f') :
    b.machine.panic.isSome = true ∨ a.ComesFrom b k f' := by
  have hlt := (List.getElem?_eq_some_iff.1 hf').1
  -- at its place, or behind all that were there
  have hold (hle : a.machine.fibers.length ≤ b.machine.fibers.length)
      (hfresh : a.machine.fibers.length ≤ k → f'.IsNew a.machine.image) :
      b.machine.panic.isSome = true ∨ a.ComesFrom b k f' := by
    by_cases hk : k < a.machine.fibers.length
    · exact .inr (.inr ⟨k, _, List.getElem?_eq_getElem hk, place?_of_le hle⟩)
    · exact .inr (.inl (hfresh (Nat.not_lt.1 hk)))
  have hsame (hlength : b.machine.fibers.length = a.machine.fibers.length) :=
    hold (Nat.le_of_eq hlength.symm) fun hle => (Nat.not_lt.2 hle (hlength ▸ hlt)).elim
  have herased {turn : Turn} (hturn : a.turn = some turn) (hindex : turn.index < a.machine.fibers.length)
      (hlength : b.machine.fibers.length = a.machine.fibers.length - 1) :
      b.machine.panic.isSome = true ∨ a.ComesFrom b k f' := by
    have hshorter : b.machine.fibers.length < a.machine.fibers.length := by omega
    have hplace {l : Nat} (hne : l ≠ turn.index) : a.place? b l = some (if turn.index < l then l - 1 else l) := by
      rw [place?, hturn]
      simp only [if_pos hshorter, if_neg hne]
    by_cases hk : k < turn.index
    · refine .inr (.inr ⟨k, _, List.getElem?_eq_getElem (by omega), ?_⟩)
      rw [hplace (by omega), if_neg (by omega)]
    · refine .inr (.inr ⟨k + 1, _, List.getElem?_eq_getElem (by omega), ?_⟩)
      rw [hplace (by omega), if_pos (by omega), Nat.add_sub_cancel]
  cases h with
  | @word turn left m' hturn hleft _ hstep =>
    have hrelists := relists_of_step hstep
    exact hold hrelists.length_le fun hle => hrelists.fresh_of_le hle hf'
  | @parks turn left m' hturn hleft _ hstep =>
    have hrelists := relists_of_step hstep
    have hfibers : (turn.pass.leave m'.betweenFibers).fibers = m'.fibers := Pass.fibers_leave ..
    exact hold (hfibers ▸ hrelists.length_le) fun hle => hrelists.fresh_of_le hle (hfibers ▸ hf')
  | @repeats turn left m' m'' hturn hleft _ hfinished hstep =>
    cases hfinished
    exact hsame ((List.length_modify ..).trans (length_of_finishes hstep))
  | @ends turn left m' m'' hturn hleft _ hfinished hstep =>
    cases hfinished
    have hlength := length_of_finishes hstep
    obtain ⟨f0, hfiber⟩ := fiber_of_step hstep
    have hindex := (List.getElem?_eq_some_iff.1 hfiber).1
    refine herased hturn hindex ?_
    rw [Pass.fibers_leave]
    exact (List.length_eraseIdx_of_lt (hlength ▸ hindex)).trans (by rw [hlength])
  | @overruns turn f0 hturn hleft hfiber =>
    have hindex := (List.getElem?_eq_some_iff.1 hfiber).1
    refine herased hturn hindex ?_
    rw [Pass.fibers_leave]
    exact List.length_eraseIdx_of_lt hindex
  | @goesOn pass index budget tasks m' hwakes _ _ hresume =>
    exact hsame (by rw [length_of_resume hresume, Pass.fibers_enter])
  | @stays pass index tasks m' hwakes _ hresume =>
    have hleave : (pass.leave m'.betweenFibers).fibers = m'.fibers := Pass.fibers_leave ..
    exact hsame (by rw [hleave, length_of_resume hresume, Pass.fibers_enter])
  | @starts tasks m' hturn htasks _ hstart =>
    have hrequested := Stepping.startFiber_requested 0 [] .background a.machine
    rw [hstart, Outcome.ok_iff] at hrequested
    exact hold hrequested.started.length_le fun hle => hrequested.fresh_of_le hle hf'
  | plans hturn hplans => exact hsame (by rw [hplans.fibers])
  | fails hpanic => exact .inl hpanic

theorem Plans.image {m m' : Machine} {tasks tasks' : List Task} {stage stage' : Stage}
    (h : Plans m tasks stage m' tasks' stage') : m'.image = m.image := by
  cases h <;> rfl

theorem Steps.image (h : a.Steps b) (hpanic : b.machine.panic = none) : b.machine.image = a.machine.image := by
  cases h.outlines with
  | acts habides => exact habides.image
  | plans _ hplans => exact hplans.image
  | fails hsome => rw [hpanic] at hsome; cases hsome

/-- What is true of new fibers and stays true of fibers is true of all fibers, as long as the program has not stopped. -/
theorem Follows.forall_fibers {P : Image → Fiber → Prop} (hisNew : ∀ image f, f.IsNew image → P image f)
    (hcarries : ∀ {a b j k f f'}, Carries a b j k f f' → a.machine.fibers[j]? = some f → f.Same f' →
      P a.machine.image f → P a.machine.image f') (h : a.Follows b) (ha : a.Fit)
    (hall : a.machine.panic = none → ∀ f ∈ a.machine.fibers, P a.machine.image f) :
    b.machine.panic = none → ∀ f ∈ b.machine.fibers, P b.machine.image f := by
  cases h with
  | returns | host | call => exact hall
  | next hnext =>
    intro hpanic' f' hmem
    have hpanic := ha.panic_of_next hnext
    have hsteps := steps_of_next hpanic hnext
    have hnot : ¬ b.machine.panic.isSome = true := by rw [hpanic']; decide
    obtain ⟨k, hf'⟩ := List.mem_iff_getElem?.1 hmem
    rw [hsteps.image hpanic']
    rcases (hsteps.origin hf').resolve_left hnot with hnew | ⟨j, f, hf, hplace⟩
    · exact hisNew _ _ hnew
    · obtain ⟨f'', hf'', hsame, hcarried⟩ := (hsteps.carries hf hplace).resolve_left hnot
      grind

end Moment

end BusScript
