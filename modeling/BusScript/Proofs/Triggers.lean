import BusScript.Proofs.Places
import BusScript.Proofs.Trails

namespace BusScript

open Stepping (Frames fiber_of_step finish relists_of_step step)

def handlers (fn : Nat) (fibers : List Fiber) : List Bool :=
  fibers.filterMap fun f => if f.function = fn then some f.isPending else none

section Handlers

variable {fn i : Nat} {fibers : List Fiber} {f : Fiber} {g : Fiber → Fiber}

theorem handlers_append (fibers fibers' : List Fiber) :
    handlers fn (fibers ++ fibers') = handlers fn fibers ++ handlers fn fibers' := List.filterMap_append

theorem handlers_cons (f : Fiber) (fibers : List Fiber) :
    handlers fn (f :: fibers) = if f.function = fn then f.isPending :: handlers fn fibers else handlers fn fibers := by
  rw [handlers, List.filterMap_cons]
  split
  · rename_i h
    split at h
    · cases h
    · rw [if_neg ‹_›, handlers]
  · rename_i h
    split at h
    · rw [Option.some.injEq] at h
      rw [if_pos ‹_›, h, handlers]
    · cases h

theorem split_at (hf : fibers[i]? = some f) : fibers = fibers.take i ++ f :: fibers.drop (i + 1) := by
  obtain ⟨hlt, rfl⟩ := List.getElem?_eq_some_iff.1 hf
  rw [← List.drop_eq_getElem_cons hlt, List.take_append_drop]

theorem modify_at (hf : fibers[i]? = some f) : fibers.modify i g = fibers.take i ++ g f :: fibers.drop (i + 1) := by
  obtain ⟨hlt, rfl⟩ := List.getElem?_eq_some_iff.1 hf
  exact List.modify_eq_take_cons_drop hlt

theorem handlers_modify (hfunction : (g f).function = f.function)
    (hpending : f.function = fn → (g f).isPending = f.isPending) (hf : fibers[i]? = some f) :
    handlers fn (fibers.modify i g) = handlers fn fibers := by
  conv_rhs => rw [split_at hf]
  rw [modify_at hf, handlers_append, handlers_append, handlers_cons, handlers_cons, hfunction]
  split
  · rw [hpending ‹_›]
  · rfl

theorem handlers_modify_of_retains (hg : Fiber.Retains g) : handlers fn (fibers.modify i g) = handlers fn fibers := by
  cases hf : fibers[i]? with
  | some f => exact handlers_modify (hg.function f) (fun _ => hg.isPending f) hf
  | none => rw [List.modify_eq_self (List.getElem?_eq_none_iff.1 hf)]

theorem handlers_eraseIdx (hfunction : f.function ≠ fn) (hf : fibers[i]? = some f) :
    handlers fn (fibers.eraseIdx i) = handlers fn fibers := by
  conv_rhs => rw [split_at hf]
  rw [List.eraseIdx_eq_take_drop_succ, handlers_append, handlers_append, handlers_cons, if_neg hfunction]

theorem handlers_of_le_one (hle : (handlers fn fibers).length ≤ 1) (hf : fibers[i]? = some f) (hfunction : f.function = fn) :
    handlers fn fibers = [f.isPending] ∧ handlers fn (fibers.eraseIdx i) = [] ∧
      ∀ g : Fiber → Fiber, (g f).function = fn → handlers fn (fibers.modify i g) = [(g f).isPending] := by
  have hsplit : handlers fn fibers = handlers fn (fibers.take i) ++ f.isPending :: handlers fn (fibers.drop (i + 1)) := by
    conv_lhs => rw [split_at hf]
    rw [handlers_append, handlers_cons, if_pos hfunction]
  rw [hsplit, List.length_append, List.length_cons] at hle
  have hbefore : handlers fn (fibers.take i) = [] := List.length_eq_zero_iff.1 (by omega)
  have hbehind : handlers fn (fibers.drop (i + 1)) = [] := List.length_eq_zero_iff.1 (by omega)
  refine ⟨?_, ?_, fun g hg => ?_⟩
  · rw [hsplit, hbefore, hbehind, List.nil_append]
  · rw [List.eraseIdx_eq_take_drop_succ, handlers_append, hbefore, hbehind, List.nil_append]
  · rw [modify_at hf, handlers_append, handlers_cons, if_pos hg, hbefore, hbehind, List.nil_append]

theorem handlers_eq_nil (hnone : ∀ f ∈ fibers, f.function ≠ fn) : handlers fn fibers = [] := by
  rw [handlers, List.filterMap_eq_nil_iff]
  exact fun f hf => if_neg (hnone f hf)

theorem length_handlers (fn : Nat) (fibers : List Fiber) :
    (handlers fn fibers).length = fibers.countP (·.function == fn) := by
  induction fibers with
  | nil => rfl
  | cons f fibers ih =>
    rw [handlers_cons, List.countP_cons, ← ih]
    by_cases hfn : f.function = fn
    · rw [if_pos hfn, if_pos (beq_iff_eq.2 hfn), List.length_cons]
    · rw [if_neg hfn, if_neg (fun h => hfn (eq_of_beq h)), Nat.add_zero]

end Handlers

namespace Moment

/-- Whether a word runs that asks for the function `fn`, once more if it runs already. -/
def requests (a : Moment) (fn : Nat) : Bool :=
  a.turn.any fun turn => turn.left != 0 &&
    (a.machine.nextCall? turn.index).any fun call => call.1 == .backgroundPending && call.2.b == fn

/-- Whether the function `fn` is asked for in another way. -/
def startsOtherwise (a : Moment) (fn : Nat) : Bool :=
  match a.turn, a.tasks with
  | some turn, _ => (a.machine.nextCall? turn.index).any fun call =>
      call.1 != .sync && call.1 != .backgroundPending && call.2.b == fn
  | none, .startMain :: _ => fn == 0
  | none, _ => false

/-- Whether a fiber that was started with the function `fn` returns from it. -/
def completes (a : Moment) (fn : Nat) : Bool :=
  a.turn.any fun turn => turn.left != 0 && a.machine.fibers[turn.index]?.any (·.function == fn) &&
    match step turn.index a.machine with
    | .ok .finish _ => true
    | _ => false

/-- Whether a fiber of the function `fn` has used up its words. -/
def overrunsIn (a : Moment) (fn : Nat) : Bool :=
  a.turn.any fun turn => turn.left == 0 && a.machine.fibers[turn.index]?.any (·.function == fn)

/-- Whether a run of the function `fn` begins, which is to go on at the next moment `b`: there is a new fiber of it, or the
one that has returned from it is still there. -/
def begins (a b : Moment) (fn : Nat) : Bool :=
  (a.machine.fibers.length < b.machine.fibers.length && b.machine.fibers.getLast?.any (·.function == fn)) ||
    (a.completes fn && b.machine.fibers.length == a.machine.fibers.length)

/-- What a moment does for the function `fn`. -/
inductive Tends (fn : Nat) (a b : Moment) : Prop
  | quiet (hrequests : a.requests fn = false) (hcompletes : a.completes fn = false) (hbegins : a.begins b fn = false)
      (hb : handlers fn b.machine.fibers = handlers fn a.machine.fibers)
  | starts (hrequests : a.requests fn = true) (hcompletes : a.completes fn = false) (hbegins : a.begins b fn = true)
      (ha : handlers fn a.machine.fibers = []) (hb : handlers fn b.machine.fibers = [false])
  | waits {isPending : Bool} (hrequests : a.requests fn = true) (hcompletes : a.completes fn = false)
      (hbegins : a.begins b fn = false) (ha : handlers fn a.machine.fibers = [isPending])
      (hb : handlers fn b.machine.fibers = [true])
  | repeats (hrequests : a.requests fn = false) (hcompletes : a.completes fn = true) (hbegins : a.begins b fn = true)
      (ha : handlers fn a.machine.fibers = [true]) (hb : handlers fn b.machine.fibers = [false])
  | ends (hrequests : a.requests fn = false) (hcompletes : a.completes fn = true) (hbegins : a.begins b fn = false)
      (ha : handlers fn a.machine.fibers = [false]) (hb : handlers fn b.machine.fibers = [])

variable {a b : Moment} {fn : Nat}

theorem begins_eq_false (hcompletes : a.completes fn = false)
    (hlast : a.machine.fibers.length < b.machine.fibers.length → b.machine.fibers.getLast?.any (·.function == fn) = false) :
    a.begins b fn = false := by
  rw [begins, hcompletes, Bool.false_and, Bool.or_false, Bool.and_eq_false_iff, decide_eq_false_iff_not]
  grind

theorem quiet_of_idle (hturn : a.turn = none) (hfibers : handlers fn b.machine.fibers = handlers fn a.machine.fibers)
    (hlast : a.machine.fibers.length < b.machine.fibers.length → b.machine.fibers.getLast?.any (·.function == fn) = false) :
    Tends fn a b := by
  have hcompletes : a.completes fn = false := by rw [completes, hturn, Option.any_none]
  refine .quiet ?_ hcompletes (begins_eq_false hcompletes hlast) hfibers
  rw [requests, hturn, Option.any_none]

theorem last_of_le (hle : b.machine.fibers.length ≤ a.machine.fibers.length) :
    a.machine.fibers.length < b.machine.fibers.length → b.machine.fibers.getLast?.any (·.function == fn) = false :=
  fun hlt => (Nat.not_lt.2 hle hlt).elim

/-! ### Words -/

section Words

variable {turn : Turn} {m' : Machine} (hturn : a.turn = some turn)
include hturn

theorem requests_of_call {kind : CallKind} {p : Operands} (hleft : turn.left ≠ 0)
    (hcall : a.machine.nextCall? turn.index = some (kind, p)) :
    a.requests fn = (kind == .backgroundPending && p.b == fn) := by
  rw [requests, hturn, Option.any_some, hcall, Option.any_some, bne_iff_ne.2 hleft, Bool.true_and]

theorem requests_eq_false (hcall : a.machine.startsFiber turn.index = false) : a.requests fn = false := by
  rw [Machine.startsFiber] at hcall
  rw [requests, hturn, Option.any_some]
  cases hnext : a.machine.nextCall? turn.index with
  | none => rw [Option.any_none, Bool.and_false]
  | some call => simp_all

theorem completes_eq {flow : Flow} {f : Fiber} (hleft : turn.left ≠ 0)
    (hstep : step turn.index a.machine = .ok flow m') (hf : a.machine.fibers[turn.index]? = some f) :
    a.completes fn = (f.function == fn && flow == .finish) := by
  rw [completes, hturn, Option.any_some, bne_iff_ne.2 hleft, Bool.true_and, hf, Option.any_some, hstep]
  cases flow <;> rfl

theorem tends_of_requested {kind : CallKind} {p : Operands} {g : Fiber → Fiber} (hleft : turn.left ≠ 0)
    (hcall : a.machine.nextCall? turn.index = some (kind, p)) (hkind : kind ≠ .sync) (hg : Fiber.Reframes id g)
    (hrequested : Machine.Requested
      { a.machine with operands := {}, fibers := a.machine.fibers.modify turn.index g } p.b kind m')
    (hcompletes : a.completes fn = false) (hother : a.startsOtherwise fn = false)
    (hle : (handlers fn a.machine.fibers).length ≤ 1) (hb : b.machine.fibers = m'.fibers) : Tends fn a b := by
  have hrequests := @requests_of_call a fn _ hturn _ _ hleft hcall
  have hretains := retains_of_reframes hg ⟨fun _ => rfl, fun _ => rfl, fun _ => rfl⟩
  have hmodify : handlers fn (a.machine.fibers.modify turn.index g) = handlers fn a.machine.fibers :=
    handlers_modify_of_retains hretains
  have hlength : (a.machine.fibers.modify turn.index g).length = a.machine.fibers.length := List.length_modify ..
  rw [← hmodify] at hle
  generalize a.machine.fibers.modify turn.index g = fibers at hrequested hmodify hlength hle
  by_cases hfn : p.b = fn
  · subst hfn
    have hpending : kind = .backgroundPending := by
      by_contra hnot
      rw [startsOtherwise, hturn] at hother
      simp_all
    subst hpending
    rw [beq_self_eq_true, beq_self_eq_true] at hrequests
    cases hrequested with
    | fresh _ hnone =>
      have hnil : handlers p.b fibers = [] := handlers_eq_nil (hnone (by decide))
      refine .starts hrequests hcompletes ?_ (hmodify ▸ hnil) ?_
      · rw [begins, hb, List.length_append, hlength, List.getLast?_concat, Option.any_some]
        simp [Fiber.start, Frame.enter]
      · rw [hb, handlers_append, hnil, handlers_cons]
        exact if_pos rfl
    | @again k _ hfound =>
      obtain ⟨hlt, hfunction, -⟩ := List.findIdx?_eq_some_iff_getElem.1 hfound
      have hk := List.getElem?_eq_getElem hlt
      obtain ⟨hone, -, hmodified⟩ := handlers_of_le_one hle hk (eq_of_beq hfunction)
      refine .waits hrequests hcompletes (begins_eq_false hcompletes (last_of_le (Nat.le_of_eq ?_))) (hmodify ▸ hone) ?_
      · rw [hb, List.length_modify, hlength]
      · simp_all
    | kept _ hnot => exact (hnot rfl).elim
  · have hrequests : a.requests fn = false := by rw [hrequests, beq_eq_false_iff_ne.2 hfn, Bool.and_false]
    cases hrequested with
    | fresh =>
      refine .quiet hrequests hcompletes (begins_eq_false hcompletes fun _ => ?_) ?_
      · rw [hb, List.getLast?_concat, Option.any_some]
        exact beq_eq_false_iff_ne.2 hfn
      · rw [hb, handlers_append, handlers_cons, ← hmodify]
        exact (congrArg _ (if_neg hfn)).trans (List.append_nil _)
    | @again k _ hfound =>
      obtain ⟨hlt, hfunction, -⟩ := List.findIdx?_eq_some_iff_getElem.1 hfound
      refine .quiet hrequests hcompletes (begins_eq_false hcompletes (last_of_le (Nat.le_of_eq ?_))) ?_
      · rw [hb, List.length_modify, hlength]
      · rw [hb, ← hmodify]
        refine handlers_modify rfl (fun h => ?_) (List.getElem?_eq_getElem hlt)
        rw [eq_of_beq hfunction] at h
        exact (hfn h).elim
    | kept =>
      refine .quiet hrequests hcompletes (begins_eq_false hcompletes (last_of_le (Nat.le_of_eq ?_))) (hb ▸ hmodify)
      rw [hb, hlength]

theorem tends_of_step {flow : Flow} (hleft : turn.left ≠ 0)
    (hstep : step turn.index a.machine = .ok flow m') (hflow : flow ≠ .finish)
    (hother : a.startsOtherwise fn = false) (hle : (handlers fn a.machine.fibers).length ≤ 1)
    (hb : b.machine.fibers = m'.fibers) : Tends fn a b := by
  obtain ⟨f, hf⟩ := fiber_of_step hstep
  have hcompletes : a.completes fn = false := by
    rw [completes_eq hturn hleft hstep hf, beq_eq_false_iff_ne.2 hflow, Bool.and_false]
  cases relists_of_step hstep with
  | itself hcall hg hfibers =>
    refine .quiet (requests_eq_false hturn hcall) hcompletes
      (begins_eq_false hcompletes (last_of_le (Nat.le_of_eq ?_))) ?_
    · rw [hb, hfibers, List.length_modify]
    · rw [hb, hfibers, handlers_modify_of_retains hg]
  | requests hcall hkind hg hrequested =>
    exact tends_of_requested hturn hleft hcall hkind hg hrequested hcompletes hother hle hb

theorem finishes_of_step (hleft : turn.left ≠ 0) (hstep : step turn.index a.machine = .ok .finish m') :
    a.requests fn = false ∧ ∃ f, m'.fibers[turn.index]? = some f ∧ a.completes fn = (f.function == fn) ∧
      handlers fn m'.fibers = handlers fn a.machine.fibers ∧ m'.fibers.length = a.machine.fibers.length := by
  have hdid := Stepping.did_of_step hstep
  obtain ⟨f, hf⟩ := fiber_of_step hstep
  obtain ⟨g, hg, hfibers⟩ := (hdid.computed (by rintro ⟨⟩) (by rintro ⟨⟩)).fibers
  have hretains := retains_of_reframes hg ⟨fun _ => rfl, fun _ => rfl, fun _ => rfl⟩
  cases hdid with
  | computes hcall =>
    refine ⟨requests_eq_false hturn hcall, g f, hfibers ▸ Machine.getElem?_modified hf g, ?_, ?_, ?_⟩
    · rw [completes_eq hturn hleft hstep hf, hretains.function f]
      exact Bool.and_true _
    · rw [hfibers, handlers_modify_of_retains hretains]
    · rw [hfibers, List.length_modify]

end Words

theorem isPending_of_finish {index : Nat} {m m' : Machine} {again : Bool} {f : Fiber} (hf : m.fibers[index]? = some f)
    (h : finish index m = .ok again m') : f.isPending = again := by
  have hfinish : Outcome (fun again _ => f.isPending = again) (fun _ _ => True) (finish index m) := by
    rw [finish, Outcome.bind_iff, Stepping.fiber_iff hf, Outcome.ite_iff]
    exact ⟨fun h => h, fun h => Bool.eq_false_iff.2 h⟩
  rw [h] at hfinish
  exact hfinish

theorem Steps.tends (h : a.Steps b) (hpanic : b.machine.panic = none) (hother : a.startsOtherwise fn = false)
    (honTime : a.overrunsIn fn = false) (hle : (handlers fn a.machine.fibers).length ≤ 1) : Tends fn a b := by
  cases h with
  | word hturn hleft _ hstep => exact tends_of_step hturn (by omega) hstep (by decide) hother hle rfl
  | parks hturn hleft _ hstep =>
    exact tends_of_step hturn (by omega) hstep (by decide) hother hle (Pass.fibers_leave ..)
  | @repeats turn left m' m'' hturn hleft _ hfinished hstep hfinish =>
    obtain ⟨hrequests, f, hf, hcompletes, hsame, hlength⟩ := @finishes_of_step _ fn _ _ hturn (by omega) hstep
    have hagain := isPending_of_finish hf hfinish
    cases hfinished
    rw [← hsame] at hle
    by_cases hfn : f.function = fn
    · obtain ⟨hone, -, hmodified⟩ := handlers_of_le_one hle hf hfn
      rw [beq_iff_eq.2 hfn] at hcompletes
      refine .repeats hrequests hcompletes ?_ (by rw [← hsame, hone, hagain]) (hmodified _ hfn)
      rw [begins, hcompletes, List.length_modify, hlength, beq_self_eq_true, Bool.and_true, Bool.or_true]
    · rw [beq_eq_false_iff_ne.2 hfn] at hcompletes
      refine .quiet hrequests hcompletes (begins_eq_false hcompletes (last_of_le (Nat.le_of_eq ?_))) ?_
      · rw [List.length_modify, hlength]
      · rw [← hsame]
        exact handlers_modify rfl (fun h => (hfn h).elim) hf
  | @ends turn left m' m'' hturn hleft _ hfinished hstep hfinish =>
    obtain ⟨hrequests, f, hf, hcompletes, hsame, hlength⟩ := @finishes_of_step _ fn _ _ hturn (by omega) hstep
    have hagain := isPending_of_finish hf hfinish
    cases hfinished
    rw [← hsame] at hle
    have hshorter : (m'.fibers.eraseIdx turn.index).length < a.machine.fibers.length := by grind
    have hb : (turn.pass.leave { m' with fibers := m'.fibers.eraseIdx turn.index }.betweenFibers).fibers =
        m'.fibers.eraseIdx turn.index := Pass.fibers_leave ..
    by_cases hfn : f.function = fn
    · obtain ⟨hone, hgone, -⟩ := handlers_of_le_one hle hf hfn
      rw [beq_iff_eq.2 hfn] at hcompletes
      refine .ends hrequests hcompletes ?_ (by rw [← hsame, hone, hagain]) (by rw [hb, hgone])
      rw [begins, hb, decide_eq_false (Nat.not_lt.2 (Nat.le_of_lt hshorter)), beq_eq_false_iff_ne.2 (Nat.ne_of_lt hshorter),
        Bool.and_false, Bool.false_and, Bool.or_false]
    · rw [beq_eq_false_iff_ne.2 hfn] at hcompletes
      refine .quiet hrequests hcompletes (begins_eq_false hcompletes (last_of_le ?_)) ?_
      · rw [hb]
        exact Nat.le_of_lt hshorter
      · rw [← hsame, hb]
        exact handlers_eraseIdx hfn hf
  | @overruns turn f hturn hleft hfiber =>
    have hfn : f.function ≠ fn := by
      intro h
      rw [overrunsIn, hturn, Option.any_some, hleft, hfiber, Option.any_some, h, beq_self_eq_true,
        beq_self_eq_true] at honTime
      cases honTime
    have hcompletes : a.completes fn = false := by rw [completes, hturn, Option.any_some, hleft]; rfl
    refine .quiet ?_ hcompletes (begins_eq_false hcompletes (last_of_le ?_)) ?_
    · rw [Moment.requests, hturn, Option.any_some, hleft]
      rfl
    · rw [Pass.fibers_leave]
      exact List.length_eraseIdx_le ..
    · rw [Pass.fibers_leave]
      exact handlers_eraseIdx hfn hfiber
  | @goesOn pass index budget tasks m' hwakes hresumed =>
    obtain ⟨g, hg, hfibers⟩ := hresumed.retains
    rw [Pass.fibers_enter] at hfibers
    refine quiet_of_idle hwakes.turn ?_ (last_of_le (Nat.le_of_eq ?_))
    · rw [hfibers, handlers_modify_of_retains hg]
    · rw [hfibers, List.length_modify]
  | @stays pass index tasks m' hwakes hresumed =>
    obtain ⟨g, hg, hfibers⟩ := hresumed.retains
    rw [Pass.fibers_enter] at hfibers
    have hleave : (pass.leave m'.betweenFibers).fibers = m'.fibers := Pass.fibers_leave ..
    refine quiet_of_idle hwakes.turn ?_ (last_of_le (Nat.le_of_eq ?_))
    · rw [hleave, hfibers, handlers_modify_of_retains hg]
    · rw [hleave, hfibers, List.length_modify]
  | @starts tasks m' hturn htasks _ hstart =>
    have hfn : 0 ≠ fn := by
      rw [startsOtherwise, hturn, htasks] at hother
      exact fun h => by rw [← h] at hother; cases hother
    have hrequested := Stepping.startFiber_requested 0 [] .background a.machine
    rw [hstart, Outcome.ok_iff] at hrequested
    cases hrequested with
    | fresh =>
      refine quiet_of_idle hturn ?_ fun _ => ?_
      · rw [handlers_append, handlers_cons]
        exact (congrArg _ (if_neg hfn)).trans (List.append_nil _)
      · rw [List.getLast?_concat, Option.any_some]
        exact beq_eq_false_iff_ne.2 hfn
    | again hkind => cases hkind
    | kept hkind => exact (hkind rfl).elim
  | plans hturn hplans =>
    exact quiet_of_idle hturn (by rw [hplans.fibers]) (last_of_le (Nat.le_of_eq (by rw [hplans.fibers])))
  | fails hsome => rw [hpanic] at hsome; cases hsome

theorem Follows.tends (h : a.Follows b) (ha : a.machine.panic = none) (hpanic : b.machine.panic = none)
    (hother : a.startsOtherwise fn = false) (honTime : a.overrunsIn fn = false)
    (hle : (handlers fn a.machine.fibers).length ≤ 1) : Tends fn a b := by
  have hidle (hfibers : b.machine.fibers = a.machine.fibers) (hturn : a.turn = none) : Tends fn a b :=
    quiet_of_idle hturn (by rw [hfibers]) (last_of_le (Nat.le_of_eq (by rw [hfibers])))
  cases h with
  | next hnext => exact (steps_of_next ha hnext).tends hpanic hother honTime hle
  | returns hover => exact hidle rfl (turn_of_isOver hover)
  | host | call => exact hidle rfl rfl

/-! ### First words -/

end Moment

namespace Fiber

def root (f : Fiber) : Frame := f.callers.getLast?.getD f.frame

/-- The frame at the bottom is what has become of a new frame of the function that the fiber was started with. -/
def Rooted (image : Image) (f : Fiber) : Prop :=
  ∃ info, image.functions[f.function]? = some info ∧ (Frame.enter f.function info []).Becomes f.root

/-- The fiber stands at the first word of the function `fn`, with which it was started. -/
structure AtStart (image : Image) (fn : Nat) (f : Fiber) : Prop where
  function : f.function = fn
  callers : f.callers = []
  frame : f.frame.function = fn
  pc : ∃ info, image.functions[fn]? = some info ∧ f.frame.pc = info.startPc

variable {image : Image} {f f' : Fiber}

theorem IsNew.atStart (h : f.IsNew image) : f.AtStart image f.function := by
  obtain ⟨id, j, info, args, now, hinfo, rfl⟩ := h
  exact ⟨rfl, rfl, rfl, info, hinfo, rfl⟩

theorem IsNew.rooted (h : f.IsNew image) : f.Rooted image := by
  obtain ⟨id, j, info, args, now, hinfo, rfl⟩ := h
  exact ⟨info, hinfo, rfl, rfl, rfl, by simp [root, start, Frame.enter], fun _ => Frame.fits_enter ..⟩

theorem root_of_callers (hcallers : f'.callers = f.callers) (hframe : f.frame.Becomes f'.frame) :
    f.root.Becomes f'.root := by
  rw [root, root, hcallers]
  cases f.callers.getLast? with
  | none => exact hframe
  | some frame => exact .refl frame

theorem root_of_frames {regs regs' : Registers} {saved : Option RegSet} {flow : Flow}
    (h : Frames regs f saved flow regs' f') : f.root.Becomes f'.root := by
  cases h with
  | works h | saves h => exact root_of_callers h.callers h.frame
  | enters hcallers hsaved =>
    rw [root, root, hcallers, List.getLast?_cons, Option.getD_some]
    cases f.callers.getLast? with
    | none => exact hsaved
    | some frame => exact .refl frame
  | @returns _ caller hcallers hframe =>
    rw [root, root, hcallers, List.getLast?_cons, Option.getD_some, hframe]
    cases f'.callers.getLast? with
    | none => exact ⟨rfl, rfl, rfl, rfl, Frame.fits_restored⟩
    | some frame => exact .refl frame

end Fiber

namespace Moment

variable {a b : Moment} {fn : Nat}

theorem Carries.root {j k : Nat} {f f' : Fiber} (h : Carries a b j k f f') (hf : a.machine.fibers[j]? = some f) :
    f.root.Becomes f'.root := by
  cases h with
  | rests hcallers hframe => exact Fiber.root_of_callers hcallers (hframe ▸ .refl _)
  | goesOn _ _ _ hcallers hframe =>
    exact Fiber.root_of_callers hcallers (hframe ▸ ⟨rfl, rfl, rfl, rfl, Frame.fits_restored⟩)
  | runs _ _ _ hstep hfiber _ hcallers hframe =>
    refine (Fiber.root_of_frames (frames_of_step hf hstep hfiber)).trans (Fiber.root_of_callers hcallers ?_)
    rcases hframe with hframe | hframe
    · exact hframe ▸ .refl _
    · exact hframe ▸ Frame.becomes_moved ..

theorem Carries.rooted {image : Image} {j k : Nat} {f f' : Fiber} (h : Carries a b j k f f')
    (hf : a.machine.fibers[j]? = some f) (hsame : f.Same f') (hrooted : f.Rooted image) : f'.Rooted image := by
  obtain ⟨info, hinfo, hroot⟩ := hrooted
  rw [Fiber.Rooted, hsame.function]
  exact ⟨info, hinfo, hroot.trans (h.root hf)⟩

theorem Reached.rooted {m : Machine} {bytes : Bytes} {host : Host} {config : Config} {random : Random}
    (hnew : Machine.new bytes host config random = .ok m) (h : Reached m a) (hpanic : a.machine.panic = none) :
    ∀ f ∈ a.machine.fibers, f.Rooted a.machine.image := by
  revert hpanic
  induction h with
  | refl =>
    obtain ⟨image, -, -, rfl⟩ := Machine.eq_of_new hnew
    rintro - f ⟨⟩
  | follows hreached hfollows ih =>
    exact hfollows.forall_fibers (fun _ _ => Fiber.IsNew.rooted) Carries.rooted (hreached.fit hnew) ih
  | reset => rintro - f ⟨⟩

/-- A function that returns with no caller gets a new turn in its own frame, if it is told to run once more. -/
theorem root_of_finish {j : Nat} {f : Fiber} {m' : Machine} (hf : a.machine.fibers[j]? = some f)
    (hstep : step j a.machine = .ok .finish m') (hrooted : f.Rooted a.machine.image) :
    ∃ f1 info, m'.fibers[j]? = some f1 ∧ f1.function = f.function ∧ f1.callers = [] ∧
      a.machine.image.functions[f.function]? = some info ∧ (Frame.enter f.function info []).Becomes f1.frame := by
  obtain ⟨f1, hf1, hframes⟩ := (Stepping.stepped_of_step hstep).frames f hf
  have hsame := (relists_of_step hstep).same hf hf1
  obtain ⟨info, hinfo, hroot⟩ := hrooted
  generalize a.machine.nextSave? j = saved, m'.registers = regs at hframes
  cases hframes with
  | saves _ _ _ hflow => exact (hflow rfl).elim
  | works hworks hlast =>
    have hcallers := hlast rfl
    rw [Fiber.root, hcallers] at hroot
    exact ⟨f1, info, hf1, hsame.function, hworks.callers.trans hcallers, hinfo, hroot.trans hworks.frame⟩

theorem Steps.atStart (h : a.Steps b) (hpanic : b.machine.panic = none)
    (hrooted : ∀ f ∈ a.machine.fibers, f.Rooted a.machine.image) (hbegins : a.begins b fn = true) :
    ∃ f ∈ b.machine.fibers, f.AtStart a.machine.image fn := by
  have hnot : ¬ b.machine.panic.isSome = true := by rw [hpanic]; decide
  rw [begins, Bool.or_eq_true, Bool.and_eq_true, Bool.and_eq_true, decide_eq_true_eq, beq_iff_eq] at hbegins
  rcases hbegins with ⟨hlt, hlast⟩ | ⟨hcompletes, hlength⟩
  · obtain ⟨f, hf, hfunction⟩ := (Option.any_eq_true _ _).1 hlast
    rw [List.getLast?_eq_getElem?] at hf
    refine ⟨f, List.mem_of_getElem? hf, ?_⟩
    rcases (h.origin hf).resolve_left hnot with hnew | ⟨j, f0, hf0, hplace⟩
    · exact eq_of_beq hfunction ▸ hnew.atStart
    · have hj := (List.getElem?_eq_some_iff.1 hf0).1
      rw [place?_of_le (Nat.le_of_lt hlt), Option.some.injEq] at hplace
      omega
  · obtain ⟨turn, hturn, hcompletes⟩ := (Option.any_eq_true _ _).1 hcompletes
    rw [Bool.and_eq_true, Bool.and_eq_true, bne_iff_ne] at hcompletes
    obtain ⟨⟨hleft, hany⟩, hfinish⟩ := hcompletes
    obtain ⟨f, hf, hfunction⟩ := (Option.any_eq_true _ _).1 hany
    have hidle {turn' : Turn} (hturn' : a.turn = some turn') : turn' = turn := by simp_all
    have hbusy (hturn' : a.turn = none) : False := by
      rw [hturn] at hturn'
      cases hturn'
    cases h with
    | word hturn' _ _ hstep | parks hturn' _ _ hstep => simp_all
    | @repeats turn' left m' m'' hturn' _ _ hfinished hstep =>
      obtain rfl := hidle hturn'
      obtain ⟨f1, info, hf1, hsame, hcallers, hinfo, hframe⟩ :=
        root_of_finish hf hstep (hrooted f (List.mem_of_getElem? hf))
      cases hfinished
      rw [eq_of_beq hfunction] at hsame hinfo hframe
      exact ⟨_, List.mem_of_getElem? (Machine.getElem?_modified hf1 _), hsame, hcallers, hframe.function, info, hinfo,
        hframe.startPc⟩
    | @ends turn' left m' m'' hturn' _ _ hfinished hstep =>
      obtain rfl := hidle hturn'
      have hlength' := Stepping.length_of_finishes hstep
      cases hfinished
      have hlt : turn'.index < m'.fibers.length := hlength' ▸ (List.getElem?_eq_some_iff.1 hf).1
      rw [Pass.fibers_leave] at hlength
      have hshorter := List.length_eraseIdx_of_lt hlt
      rw [show (m'.fibers.eraseIdx turn'.index).length = a.machine.fibers.length from hlength] at hshorter
      omega
    | overruns hturn' hleft' => simp_all
    | goesOn hwakes | stays hwakes => exact (hbusy hwakes.turn).elim
    | starts hturn' | plans hturn' => exact (hbusy hturn').elim
    | fails hsome => exact (hnot hsome).elim

/-! ### Histories -/

/-- A history `h 0`, ..., `h n` without panics in which the function `fn` is asked for only as a handler. It has no fiber
in the beginning, and does not run too long. -/
structure Triggered (fn : Nat) (h : Nat → Moment) (n : Nat) : Prop where
  follows : ∀ k < n, (h k).Follows (h (k + 1))
  absent : ∀ f ∈ (h 0).machine.fibers, f.function ≠ fn
  panic : ∀ k ≤ n, (h k).machine.panic = none
  onTime : ∀ k < n, (h k).overrunsIn fn = false
  onlyRequested : ∀ k < n, (h k).startsOtherwise fn = false

/-- The function begins after `h i`, and returns at `h j` for the first time since. -/
structure CompleteRun (fn : Nat) (h : Nat → Moment) (i j : Nat) : Prop where
  lt : i < j
  begins : (h i).begins (h (i + 1)) fn = true
  completes : (h j).completes fn = true
  between : ∀ l, i < l → l < j → (h l).completes fn = false

/-- How a request at `h i` stands at `h k`. -/
inductive Answered (fn : Nat) (h : Nat → Moment) (i k : Nat) : Prop
  | served {i' j : Nat} (hle : i ≤ i') (hj : j < k) (hrun : CompleteRun fn h i' j)
  | running {i' : Nat} (hle : i ≤ i') (hlt : i' < k) (hbegins : (h i').begins (h (i' + 1)) fn = true)
      (hsince : ∀ l, i' < l → l < k → (h l).completes fn = false) (hsome : handlers fn (h k).machine.fibers ≠ [])
  | pending (hpending : handlers fn (h k).machine.fibers = [true])

/-- What holds after each of the moments of such a history. The request that waits counts as one that was not used. -/
structure Tallied (fn : Nat) (h : Nat → Moment) (k : Nat) : Prop where
  one : (handlers fn (h k).machine.fibers).length ≤ 1
  count : (List.range k).countP (fun i => (h i).begins (h (i + 1)) fn) + (handlers fn (h k).machine.fibers).count true ≤
    (List.range k).countP fun i => (h i).requests fn
  answered : ∀ i < k, (h i).requests fn = true → Answered fn h i k

variable {h : Nat → Moment} {i k n : Nat}

theorem Answered.succ_of_nil (hanswered : Answered fn h i k) (hnil : handlers fn (h k).machine.fibers = []) :
    Answered fn h i (k + 1) := by
  cases hanswered with
  | served hle hj hrun => exact .served hle (Nat.lt_succ_of_lt hj) hrun
  | running _ _ _ _ hsome => exact (hsome hnil).elim
  | pending hpending => rw [hnil] at hpending; cases hpending

theorem Answered.succ_of_same (hanswered : Answered fn h i k) (hcompletes : (h k).completes fn = false)
    (hsame : handlers fn (h (k + 1)).machine.fibers = handlers fn (h k).machine.fibers) : Answered fn h i (k + 1) := by
  cases hanswered with
  | served hle hj hrun => exact .served hle (Nat.lt_succ_of_lt hj) hrun
  | running hle hlt hbegins hsince hsome =>
    refine .running hle (Nat.lt_succ_of_lt hlt) hbegins (fun l hl hlt' => ?_) (hsame ▸ hsome)
    grind
  | pending hpending => exact .pending (hsame ▸ hpending)

theorem Answered.succ_of_completes (hanswered : Answered fn h i k) (hlt : i < k) (hcompletes : (h k).completes fn = true)
    (hagain : handlers fn (h k).machine.fibers = [true] →
      (h k).begins (h (k + 1)) fn = true ∧ handlers fn (h (k + 1)).machine.fibers ≠ []) :
    Answered fn h i (k + 1) := by
  cases hanswered with
  | served hle hj hrun => exact .served hle (Nat.lt_succ_of_lt hj) hrun
  | running hle hlt' hbegins hsince => exact .served hle (Nat.lt_succ_self k) ⟨hlt', hbegins, hcompletes, hsince⟩
  | pending hpending =>
    obtain ⟨hbegins, hsome⟩ := hagain hpending
    exact .running (Nat.le_of_lt hlt) (Nat.lt_succ_self k) hbegins (fun l hl hl' => by omega) hsome

theorem countP_range_succ (p : Nat → Bool) (k : Nat) :
    (List.range (k + 1)).countP p = (List.range k).countP p + if p k = true then 1 else 0 := by
  rw [List.range_succ, List.countP_append, List.countP_singleton]

theorem Tallied.succ (htallied : Tallied fn h k) (htends : Tends fn (h k) (h (k + 1))) : Tallied fn h (k + 1) := by
  have hcount := htallied.count
  have hlast (hrequests : (h k).requests fn = false) (hanswered : ∀ i < k, (h i).requests fn = true →
      Answered fn h i (k + 1)) (i : Nat) (hi : i < k + 1) (hrequest : (h i).requests fn = true) :
      Answered fn h i (k + 1) := by
    rcases Nat.lt_succ_iff_lt_or_eq.1 hi with hi | rfl
    · exact hanswered i hi hrequest
    · rw [hrequests] at hrequest; cases hrequest
  cases htends with
  | quiet hrequests hcompletes hbegins hb =>
    refine ⟨hb ▸ htallied.one, ?_, hlast hrequests fun i hi hrequest => ?_⟩
    · rw [countP_range_succ, countP_range_succ, hbegins, hrequests, hb]
      exact hcount
    · exact (htallied.answered i hi hrequest).succ_of_same hcompletes hb
  | starts hrequests hcompletes hbegins ha hb =>
    refine ⟨by rw [hb]; decide, ?_, fun i hi hrequest => ?_⟩
    · rw [ha] at hcount
      rw [countP_range_succ, countP_range_succ, hbegins, hrequests, hb]
      exact Nat.add_le_add_right hcount 1
    · rcases Nat.lt_succ_iff_lt_or_eq.1 hi with hi | rfl
      · exact (htallied.answered i hi hrequest).succ_of_nil ha
      · exact .running (Nat.le_refl i) (Nat.lt_succ_self i) hbegins (fun l hl hl' => by omega) (by rw [hb]; decide)
  | waits hrequests hcompletes hbegins ha hb =>
    refine ⟨by rw [hb]; decide, ?_, fun i _ _ => .pending hb⟩
    rw [countP_range_succ, countP_range_succ, hbegins, hrequests, hb]
    exact Nat.add_le_add_right (Nat.le_trans (Nat.le_add_right ..) hcount) 1
  | repeats hrequests hcompletes hbegins ha hb =>
    refine ⟨by rw [hb]; decide, ?_, hlast hrequests fun i hi hrequest => ?_⟩
    · rw [ha] at hcount
      rw [countP_range_succ, countP_range_succ, hbegins, hrequests, hb]
      exact hcount
    · exact (htallied.answered i hi hrequest).succ_of_completes hi hcompletes fun _ => ⟨hbegins, by rw [hb]; decide⟩
  | ends hrequests hcompletes hbegins ha hb =>
    refine ⟨by rw [hb]; decide, ?_, hlast hrequests fun i hi hrequest => ?_⟩
    · rw [ha] at hcount
      rw [countP_range_succ, countP_range_succ, hbegins, hrequests, hb]
      exact hcount
    · refine (htallied.answered i hi hrequest).succ_of_completes hi hcompletes fun htrue => ?_
      rw [ha] at htrue
      cases htrue

theorem Triggered.tallied (htriggered : Triggered fn h n) (hk : k ≤ n) : Tallied fn h k := by
  induction k with
  | zero =>
    have hnil := handlers_eq_nil htriggered.absent
    exact ⟨by rw [hnil]; decide, by rw [hnil]; exact Nat.le_refl 0, fun i hi => (Nat.not_lt_zero i hi).elim⟩
  | succ k ih =>
    have htallied := ih (Nat.le_of_succ_le hk)
    refine htallied.succ ((htriggered.follows k hk).tends (htriggered.panic k (Nat.le_of_succ_le hk))
      (htriggered.panic _ hk) (htriggered.onlyRequested k hk) (htriggered.onTime k hk) htallied.one)

theorem Triggered.reached {m : Machine} (htriggered : Triggered fn h n) (hreached : Reached m (h 0)) (hk : k ≤ n) :
    Reached m (h k) := by
  induction k with
  | zero => exact hreached
  | succ k ih => exact (ih (Nat.le_of_succ_le hk)).follows (htriggered.follows k hk)

theorem Follows.atStart (hfollows : a.Follows b) (hpanic : a.machine.panic = none) (hpanic' : b.machine.panic = none)
    (hrooted : ∀ f ∈ a.machine.fibers, f.Rooted a.machine.image) (hbegins : a.begins b fn = true) : ∃ f ∈ b.machine.fibers, f.AtStart b.machine.image fn := by
  have hidle (hturn : a.turn = none) (hlength : b.machine.fibers.length = a.machine.fibers.length) : False := by
    rw [begins, completes, hturn, hlength, decide_eq_false (Nat.lt_irrefl _)] at hbegins
    cases hbegins
  cases hfollows with
  | next hnext =>
    rw [(steps_of_next hpanic hnext).image hpanic']
    exact (steps_of_next hpanic hnext).atStart hpanic' hrooted hbegins
  | returns hover => exact (hidle (turn_of_isOver hover) rfl).elim
  | host | call => exact (hidle rfl rfl).elim

end Moment

namespace Machine

open Moment

variable {m : Machine} {bytes : Bytes} {host : Host} {config : Config} {random : Random}

/-- A function that runs only as a handler has never more than one fiber. When it has none, every request so far is
followed by a complete run, which began no earlier. No more runs begin than there were requests, and each begins at the
first word of the function. -/
theorem requests_are_served (hnew : Machine.new bytes host config random = .ok m) {fn n : Nat} {h : Nat → Moment}
    (hreached : Reached m (h 0)) (htriggered : Triggered fn h n) {k : Nat} (hk : k ≤ n) :
    (h k).machine.fibers.countP (·.function == fn) ≤ 1 ∧
    ((∀ f ∈ (h k).machine.fibers, f.function ≠ fn) → ∀ i < k, (h i).requests fn = true →
      ∃ i' j, i ≤ i' ∧ j < k ∧ CompleteRun fn h i' j) ∧
    (List.range k).countP (fun i => (h i).begins (h (i + 1)) fn) ≤ (List.range k).countP (fun i => (h i).requests fn) ∧
    ∀ i < k, (h i).begins (h (i + 1)) fn = true →
      ∃ f ∈ (h (i + 1)).machine.fibers, f.AtStart (h (i + 1)).machine.image fn := by
  have htallied := htriggered.tallied hk
  refine ⟨?_, fun hnone i hi hrequest => ?_, Nat.le_trans (Nat.le_add_right ..) htallied.count, fun i hi hbegins => ?_⟩
  · exact length_handlers fn _ ▸ htallied.one
  · have hnil := handlers_eq_nil hnone
    cases htallied.answered i hi hrequest with
    | served hle hj hrun => exact ⟨_, _, hle, hj, hrun⟩
    | running _ _ _ _ hsome => exact (hsome hnil).elim
    | pending hpending => rw [hnil] at hpending; cases hpending
  · have hrooted := (htriggered.reached hreached (k := i) (by omega)).rooted hnew (htriggered.panic i (by omega))
    exact (htriggered.follows i (by omega)).atStart (htriggered.panic i (by omega)) (htriggered.panic _ (by omega)) hrooted
      hbegins

end Machine

open Script in
def pressingScript : List Stmt :=
  [declare "b" (some (.call {} (member (name "roles") "button") [])),
    .expr {} (.call {} (member (member (name "b") "pressed") "sub")
      [.arrow {} [] [.expr {} (.call {} (name "wait") [.literal {} (.number 1)])]])]

def threePresses : List Deed :=
  [.call .connected, .call .start, .call (.packet press), .clock 100, .call (.packet press), .call (.packet press),
    .clock 1100, .call .tick, .clock 2200, .call .tick]

/-- The handler runs once more for the two that come while it waits. -/
theorem requests_are_served_pressing : ∃ compiled m h n, compile Catalog.builtin {} pressingScript = .ok compiled ∧
      Machine.new compiled.image buttonHost {} (.ofSeed 1) = .ok m ∧ Moment.Reached m (h 0) ∧ Moment.Triggered 1 h n ∧
      (List.range n).countP (fun i => (h i).requests 1) = 3 ∧
      (List.range n).countP (fun i => (h i).begins (h (i + 1)) 1) = 2 ∧
      ∀ i < n, (h i).requests 1 = true → ∃ i' j, i ≤ i' ∧ j < n ∧ Moment.CompleteRun 1 h i' j := by
  have hplays : loadsTo {} pressingScript buttonHost (fun m =>
      m.fibers.length = 0 ∧ (m.trail threePresses).length = 134 ∧
      (∀ a ∈ m.trail threePresses, a.machine.panic = none) ∧
      (∀ a ∈ m.trail threePresses, a.overrunsIn 1 = false ∧ a.startsOtherwise 1 = false) ∧
      (List.range 133).countP (fun i => (m.history threePresses i).requests 1) = 3 ∧
      (List.range 133).countP (fun i => (m.history threePresses i).begins (m.history threePresses (i + 1)) 1) = 2 ∧
      ∀ f ∈ (m.history threePresses 133).machine.fibers, f.function ≠ 1) = true := by
    decide +kernel
  obtain ⟨compiled, m, hcompile, hnew, hcheck⟩ := exists_of_loadsTo hplays
  obtain ⟨hfibers, hlength, hpanic, hsteady, hrequests, hbegins, hnone⟩ := of_decide_eq_true hcheck
  have hfirst := Machine.history_zero threePresses m
  have hreached : Moment.Reached m (m.history threePresses 0) := hfirst ▸ .refl
  have htriggered : Moment.Triggered 1 (m.history threePresses) 133 := by
    have hmem {k : Nat} (hk : k ≤ 133) : m.history threePresses k ∈ m.trail threePresses :=
      Machine.history_mem (by omega)
    refine ⟨fun k hk => Machine.follows_history (by omega), ?_, fun k hk => hpanic _ (hmem hk),
      fun k hk => (hsteady _ (hmem (Nat.le_of_lt hk))).1, fun k hk => (hsteady _ (hmem (Nat.le_of_lt hk))).2⟩
    rw [hfirst]
    intro f hf
    rw [Moment.rest, List.length_eq_zero_iff.1 hfibers] at hf
    cases hf
  obtain ⟨-, hserved, -, -⟩ := Machine.requests_are_served hnew hreached htriggered (Nat.le_refl 133)
  exact ⟨compiled, m, _, 133, hcompile, hnew, hreached, htriggered, hrequests, hbegins, hserved hnone⟩

end BusScript
