import BusScript.Proofs.Reports
import BusScript.Proofs.Places
import BusScript.Proofs.Trails

namespace BusScript

namespace Fiber

def told (f : Fiber) (again : Bool) : Fiber := { f with isPending := f.isPending || again }

theorem told_false (f : Fiber) : f.told false = f := by rw [told, Bool.or_false]

theorem told_told (f : Fiber) (again again' : Bool) : (f.told again).told again' = f.told (again || again') := by
  simp only [told, Bool.or_assoc]

/-- A fiber of the function `fn` that has not run yet. It may have been told to run once more. -/
def Begun (image : Image) (id : UInt32) (fn : Nat) (f : Fiber) : Prop :=
  ∃ info args now again, image.functions[fn]? = some info ∧ f = (Fiber.start id (.enter fn info args) now).told again

theorem Begun.told {image : Image} {id : UInt32} {fn : Nat} {f : Fiber} (h : f.Begun image id fn) (again : Bool) :
    (f.told again).Begun image id fn := by
  obtain ⟨info, args, now, again', hinfo, rfl⟩ := h
  exact ⟨info, args, now, _, hinfo, told_told ..⟩

end Fiber

namespace Machine

variable {m m' m'' : Machine} {index : Nat} {states states' : List Machine}

/-- Whether the next word of the fiber at `index` tells the fiber at `j` to run once more. -/
def tells (m : Machine) (index j : Nat) : Bool :=
  (m.nextCall? index).any fun call =>
    call.1 == .backgroundPending && m.fibers.findIdx? (·.function == call.2.b) == some j

/-- The function for which the next word of the fiber at `index` starts a fiber. -/
def starts? (m : Machine) (index : Nat) : Option Nat :=
  (m.nextCall? index).bind fun call =>
    if call.1 ≠ .sync ∧ (call.1 = .background ∨ m.fibers.findIdx? (·.function == call.2.b) = none) then some call.2.b
    else none

/-- What words of the fiber at `index` leave of the others, if `states` are the machines at which they run. -/
structure Spares (index : Nat) (states : List Machine) (m m' : Machine) : Prop where
  image : m'.image = m.image
  nextFiberId : m'.nextFiberId = m.nextFiberId + .ofNat (states.filterMap (·.starts? index)).length
  length : m'.fibers.length = m.fibers.length + (states.filterMap (·.starts? index)).length
  old : ∀ j f, j ≠ index → m.fibers[j]? = some f → m'.fibers[j]? = some (f.told (states.any (·.tells index j)))
  new : ∀ k fn, (states.filterMap (·.starts? index))[k]? = some fn →
    ∃ f, m'.fibers[m.fibers.length + k]? = some f ∧ f.Begun m.image (m.nextFiberId + .ofNat k) fn

theorem Spares.trans (h : Spares index states m m') (h' : Spares index states' m' m'') (hindex : index < m.fibers.length) :
    Spares index (states ++ states') m m'' := by
  refine ⟨h'.image.trans h.image, ?_, ?_, fun j f hj hf => ?_, fun k fn hk => ?_⟩
  · rw [h'.nextFiberId, h.nextFiberId, List.filterMap_append, List.length_append, UInt32.ofNat_add, UInt32.add_assoc]
  · rw [h'.length, h.length, List.filterMap_append, List.length_append, Nat.add_assoc]
  · rw [h'.old j _ hj (h.old j f hj hf), Fiber.told_told, List.any_append]
  · rw [List.filterMap_append] at hk
    by_cases hlt : k < (states.filterMap (·.starts? index)).length
    · rw [List.getElem?_append_left hlt] at hk
      obtain ⟨f, hf, hbegun⟩ := h.new k fn hk
      exact ⟨_, h'.old _ f (by omega) hf, hbegun.told _⟩
    · have hle := Nat.le_of_not_lt hlt
      rw [List.getElem?_append_right hle] at hk
      obtain ⟨f, hf, hbegun⟩ := h'.new _ fn hk
      rw [h.length, Nat.add_assoc, Nat.add_sub_cancel' hle] at hf
      rw [h.image, h.nextFiberId, UInt32.add_assoc, ← UInt32.ofNat_add, Nat.add_sub_cancel' hle] at hbegun
      exact ⟨f, hf, hbegun⟩

theorem Spares.of_modify {g : Fiber → Fiber} (hfibers : m'.fibers = m.fibers.modify index g)
    (hid : m'.nextFiberId = m.nextFiberId) (himage : m'.image = m.image) (hstarts : states.filterMap (·.starts? index) = [])
    (htells : ∀ j, states.any (·.tells index j) = false) : Spares index states m m' := by
  refine ⟨himage, ?_, ?_, fun j f hj hf => ?_, fun k fn hk => ?_⟩
  · simp_all
  · simp_all
  · rw [hfibers, List.getElem?_modify_ne _ _ hj.symm, htells j, Fiber.told_false, hf]
  · rw [hstarts] at hk
    cases hk

theorem findIdx?_function_modify {fibers : List Fiber} {g : Fiber → Fiber} (hg : ∀ f, (g f).function = f.function) (fn : Nat) :
    (fibers.modify index g).findIdx? (·.function == fn) = fibers.findIdx? (·.function == fn) := by
  have hmap (fibers : List Fiber) :
      fibers.findIdx? (·.function == fn) = (fibers.map (·.function)).findIdx? (· == fn) := by
    rw [List.findIdx?_map]
    rfl
  have hsame : (fibers.modify index g).map (·.function) = fibers.map (·.function) := by
    apply List.ext_getElem?
    grind
  rw [hmap, hmap, hsame]

theorem starts?_singleton (m : Machine) (index : Nat) : [m].filterMap (·.starts? index) = (m.starts? index).toList := by
  grind

theorem tells_singleton (m : Machine) (index j : Nat) : [m].any (·.tells index j) = m.tells index j := by
  rw [List.any_cons, List.any_nil, Bool.or_false]

theorem Requested.spares {kind : CallKind} {p : Operands} {g : Fiber → Fiber}
    (h : Requested { m with operands := {}, fibers := m.fibers.modify index g } p.b kind m')
    (hcall : m.nextCall? index = some (kind, p)) (hkind : kind ≠ .sync) (hg : Fiber.Retains g) :
    Spares index [m] m m' := by
  have hfind := @findIdx?_function_modify index m.fibers g hg.function p.b
  have htells (j : Nat) : m.tells index j =
      (kind == .backgroundPending && m.fibers.findIdx? (·.function == p.b) == some j) := by
    rw [tells, hcall, Option.any_some]
  have hstarts : m.starts? index =
      if kind ≠ .sync ∧ (kind = .background ∨ m.fibers.findIdx? (·.function == p.b) = none) then some p.b else none := by
    rw [starts?, hcall, Option.bind_some]
  have hlength : (m.fibers.modify index g).length = m.fibers.length := List.length_modify ..
  have hold {j : Nat} {f : Fiber} (hj : j ≠ index) (hf : m.fibers[j]? = some f) : (m.fibers.modify index g)[j]? = some f :=
    (List.getElem?_modify_ne _ _ hj.symm).trans hf
  cases h with
  | @fresh info args hinfo hnone =>
    have hnew : kind = .background ∨ m.fibers.findIdx? (·.function == p.b) = none := by grind
    rw [if_pos ⟨hkind, hnew⟩] at hstarts
    have hnot (j : Nat) : m.tells index j = false := by grind
    refine ⟨rfl, ?_, ?_, fun j f hj hf => ?_, fun k fn hk => ?_⟩
    · rw [starts?_singleton, hstarts]
      rfl
    · simp_all
    · have hlt := (List.getElem?_eq_some_iff.1 hf).1
      rw [tells_singleton, hnot j, Fiber.told_false, List.getElem?_append_left (Nat.lt_of_lt_of_eq hlt hlength.symm)]
      exact hold hj hf
    · rw [starts?_singleton, hstarts] at hk
      obtain ⟨rfl, rfl⟩ : k = 0 ∧ fn = p.b := by grind
      refine ⟨_, ?_, info, args, m.host.now, false, hinfo, (Fiber.told_false _).symm⟩
      rw [Nat.add_zero, ← hlength, List.getElem?_concat_length, show UInt32.ofNat 0 = 0 from rfl, UInt32.add_zero]
  | @again k hpending hfound =>
    rw [hfind] at hfound
    subst hpending
    have hnone : m.starts? index = none := by simp_all
    refine ⟨rfl, ?_, ?_, fun j f hj hf => ?_, fun k fn hk => ?_⟩
    · simp_all
    · simp_all
    · rw [tells_singleton, htells, hfound, List.getElem?_modify, hold hj hf]
      by_cases hjk : k = j
      · simp [Fiber.told, hjk]
      · rw [beq_eq_false_iff_ne.2 fun h => hjk (Option.some.inj h), Bool.and_false, Fiber.told_false]
        simp only [hjk, if_false, Option.map_eq_map, Option.map_some]
    · simp_all
  | kept hbackground hpending hfound =>
    rw [hfind] at hfound
    refine .of_modify rfl rfl rfl ?_ fun j => ?_
    · simp_all
    · simp_all

theorem Spares.eraseIdx (h : Spares index states m m') (hindex : index < m.fibers.length) :
    ∃ started : List Fiber, m'.fibers.eraseIdx index =
        (m.fibers.mapIdx fun j f => f.told (states.any (·.tells index j))).eraseIdx index ++ started ∧
      started.length = (states.filterMap (·.starts? index)).length ∧
      ∀ k fn, (states.filterMap (·.starts? index))[k]? = some fn →
        ∃ f : Fiber, started[k]? = some f ∧ f.Begun m.image (m.nextFiberId + .ofNat k) fn := by
  have hle : m.fibers.length ≤ m'.fibers.length := Nat.le.intro h.length.symm
  refine ⟨m'.fibers.drop m.fibers.length, ?_, ?_, fun k fn hk => ?_⟩
  · conv_lhs => rw [← List.take_append_drop m.fibers.length m'.fibers]
    rw [List.eraseIdx_append_of_lt_length (by rwa [List.length_take_of_le hle])]
    congr 1
    apply List.ext_getElem?
    intro j
    have hsame (j : Nat) (hj : j ≠ index) : (m'.fibers.take m.fibers.length)[j]? =
        (m.fibers.mapIdx fun j f => f.told (states.any (·.tells index j)))[j]? := by
      rw [List.getElem?_mapIdx]
      cases hf : m.fibers[j]? with
      | none => exact List.getElem?_take_eq_none (List.getElem?_eq_none_iff.1 hf)
      | some f =>
        rw [List.getElem?_take_of_lt (List.getElem?_eq_some_iff.1 hf).1, h.old j f hj hf]
        rfl
    grind
  · rw [List.length_drop, h.length, Nat.add_sub_cancel_left]
  · rw [List.getElem?_drop]
    exact h.new k fn hk

end Machine

namespace Stepping

open Machine

variable {m m' : Machine} {index : Nat}

def words (index : Nat) : (left : Nat) → Machine → List Machine
  | 0, _ => []
  | left + 1, m => m ::
    match runWord index 0 (left + 1) m with
    | .ok (some _) m' => words index left m'
    | _ => []

def turnWords (index : Nat) (m : Machine) : List Machine :=
  match resume index m with
  | .ok true m' => words index (max m'.config.stepBudget 1) m'
  | _ => []

theorem Relists.spares (h : Relists index m m') (himage : m'.image = m.image) : Spares index [m] m m' := by
  cases h with
  | itself hcall hg hfibers hid =>
    rw [startsFiber] at hcall
    refine .of_modify hfibers hid himage ?_ fun j => ?_
    · rw [starts?_singleton, starts?]
      cases hnext : m.nextCall? index with
      | none => rfl
      | some call => simp_all
    · rw [tells_singleton, tells]
      cases hnext : m.nextCall? index with
      | none => rfl
      | some call => simp_all
  | requests hcall hkind hg hrequested =>
    exact hrequested.spares hcall hkind (retains_of_reframes hg ⟨fun _ => rfl, fun _ => rfl, fun _ => rfl⟩)

theorem runWord_spares {budget left left' : Nat} (h : runWord index budget (left + 1) m = .ok (some left') m') :
    Spares index [m] m m' := by
  simp only [runWord, bind, EStateM.bind] at h
  cases hstep : step index m with
  | error fault m₁ => rw [hstep] at h; cases h
  | ok flow m₁ =>
    rw [hstep] at h
    have hdid := did_of_step hstep
    have hspares := hdid.relists.spares hdid.stays.image
    cases flow with
    | next => cases h; exact hspares
    | park | stop => cases h
    | finish =>
      have hdone := finish_finished index m₁
      simp only [EStateM.bind] at h
      cases hfinish : finish index m₁ with
      | error fault m2 => rw [hfinish] at h; cases h
      | ok again m2 =>
        rw [hfinish] at h hdone
        rw [Outcome.ok_iff] at hdone
        cases hdone with
        | gone => cases h
        | again =>
          cases h
          obtain ⟨f, hf⟩ := fiber_of_step hstep
          have hrest : Spares index [] m₁ { m₁ with fibers := m₁.fibers.modify index fun f =>
              { f with isPending := false, frame := f.frame.restart } } :=
            .of_modify rfl rfl rfl rfl fun _ => rfl
          exact hspares.trans hrest (List.getElem?_eq_some_iff.1 hf).1

/-- How a fiber has run too long: it has run all its words. -/
structure RanOut (index : Nat) (states : List Machine) (m : Machine) (function : Nat) (m' : Machine) : Prop where
  spares : Spares index states m m'
  stays : m.Stays m'
  fiber : ∃ f, m'.fibers[index]? = some f ∧ f.frame.function = function

theorem runWord_stays (index budget left : Nat) (m : Machine) :
    Outcome (fun _ m' => m.Stays m') (fun fault _ => ∀ function steps, fault ≠ .timeout function steps)
      (runWord index budget (left + 1) m) := by
  have hflawed {fault : Fault} (h : ∃ flaw, fault = .invalid flaw) (function steps : Nat) :
      fault ≠ .timeout function steps := by grind
  rw [runWord]
  refine (step_did index m).bind (fun flow m' hdid => ?_) fun _ _ h => hflawed h.flaw
  cases flow with
  | next | park => exact hdid.stays
  | stop code => exact fun _ _ => by rintro ⟨⟩
  | finish =>
    exact (finish_finished index m').bind (fun _ _ hfinished => hdid.stays.trans hfinished.stays)
      fun _ _ h => hflawed h.2

theorem runWords_ranOut {budget left function steps : Nat} (hindex : index < m.fibers.length)
    (h : runWords index budget left m = .error (.timeout function steps) m') :
    steps = budget ∧ (words index left m).length = left ∧ RanOut index (words index left m) m function m' := by
  induction left generalizing m with
  | zero =>
    have hfiber := List.getElem?_eq_getElem hindex
    have hend : runWords index budget 0 m = .error (.timeout m.fibers[index].frame.function budget) m := by
      rw [runWords, bind_of_ok (fiber_eq hfiber)]
      rfl
    rw [hend] at h
    cases h
    refine ⟨rfl, rfl, ?_, ⟨⟨rfl, rfl, rfl, rfl, rfl, rfl, rfl⟩, rfl, rfl⟩, _, hfiber, rfl⟩
    exact .of_modify (List.modify_id ..).symm rfl rfl rfl fun _ => rfl
  | succ left ih =>
    have hstays := runWord_stays index budget left m
    rw [runWords_eq] at h
    simp only [bind, EStateM.bind] at h
    cases hword : runWord index budget (left + 1) m with
    | error fault m₁ => simp_all
    | ok left' m₁ =>
      rw [hword] at h hstays
      cases left' with
      | none => cases h
      | some left' =>
        obtain rfl : left = left' := Nat.succ.inj (eq_succ_of_runWord hword)
        have hspares := runWord_spares hword
        have hwords : words index (left + 1) m = m :: words index left m₁ := by
          rw [words, show runWord index 0 (left + 1) m = .ok (some left) m₁ from hword]
        obtain ⟨hsteps, hlength, hranOut⟩ := ih (by rw [hspares.length]; omega) h
        rw [hwords]
        exact ⟨hsteps, congrArg Nat.succ hlength, hspares.trans hranOut.spares hindex,
          Machine.Stays.trans hstays hranOut.stays, hranOut.fiber⟩

theorem Resumed.nextFiberId {goesOn : Bool} (h : Resumed index m goesOn m') : m'.nextFiberId = m.nextFiberId := by
  cases h <;> rfl

theorem Resumed.lt {goesOn : Bool} (h : Resumed index m goesOn m') : index < m.fibers.length := by
  cases h with
  | free hfiber | unbound hfiber | sends hfiber | answered hfiber => exact (List.getElem?_eq_some_iff.1 hfiber).1
  | asks hfiber | waits hfiber => exact (List.getElem?_eq_some_iff.1 hfiber).1

theorem runFiber_ranOut {function steps : Nat} (h : runFiber index m = .error (.timeout function steps) m') :
    index < m.fibers.length ∧ steps = max m.config.stepBudget 1 ∧ (turnWords index m).length = steps ∧
      RanOut index (turnWords index m) m function m' := by
  have hresumed := resume_resumed index m
  simp only [runFiber, bind, EStateM.bind] at h
  cases hresume : resume index m with
  | error fault m₁ =>
    rw [hresume] at h hresumed
    cases h
    exact (hresumed.2.1 function steps rfl).elim
  | ok goesOn m₁ =>
    rw [hresume] at h hresumed
    rw [Outcome.ok_iff] at hresumed
    cases goesOn with
    | false => cases h
    | true =>
      have hturn : turnWords index m = words index (max m₁.config.stepBudget 1) m₁ := by rw [turnWords, hresume]
      obtain ⟨g, -, hfibers⟩ := hresumed.retains
      have hspares : Spares index [] m m₁ :=
        .of_modify hfibers hresumed.nextFiberId hresumed.stays.image rfl fun _ => rfl
      obtain ⟨hsteps, hlength, hranOut⟩ := runWords_ranOut (by rw [hfibers, List.length_modify]; exact hresumed.lt) h
      rw [hturn]
      refine ⟨hresumed.lt, ?_, hlength.trans hsteps.symm, hspares.trans hranOut.spares hresumed.lt,
        hresumed.stays.trans hranOut.stays, hranOut.fiber⟩
      rw [hsteps, hresumed.stays.config]

end Stepping

/-! ### Passes -/

namespace Moment

variable {a b : Moment} {id : UInt32} {st : Stance} {tasks : List Task} {role : Nat} {p : Packet} {m' : Machine} {n n' : Nat}

/-- The fiber `id` comes up now, and finds the machine `m'`. -/
def ResumesFiber (a : Moment) (id : UInt32) (m' : Machine) : Prop :=
  ∃ pass index tasks f, a.Wakes pass index tasks ∧ a.next? = some (wake pass index tasks a.stage a.machine) ∧
    a.machine.fibers[index]? = some f ∧ f.id = id ∧ m' = pass.enter a.machine

theorem ResumesFiber.turn (h : a.ResumesFiber id m') : a.turn = none := by
  obtain ⟨_, _, _, _, hwakes, -⟩ := h
  exact hwakes.turn

theorem BringsUp.resumes (h : a.BringsUp st b) (hpanic : a.machine.panic = none) : ∃ m', a.ResumesFiber st.id m' := by
  have hresumes {pass : Pass} {index : Nat} {tasks : List Task} (hwakes : a.Wakes pass index tasks)
      (hst : a.machine.stances[index]? = some st) : ∃ m', a.ResumesFiber st.id m' := by
    rw [Machine.stances, List.getElem?_map, Option.map_eq_some_iff] at hst
    obtain ⟨f, hf, rfl⟩ := hst
    exact ⟨_, pass, index, tasks, f, hwakes, next?_of_wakes hwakes hpanic, hf, rfl, rfl⟩
  cases h with
  | goesOn hwakes hst | stays hwakes hst => exact hresumes hwakes hst

/-- The fiber `id` does not come up in the next `n` moments. -/
def Dormant (a : Moment) (n : Nat) (id : UInt32) : Prop := ∀ k < n, ∀ m', ¬ (a.after k).ResumesFiber id m'

theorem Dormant.append (h : a.Dormant n id) (h' : (a.after n).Dormant n' id) : a.Dormant (n + n') id := by
  intro k hk m' hresumes
  by_cases hlt : k < n
  · exact h k hlt m' hresumes
  · refine h' (k - n) (by omega) m' ?_
    rwa [← after_add, Nat.add_sub_cancel' (Nat.le_of_not_lt hlt)]

theorem Fit.after (h : a.Fit) (n : Nat) : (a.after n).Fit := by
  induction n generalizing a with
  | zero => exact h
  | succ n ih =>
    rw [Moment.after]
    cases hnext : a.next? with
    | none => exact ih h
    | some b => exact ih ((Follows.next hnext).fit h)

theorem Parks.after (h : a.Parks id st) (ha : a.Fit) (hdormant : a.Dormant n id) :
    (a.after n).machine.panic.isSome = true ∨ (a.after n).Parks id st := by
  induction n with
  | zero => exact .inr h
  | succ n ih =>
    have hparks := ih fun k hk => hdormant k (Nat.lt_succ_of_lt hk)
    rw [after_add]
    cases hnext : (a.after n).next? with
    | none => rwa [Moment.after, hnext, Option.getD_none, Moment.after]
    | some b =>
      rw [after_one hnext]
      have hfit := ha.after n
      have hpanic := hfit.panic_of_next hnext
      have hparks := hparks.resolve_left (by rw [hpanic]; decide)
      rcases (steps_of_next hpanic hnext).parks_or_bringsUp (hfit.orderly hpanic) hparks with hfailed | hparks | hbrings
      · exact .inl (((Follows.next hnext).fit hfit).panic_of_failed hfailed)
      · exact .inr hparks
      · obtain ⟨m', hresumes⟩ := hbrings.resumes hpanic
        rw [hparks.id] at hresumes
        exact (hdormant n (Nat.lt_succ_self n) m' hresumes).elim

/-- Only `tasks` are left to be done, unless the program has stopped. -/
def Through (tasks : List Task) (stage : Stage) (a : Moment) : Prop :=
  a.machine.panic.isSome = true ∨ a.machine.panic = none ∧ a.turn = none ∧ a.tasks = tasks ∧ a.stage = stage

theorem through_of_turn {turn : Turn} (ha : a.Fit) (hturn : a.turn = some turn) :
    ∃ n, (∀ k < n, (a.after k).turn ≠ none) ∧ Through a.tasks a.stage (a.after n) := by
  obtain ⟨left, hleft⟩ : ∃ left, turn.left = left := ⟨_, rfl⟩
  induction left using Nat.strongRecOn generalizing a turn with
  | ind left ih =>
    obtain ⟨hpanic, horderly⟩ := ha.live_of_turn hturn
    obtain ⟨b, hnext⟩ : ∃ b, a.next? = some b := by rw [next?, hturn]; exact ⟨_, rfl⟩
    have hb := (Follows.next hnext).fit ha
    have hafter (n : Nat) : a.after (n + 1) = b.after n := by rw [after, hnext, Option.getD_some]
    have hfirst {n : Nat} (h : ∀ k < n, (b.after k).turn ≠ none) : ∀ k < n + 1, (a.after k).turn ≠ none := by
      intro k hk
      cases k with
      | zero => rw [after, hturn]; rintro ⟨⟩
      | succ k => rw [hafter]; exact h k (Nat.lt_of_succ_lt_succ hk)
    -- the turn goes on with fewer words, or it ends here
    have hruns {turn' : Turn} (hturn' : b.turn = some turn') (hless : turn'.left < left) (htasks : b.tasks = a.tasks)
        (hstage : b.stage = a.stage) :
        ∃ n, (∀ k < n, (a.after k).turn ≠ none) ∧ Through a.tasks a.stage (a.after n) := by grind
    have hends (hthrough : Through a.tasks a.stage b) :
        ∃ n, (∀ k < n, (a.after k).turn ≠ none) ∧ Through a.tasks a.stage (a.after n) :=
      ⟨1, hfirst fun k hk => (Nat.not_lt_zero k hk).elim, hafter 0 ▸ hthrough⟩
    have hidle (hnone : a.turn = none) : False := by
      rw [hturn] at hnone
      cases hnone
    have hsame {turn' : Turn} (hturn' : a.turn = some turn') : turn' = turn := by
      rw [hturn, Option.some.injEq] at hturn'
      exact hturn'.symm
    cases steps_of_next hpanic hnext with
    | word hturn' hleft' | repeats hturn' hleft' =>
      obtain rfl := hsame hturn'
      exact hruns rfl (by rw [← hleft, hleft']; exact Nat.lt_succ_self _) rfl rfl
    | parks _ _ hdid =>
      refine hends (.inr ⟨?_, rfl, rfl, rfl⟩)
      rw [Pass.panic_leave]
      exact hdid.stays.panic.trans hpanic
    | ends _ _ hdid hfinished =>
      refine hends (.inr ⟨?_, rfl, rfl, rfl⟩)
      rw [Pass.panic_leave]
      exact (hdid.stays.trans hfinished.stays).panic.trans hpanic
    | overruns =>
      refine hends (.inr ⟨?_, rfl, rfl, rfl⟩)
      rw [Pass.panic_leave]
      exact hpanic
    | goesOn hwakes | stays hwakes => exact (hidle hwakes.turn).elim
    | starts hturn' | plans hturn' => exact (hidle hturn').elim
    | fails hsome => exact hends (.inl hsome)

variable {ids : List UInt32}

theorem ResumesFiber.of_observers {first : UInt32} (h : a.ResumesFiber id m')
    (htasks : a.tasks = .runObservers role p (first :: ids) :: tasks) :
    id = first ∧ m'.packet = p ∧ m'.wokenBy = some role := by
  obtain ⟨_, index, _, f, hwakes, -, hf, rfl, rfl⟩ := h
  cases hwakes with
  | due _ htasks' => rw [htasks] at htasks'; cases htasks'
  | observer _ htasks' hindex =>
    rw [htasks] at htasks'
    cases htasks'
    obtain ⟨hlt, hid, -⟩ := List.findIdx?_eq_some_iff_getElem.1 hindex
    rw [List.getElem?_eq_getElem hlt, Option.some.injEq] at hf
    exact ⟨by rw [← hf]; exact eq_of_beq hid, rfl, rfl⟩

theorem Parks.resumes (h : a.Parks id st) (hobserved : st.observed = some role)
    (hpanic : a.machine.panic = none) (hturn : a.turn = none)
    (htasks : a.tasks = .runObservers role p (id :: ids) :: tasks) : ∃ m', a.ResumesFiber id m' := by
  obtain ⟨hid, index, hlt, hst, hbefore⟩ := List.find?_eq_some_iff_getElem.1 h.found
  have hindex : Scheduling.fiberIndex? a.machine id = some index := by
    rw [Machine.fiberIndex?_eq, List.findIdx?_eq_some_iff_getElem]
    simp_all
  have hst' : a.machine.stances[index]? = some st := List.getElem?_eq_some_iff.2 ⟨hlt, hst⟩
  rw [Machine.stances, List.getElem?_map, Option.map_eq_some_iff] at hst'
  obtain ⟨f, hf, rfl⟩ := hst'
  have hwakes : a.Wakes (.observers role p) index (.runObservers role p ids :: tasks) :=
    .observer hturn htasks hindex hf hobserved
  exact ⟨_, _, index, _, f, hwakes, next?_of_wakes hwakes hpanic, hf, h.id, rfl⟩

theorem through_of_observer (ha : a.Fit) (hpanic : a.machine.panic = none) (hturn : a.turn = none)
    (htasks : a.tasks = .runObservers role p (id :: ids) :: tasks) : ∃ n, (∀ k < n, (a.after (k + 1)).turn ≠ none) ∧
      Through (.runObservers role p ids :: tasks) a.stage (a.after (n + 1)) := by
  obtain ⟨b, hnext⟩ : ∃ b, a.next? = some b := by rw [next?, hturn, htasks]; exact ⟨_, rfl⟩
  have hb := (Follows.next hnext).fit ha
  have hafter (n : Nat) : a.after (n + 1) = b.after n := by rw [after, hnext, Option.getD_some]
  have hends (hthrough : Through (.runObservers role p ids :: tasks) a.stage b) :
      ∃ n, (∀ k < n, (a.after (k + 1)).turn ≠ none) ∧
        Through (.runObservers role p ids :: tasks) a.stage (a.after (n + 1)) :=
    ⟨0, fun k hk => (Nat.not_lt_zero k hk).elim, hafter 0 ▸ hthrough⟩
  have htasks' {pass : Pass} {index : Nat} {tasks' : List Task} (hwakes : a.Wakes pass index tasks') :
      tasks' = .runObservers role p ids :: tasks := by
    cases hwakes with
    | due _ h => rw [htasks] at h; cases h
    | observer _ h => rw [htasks] at h; cases h; rfl
  have hidle {turn : Turn} (hsome : a.turn = some turn) : False := by
    rw [hturn] at hsome
    cases hsome
  cases steps_of_next hpanic hnext with
  | word hturn' | repeats hturn' | parks hturn' | ends hturn' | overruns hturn' => exact (hidle hturn').elim
  | goesOn hwakes =>
    obtain rfl := htasks' hwakes
    obtain ⟨n, hbusy, hthrough⟩ := through_of_turn hb rfl
    exact ⟨n, fun k hk => hafter k ▸ hbusy k hk, hafter n ▸ hthrough⟩
  | stays hwakes hresumed =>
    obtain rfl := htasks' hwakes
    refine hends (.inr ⟨?_, rfl, rfl, rfl⟩)
    rw [Pass.panic_leave]
    exact (hresumed.stays.panic.trans (Pass.panic_enter ..)).trans hpanic
  | starts _ h => rw [htasks] at h; cases h
  | plans _ hplans =>
    rw [htasks] at hplans
    cases hplans with
    | skipObserver => exact hends (.inr ⟨hpanic, rfl, rfl, rfl⟩)
  | fails hsome => exact hends (.inl hsome)

/-- The fiber `id` comes up exactly once in the next `n` moments, with the packet `p` because of `role`, or the program stops
before. -/
inductive Once (role : Nat) (p : Packet) (a : Moment) (n : Nat) (id : UInt32) : Prop
  | resumed {k : Nat} {m' : Machine} (hk : k < n) (hresumes : (a.after k).ResumesFiber id m') (hpacket : m'.packet = p)
      (hwokenBy : m'.wokenBy = some role) (honly : ∀ k' < n, ∀ m'', (a.after k').ResumesFiber id m'' → k' = k)
  | stopped (hpanic : (a.after n).machine.panic.isSome = true) (hdormant : a.Dormant n id)

theorem Once.later (h : Once role p (a.after n) n' id) (hdormant : a.Dormant n id) : Once role p a (n + n') id := by
  cases h with
  | @resumed k m' hk hresumes hpacket hwokenBy honly =>
    rw [← after_add] at hresumes
    refine .resumed (by omega) hresumes hpacket hwokenBy fun k' hk' m'' hresumes' => ?_
    by_cases hlt : k' < n
    · exact (hdormant k' hlt m'' hresumes').elim
    · rw [← Nat.add_sub_cancel' (Nat.le_of_not_lt hlt), after_add] at hresumes'
      have heq := honly (k' - n) (by omega) m'' hresumes'
      omega
  | stopped hpanic hdormant' => exact .stopped (by rwa [after_add]) (hdormant.append hdormant')

theorem Once.first (hresumes : a.ResumesFiber id m') (hpacket : m'.packet = p) (hwokenBy : m'.wokenBy = some role)
    (hdormant : (a.after 1).Dormant n id) : Once role p a (n + 1) id := by
  refine @Once.resumed role p a _ id 0 m' (Nat.succ_pos n) hresumes hpacket hwokenBy fun k hk m'' hresumes' => ?_
  cases k with
  | zero => rfl
  | succ k =>
    rw [Nat.add_comm, after_add] at hresumes'
    exact (hdormant k (Nat.lt_of_succ_lt_succ hk) m'' hresumes').elim

theorem through_of_observers (hnodup : ids.Nodup) (ha : a.Fit) (hpanic : a.machine.panic = none)
    (hturn : a.turn = none) (htasks : a.tasks = .runObservers role p ids :: tasks) :
    ∃ n, Through tasks a.stage (a.after n) ∧ (∀ id, id ∉ ids → a.Dormant n id) ∧
      ∀ id ∈ ids, ∀ st, a.Parks id st → st.observed = some role → Once role p a n id := by
  induction ids generalizing a with
  | nil =>
    have hnext : a.next? = some ⟨a.machine, none, tasks, a.stage⟩ := by rw [next?, hturn, htasks]; rfl
    refine ⟨1, .inr ?_, fun id _ k hk m' hresumes => ?_, fun id hmem => by cases hmem⟩
    · rw [after, hnext]
      exact ⟨hpanic, rfl, rfl, rfl⟩
    · obtain rfl : k = 0 := by omega
      obtain ⟨_, _, _, _, hwakes, -⟩ := hresumes
      cases hwakes with
      | due _ h | observer _ h => rw [after, htasks] at h; cases h
  | cons first ids ih =>
    obtain ⟨hnot, hnodup⟩ := List.nodup_cons.1 hnodup
    obtain ⟨n, hbusy, hthrough⟩ := through_of_observer ha hpanic hturn htasks
    have hdormant (id : UInt32) : (a.after 1).Dormant n id := by
      intro k hk m' hresumes
      rw [← after_add, Nat.add_comm] at hresumes
      exact hbusy k hk hresumes.turn
    have hothers {id : UInt32} (hid : id ≠ first) : a.Dormant (n + 1) id := by
      have hnow : a.Dormant 1 id := by
        intro k hk m' hresumes
        obtain rfl : k = 0 := by omega
        exact hid (hresumes.of_observers htasks).1
      rw [Nat.add_comm]
      exact hnow.append (hdormant id)
    have hcomes {st : Stance} (hparks : a.Parks first st) (hobserved : st.observed = some role) {n' : Nat}
        (hrest : (a.after (n + 1)).Dormant n' first) : Once role p a (n + 1 + n') first := by
      obtain ⟨m', hresumes⟩ := hparks.resumes hobserved hpanic hturn htasks
      obtain ⟨-, hpacket, hwokenBy⟩ := hresumes.of_observers htasks
      rw [Nat.add_right_comm]
      refine Once.first hresumes hpacket hwokenBy ((hdormant first).append ?_)
      rwa [← after_add, Nat.add_comm 1 n]
    rcases hthrough with hstopped | ⟨hpanic', hturn', htasks', hstage'⟩
    · refine ⟨n + 1, .inl hstopped, fun id hmem => hothers fun h => hmem (h ▸ List.mem_cons_self), ?_⟩
      intro id hmem st hparks hobserved
      by_cases hid : id = first
      · subst hid
        have hrest : (a.after (n + 1)).Dormant 0 id := fun k hk => (Nat.not_lt_zero k hk).elim
        exact hcomes hparks hobserved hrest
      · exact .stopped hstopped (hothers hid)
    · obtain ⟨n', hthrough, hdormant', honce⟩ := ih hnodup (ha.after (n + 1)) hpanic' hturn' htasks'
      rw [← after_add, hstage'] at hthrough
      refine ⟨n + 1 + n', hthrough, fun id hmem => ?_, fun id hmem st hparks hobserved => ?_⟩
      · have hid : id ≠ first := fun h => hmem (h ▸ List.mem_cons_self)
        exact (hothers hid).append (hdormant' id fun h => hmem (List.mem_cons_of_mem _ h))
      · by_cases hid : id = first
        · grind
        · have hparks' := (hparks.after ha (hothers hid)).resolve_left (by rw [hpanic']; decide)
          have hmem' := (List.mem_cons.1 hmem).resolve_left hid
          exact (honce id hmem' st hparks' hobserved).later (hothers hid)

theorem Orderly.nodup_observers (h : a.Orderly) (role : Nat) :
    ((a.machine.fibers.filter (·.observed == some role)).map (·.id)).Nodup := by
  have hpairwise := List.pairwise_map.1 h.apart
  refine List.pairwise_map.2 (List.Pairwise.imp_of_mem (fun {f g} hf hg hid heq => ?_) (hpairwise.filter _))
  have hnone : g.observed = none := congrArg Stance.observed (hid heq)
  simp_all

theorem Orderly.parks (h : a.Orderly) (hturn : a.turn = none) {f : Fiber} (hf : f ∈ a.machine.fibers)
    (hobserved : f.observed = some role) : a.Parks f.id f.stance := by
  obtain ⟨index, hindex⟩ := List.mem_iff_getElem?.1 hf
  have hst := Machine.getElem?_stances hindex
  refine .of_idle hturn (find?_of_found (h.apart.found hst fun hfresh => ?_) hst)
  have hnone : f.observed = none := congrArg Stance.observed hfresh
  rw [hobserved] at hnone
  cases hnone

theorem through_of_wakeRole (ha : a.Fit) (hpanic : a.machine.panic = none) (hturn : a.turn = none)
    (htasks : a.tasks = .wakeRole role p :: tasks) :
    ∃ n, Through tasks a.stage (a.after n) ∧ ∀ f ∈ a.machine.fibers, f.observed = some role → Once role p a n f.id := by
  have hnext : a.next? = some ⟨{ a.machine with packet := p }, none,
      .runObservers role p ((a.machine.fibers.filter (·.observed == some role)).map (·.id)) :: tasks, a.stage⟩ := by
    rw [next?, hturn, htasks]
    rfl
  have hafter (n : Nat) := @after_add a 1 n
  rw [after_one hnext] at hafter
  have hdormant (id : UInt32) : a.Dormant 1 id := by
    intro k hk m' hresumes
    obtain rfl : k = 0 := by omega
    obtain ⟨_, _, _, _, hwakes, -⟩ := hresumes
    cases hwakes with
    | due _ h | observer _ h => rw [after, htasks] at h; cases h
  have hb := (Follows.next hnext).fit ha
  obtain ⟨n, hthrough, -, honce⟩ := through_of_observers ((ha.orderly hpanic).nodup_observers role) hb hpanic rfl rfl
  refine ⟨1 + n, hafter n ▸ hthrough, fun f hf hobserved => ?_⟩
  have hmem : f.id ∈ (a.machine.fibers.filter (·.observed == some role)).map (·.id) :=
    List.mem_map_of_mem (List.mem_filter.2 ⟨hf, beq_iff_eq.2 hobserved⟩)
  have hparks := (hb.orderly hpanic).parks rfl hf hobserved
  refine Once.later ?_ (hdormant f.id)
  rw [after_one hnext]
  exact honce f.id hmem f.stance hparks hobserved

end Moment

namespace Machine

open Moment

variable {m : Machine} {bytes : Bytes} {host : Host} {config : Config} {random : Random}

/-- A fiber that runs too long is removed alone. It has run all its words; the others are as they were, but for those that it
told to run once more; those that it started come behind them. When a role wakes its observers with a packet, each of them
comes up exactly once, with that packet and because of that role, whatever the others do, unless the program stops before. A
call in which nothing fails reports the first fiber that ran too long. -/
theorem overrun_removes_one_fiber (hnew : Machine.new bytes host config random = .ok m) :
    (∀ (m₀ m₁ : Machine) (index function steps : Nat), m₀.panic = none →
      Stepping.runFiber index m₀ = .error (.timeout function steps) m₁ →
        index < m₀.fibers.length ∧ steps = max m₀.config.stepBudget 1 ∧
        (Stepping.turnWords index m₀).length = steps ∧
        ∃ m' started, Scheduling.run index m₀ = .ok () m' ∧ m'.panic = none ∧
          m'.overrun = m₀.overrun.or (some (function, steps)) ∧
          m'.fibers = (m₀.fibers.mapIdx fun j f =>
            f.told ((Stepping.turnWords index m₀).any (·.tells index j))).eraseIdx index ++ started ∧
          started.length = ((Stepping.turnWords index m₀).filterMap (·.starts? index)).length ∧
          ∀ k fn, ((Stepping.turnWords index m₀).filterMap (·.starts? index))[k]? = some fn →
            ∃ f : Fiber, started[k]? = some f ∧ f.Begun m₀.image (m₀.nextFiberId + .ofNat k) fn) ∧
    (∀ (a : Moment) (role : Nat) (p : Packet) (tasks : List Task), Reached m a → a.machine.panic = none →
      a.turn = none → a.tasks = .wakeRole role p :: tasks → ∃ n, Through tasks a.stage (a.after n) ∧
          ∀ f ∈ a.machine.fibers, f.observed = some role → Once role p a n f.id) ∧
    ∀ (m₀ m' : Machine) (call : HostCall) (fuel : Nat) (outcome : Except MachineError Unit), m₀.panic = none →
      call.run fuel m₀ = some (outcome, m') → isFatal outcome = false → ∃ n, ((call.first m₀).after n).isOver = true ∧
          outcome = timedOut (m₀.overrun.or ((call.first m₀).overrunIn? n)) := by
  refine ⟨fun m₀ m₁ index function steps hpanic hrun => ?_, fun a role p tasks hreached hpanic hturn htasks => ?_,
    fun m₀ m' call fuel outcome hpanic hrun hfatal => ?_⟩
  · obtain ⟨hindex, hsteps, hlength, hranOut⟩ := Stepping.runFiber_ranOut hrun
    obtain ⟨started, hfibers, hstarted⟩ := hranOut.spares.eraseIdx hindex
    have hleft : Scheduling.run index m₀ = .ok () { m₁.betweenFibers with
        fibers := m₁.fibers.eraseIdx index
        overrun := m₁.overrun.or (some (function, steps)) } := by
      rw [Scheduling.run_eq, hpanic, hrun, Option.or_eq_orElse]
      rfl
    rw [hranOut.stays.overrun] at hleft
    exact ⟨hindex, hsteps, hlength, _, started, hleft, hranOut.stays.panic.trans hpanic, rfl, hfibers, hstarted⟩
  · exact through_of_wakeRole (hreached.fit hnew) hpanic hturn htasks
  · obtain ⟨hreport, -, n, hover, houtcome⟩ := HostCall.report_of_run hpanic hrun
    refine ⟨n, hover, houtcome ?_⟩
    rw [isFatal_eq, Option.isSome_eq_false_iff, Option.isNone_iff_eq_none] at hfatal
    exact hreport.trans hfatal

end Machine

open Script in
/-- A button has a handler. The script itself waits until the button is pressed, and then calls a function that never
returns. -/
def spinningScript : List Stmt :=
  [.function {} { name := ⟨"f", {}⟩, params := [] } [.expr {} (.call {} (name "f") [])],
    declare "b" (some (.call {} (member (name "roles") "button") [])),
    .expr {} (.call {} (member (member (name "b") "pressed") "sub") [.arrow {} [] []]),
    .expr {} (.call {} (member (member (name "b") "pressed") "wait") []),
    .expr {} (.call {} (name "f") [])]

def onePress : List Deed := [.call .connected, .call .start, .call (.packet press)]

/-- Whether a role is about to wake its observers. -/
def Moment.isWaking (a : Moment) (role : Nat) (p : Packet) : Bool :=
  match a.turn, a.tasks with
  | none, .wakeRole role' p' :: _ => role' == role && p' == p
  | _, _ => false

theorem Moment.tasks_of_isWaking {a : Moment} {role : Nat} {p : Packet} (h : a.isWaking role p = true) :
    a.turn = none ∧ ∃ tasks, a.tasks = .wakeRole role p :: tasks := by
  rw [isWaking] at h
  split at h
  · next hturn htasks =>
    rw [Bool.and_eq_true, beq_iff_eq, beq_iff_eq] at h
    obtain ⟨rfl, rfl⟩ := h
    exact ⟨hturn, _, htasks⟩
  · cases h

/-- The procedure that a fiber was in when it ran too long, and how many words it had run. -/
def Stepping.overran? : EStateM.Result Fault Machine Unit → Option (Nat × Nat)
  | .error (.timeout function steps) _ => some (function, steps)
  | _ => none

theorem Stepping.eq_of_overran? {result : EStateM.Result Fault Machine Unit} {function steps : Nat}
    (h : overran? result = some (function, steps)) : ∃ m, result = .error (.timeout function steps) m := by
  rw [overran?.eq_def] at h
  split at h
  · cases h
    exact ⟨_, rfl⟩
  · cases h

/-- The script runs too long, and yet the other observer of the button is told of the press. -/
theorem overrun_removes_one_fiber_spinning :
    ∃ compiled m a m₁ m' n, compile Catalog.builtin {} spinningScript = .ok compiled ∧
      Machine.new compiled.image buttonHost { stepBudget := 13 } (.ofSeed 1) = .ok m ∧ Moment.Reached m a ∧
      a.isWaking 0 press = true ∧ a.machine.fibers.map (fun f => (f.id, f.observed)) = [(0, some 0), (1, some 0)] ∧
      Stepping.runFiber 0 ((Pass.observers 0 press).enter a.machine) = .error (.timeout 1 13) m₁ ∧
      Scheduling.run 0 ((Pass.observers 0 press).enter a.machine) = .ok () m' ∧ m'.panic = none ∧
      m'.overrun = some (1, 13) ∧ Moment.Once 0 press a n 1 := by
  have hloads : loadsTo { stepBudget := 13 } spinningScript buttonHost (fun m =>
      (m.trail onePress).length = 74 ∧
      let a := m.history onePress 34
      a.isWaking 0 press = true ∧ a.machine.panic = none ∧ a.machine.overrun = none ∧
      a.machine.fibers.map (fun f => (f.id, f.observed)) = [(0, some 0), (1, some 0)] ∧
      Stepping.overran? (Stepping.runFiber 0 ((Pass.observers 0 press).enter a.machine)) = some (1, 13)) = true := by
    decide +kernel
  obtain ⟨compiled, m, hcompile, hnew, hcheck⟩ := exists_of_loadsTo hloads
  obtain ⟨hlength, hwaking, hpanic, hoverrun, hfibers, htimeout⟩ := of_decide_eq_true hcheck
  have hreached : Moment.Reached m (m.history onePress 34) := Machine.reached_history (by omega)
  generalize m.history onePress 34 = a at *
  obtain ⟨hruns, hpass, -⟩ := Machine.overrun_removes_one_fiber hnew
  obtain ⟨m₁, hrun⟩ := Stepping.eq_of_overran? htimeout
  obtain ⟨-, -, -, m', -, hleft, hpanic', hoverrun', -⟩ := hruns ((Pass.observers 0 press).enter a.machine) m₁ 0 1 13
    (by rw [Pass.panic_enter, hpanic]) hrun
  rw [show ((Pass.observers 0 press).enter a.machine).overrun = none from hoverrun, Option.none_or] at hoverrun'
  obtain ⟨hturn, tasks, htasks⟩ := Moment.tasks_of_isWaking hwaking
  obtain ⟨n, -, honce⟩ := hpass a 0 press tasks hreached hpanic hturn htasks
  obtain ⟨f, hf, hstance⟩ := List.mem_map.1 (hfibers ▸ List.mem_cons_of_mem _ List.mem_cons_self)
  obtain ⟨hid, hobserved⟩ := Prod.mk.inj hstance
  exact ⟨compiled, m, a, m₁, m', n, hcompile, hnew, hreached, hwaking, hfibers, hrun, hleft, hpanic', hoverrun',
    hid ▸ honce f hf hobserved⟩

end BusScript
