import BusScript.Proofs.CallMoments
import BusScript.Proofs.Collections

/-!
What the scheduler sees of the fibers: their ids, when they go on, which roles they observe, and their requests.
Two fibers share an id only after all ids have been used up. Then the later one has not run yet, so a fiber that has
run is the one that is found by its id.
-/

namespace BusScript

structure Stance where
  id : UInt32
  wakeAt : Option Nat
  observed : Option Nat
  request : Option Request
  deriving DecidableEq

def Fiber.stance (f : Fiber) : Stance := ⟨f.id, f.wakeAt, f.observed, f.request⟩

def Machine.stances (m : Machine) : List Stance := m.fibers.map Fiber.stance

def Stance.fresh (id : UInt32) (now : Nat) : Stance := ⟨id, some now, none, none⟩

def Stance.isDue (s : Stance) (now : Nat) : Bool := s.wakeAt.any (· ≤ now)

namespace Machine

variable {m : Machine}

theorem getElem?_stances {index : Nat} {f : Fiber} (h : m.fibers[index]? = some f) :
    m.stances[index]? = some f.stance := by
  rw [stances, List.getElem?_map, h, Option.map_some]

theorem fiberIndex?_eq (id : UInt32) : Scheduling.fiberIndex? m id = m.stances.findIdx? (·.id == id) := by
  rw [stances, List.findIdx?_map]
  rfl

end Machine

variable {index : Nat} {g : Fiber → Fiber}

theorem map_stance_modify {fibers : List Fiber} {h : Stance → Stance}
    (hg : ∀ f, fibers[index]? = some f → (g f).stance = h f.stance) :
    (fibers.modify index g).map Fiber.stance = (fibers.map Fiber.stance).modify index h := by
  apply List.ext_getElem?
  grind

theorem map_stance_eq {fibers : List Fiber} (hg : ∀ f, (g f).stance = f.stance) :
    (fibers.modify index g).map Fiber.stance = fibers.map Fiber.stance := by
  rw [map_stance_modify (h := id) fun f _ => hg f, List.modify_id]

theorem stance_of_reframes {h : Fiber → Fiber} (hg : Fiber.Reframes h g) (f : Fiber) : (g f).stance = (h f).stance := by
  obtain ⟨frame, callers, heq⟩ := hg f
  rw [heq]
  rfl

theorem Machine.Computed.stances {m m' : Machine} (h : m.Computed index m') : m'.stances = m.stances := by
  obtain ⟨g, hg, hfibers⟩ := h.fibers
  rw [Machine.stances, hfibers, map_stance_eq (stance_of_reframes hg)]
  rfl

theorem Machine.Started.stances {m m' : Machine} (h : m.Started m') :
    m'.stances = m.stances ∨ ∃ id, m'.stances = m.stances ++ [.fresh id m.host.now] := by
  cases h with
  | fresh frame => exact .inr ⟨m.nextFiberId, List.map_append⟩
  | again j =>
    exact .inl (map_stance_eq fun _ => rfl)
  | kept => exact .inl rfl

namespace Stepping

open Machine

variable {m m' : Machine} {index : Nat}

/-- What a word of the fiber at `index` does to the stances. -/
inductive Acts (now : Nat) (roles : List Role) (index : Nat) (s : List Stance) : Flow → List Stance → Prop
  | keeps {flow : Flow} (hflow : flow ≠ .park) : Acts now roles index s flow s
  | starts (id : UInt32) : Acts now roles index s .next (s ++ [.fresh id now])
  | observes (role : Nat) : Acts now roles index s .next (s.modify index ({ · with observed := some role }))
  | sleeps (wakeAt : Option Nat) : Acts now roles index s .park (s.modify index ({ · with wakeAt }))
  | requests {request : Request} {r : Role} (hrole : roles[request.role]? = some r) :
      Acts now roles index s .park (s.modify index ({ · with
        observed := some request.role, request := some request, wakeAt := some now }))

theorem Did.acts {flow : Flow} (h : Did index m flow m') : Acts m.host.now m.roles index m.stances flow m'.stances := by
  have hmodify {flow : Flow} {g h : Fiber → Fiber} {k : Stance → Stance}
      (hacts : Acts m.host.now m.roles index m.stances flow (m.stances.modify index k))
      (hg : Fiber.Reframes h g) (hk : ∀ f, (h f).stance = k f.stance) :
      Acts m.host.now m.roles index m.stances flow ((m.fibers.modify index g).map Fiber.stance) := by
    rwa [map_stance_modify fun f _ => (stance_of_reframes hg f).trans (hk f)]
  have hkeeps {g : Fiber → Fiber} (hg : Fiber.Reframes id g) :
      Acts m.host.now m.roles index m.stances .next ((m.fibers.modify index g).map Fiber.stance) := by
    rw [map_stance_eq (stance_of_reframes hg)]
    exact .keeps (by rintro ⟨⟩)
  cases h with
  | computes hcall hasync hflow h => rw [h.stances]; exact .keeps hflow
  | @starts g _ _ _ hcall hasync hg hstart =>
    have hmoved : Machine.stances { m with operands := {}, fibers := m.fibers.modify index g } = m.stances :=
      map_stance_eq (stance_of_reframes hg)
    rcases hstart.started.stances with hstances | ⟨id, hstances⟩
    · rw [hstances, hmoved]
      exact .keeps (by rintro ⟨⟩)
    · rw [hstances, hmoved]
      exact .starts id
  | observes hcall hasync hg => exact hmodify (.observes _) hg fun _ => rfl
  | pauses hasync hg | uploads hasync hg => exact hmodify (.sleeps _) hg fun _ => rfl
  | signals hasync hrole hlocal hg | hits hasync hreads hrole hbinding hcache hg => exact hkeeps hg
  | @sends p r g hasync hrole hlocal hg =>
    exact hmodify (@Acts.requests _ _ _ _ (.send p.a p.b.toUInt16 m.packet.data) r hrole) hg fun _ => rfl
  | @asks role validity code p r cache g hasync hreads hrole hcache hg =>
    exact hmodify (@Acts.requests _ _ _ _ (.query role code m.config.resendInitial) r hrole) hg fun _ => rfl

/-- What becomes of the stances when the fiber at `index` comes up and stays parked. -/
inductive Holds (now : Nat) (roles : List Role) (index : Nat) (s : List Stance) : List Stance → Prop
  | unbound {st : Stance} {request : Request} {r : Role} (hst : s[index]? = some st)
      (hrequest : st.request = some request) (hrole : roles[request.role]? = some r)
      (hbinding : r.binding = none) :
      Holds now roles index s (s.modify index ({ · with wakeAt := none }))
  | asks {st : Stance} {role resend later : Nat} {code : CommandCode} {r : Role} {b : Binding}
      (hst : s[index]? = some st) (hrequest : st.request = some (.query role code resend))
      (hrole : roles[role]? = some r) (hbinding : r.binding = some b) :
      Holds now roles index s (s.modify index ({ · with
        request := some (.query role code later), wakeAt := some (now + resend) }))
  | waits {st : Stance} {role resend time : Nat} {code : CommandCode} {r : Role} {b : Binding}
      (hst : s[index]? = some st) (hrequest : st.request = some (.query role code resend))
      (hrole : roles[role]? = some r) (hbinding : r.binding = some b)
      (hwakeAt : st.wakeAt = some time) (htime : now < time) : Holds now roles index s s

theorem Resumed.holds (h : Resumed index m false m') : Holds m.host.now m.roles index m.stances m'.stances := by
  have hmodify {g : Fiber → Fiber} {k : Stance → Stance}
      (hholds : Holds m.host.now m.roles index m.stances (m.stances.modify index k))
      (hk : ∀ f, (g f).stance = k f.stance) :
      Holds m.host.now m.roles index m.stances ((m.fibers.modify index g).map Fiber.stance) := by
    rwa [map_stance_modify fun f _ => hk f]
  cases h with
  | unbound hfiber hrequest hrole hbinding =>
    exact hmodify (.unbound (getElem?_stances hfiber) hrequest hrole hbinding) fun _ => rfl
  | asks hfiber hrequest hrole hbinding hdue hsend =>
    exact hmodify (.asks (getElem?_stances hfiber) hrequest hrole hbinding) fun _ => rfl
  | @waits f role resend code r b hfiber hrequest hrole hbinding hdue =>
    cases hwakeAt : f.wakeAt with
    | none => rw [hwakeAt] at hdue; cases hdue
    | some time =>
      rw [hwakeAt, Option.all_some, decide_eq_false_iff_not, Nat.not_le] at hdue
      exact .waits (getElem?_stances hfiber) hrequest hrole hbinding hwakeAt hdue

theorem Holds.request {now : Nat} {roles : List Role} {s s' : List Stance} (h : Holds now roles index s s')
    {st : Stance} (hst : s[index]? = some st) : st.request ≠ none := by
  cases h with
  | unbound | asks | waits => grind

theorem Resumed.stances (h : Resumed index m true m') : m'.stances = m.stances.modify index
      ({ · with wakeAt := none, observed := none, request := none }) := by
  have hmodify {g h : Fiber → Fiber} (hg : Fiber.Reframes h g) (hh : ∀ f, m.fibers[index]? = some f →
        h f = { f with wakeAt := none, observed := none, request := none }) :
      (m.fibers.modify index g).map Fiber.stance = m.stances.modify index
        ({ · with wakeAt := none, observed := none, request := none }) := by
    refine map_stance_modify fun f hf => ?_
    rw [stance_of_reframes hg, hh f hf]
    rfl
  cases h with
  | @free f g hfiber hrequest hg =>
    refine hmodify hg fun f' hf' => ?_
    simp_all
  | sends hfiber hrequest hrole hbinding hsend hg => exact hmodify hg fun _ _ => rfl
  | answered hfiber hrequest hrole hreceives hreport hcode hg => exact hmodify hg fun _ _ => rfl

theorem Finished.stances {goesOn : Bool} (h : Finished index m goesOn m') :
    m'.stances = if goesOn then m.stances else m.stances.eraseIdx index := by
  cases h with
  | again => exact map_stance_eq fun _ => rfl
  | gone => exact (List.eraseIdx_map ..).symm

end Stepping

/-- Of two fibers with one id, the later one has just been started. -/
def Stance.Apart (now : Nat) (s : List Stance) : Prop :=
  s.Pairwise fun x y => x.id = y.id → y = .fresh y.id now

/-- The fiber at `index` is the one that its id finds. -/
def Stance.Found (s : List Stance) (index : Nat) : Prop :=
  ∃ st, s[index]? = some st ∧ s.findIdx? (·.id == st.id) = some index

namespace Stance

variable {now index : Nat} {s : List Stance}

variable {g : Stance → Stance}

theorem map_id_modify (hg : ∀ st, (g st).id = st.id) (s : List Stance) :
    (s.modify index g).map (·.id) = s.map (·.id) := by
  apply List.ext_getElem?
  grind

theorem findIdx?_modify (hg : ∀ st, (g st).id = st.id) (s : List Stance) (id : UInt32) :
    (s.modify index g).findIdx? (·.id == id) = s.findIdx? (·.id == id) := by
  have hmap (s : List Stance) : s.findIdx? (·.id == id) = (s.map (·.id)).findIdx? (· == id) := by
    rw [List.findIdx?_map]
    rfl
  rw [hmap, hmap, map_id_modify hg]

theorem Found.modify (h : Found s index) (j : Nat) (hg : ∀ st, (g st).id = st.id) : Found (s.modify j g) index := by
  obtain ⟨st, hst, hfind⟩ := h
  refine ⟨if j = index then g st else st, ?_, ?_⟩
  · rw [List.getElem?_modify, hst]
    by_cases hj : j = index
    · simp only [hj, if_true, Option.map_eq_map, Option.map_some]
    · simp only [hj, if_false, Option.map_eq_map, Option.map_some]
  · rw [findIdx?_modify hg, ← hfind]
    split
    · rw [hg]
    · rfl

theorem Found.append (h : Found s index) (t : List Stance) : Found (s ++ t) index := by
  obtain ⟨st, hst, hfind⟩ := h
  obtain ⟨hlt, -⟩ := List.getElem?_eq_some_iff.1 hst
  refine ⟨st, by rw [List.getElem?_append_left hlt, hst], ?_⟩
  rw [List.findIdx?_append, hfind]
  rfl

theorem Found.ne_of_lt (h : Found s index) {j : Nat} {x y : Stance} (hj : j < index) (hx : s[j]? = some x)
    (hy : s[index]? = some y) : x.id ≠ y.id := by
  obtain ⟨st, hst, hfind⟩ := h
  rw [hst, Option.some.injEq] at hy
  subst hy
  obtain ⟨hlt, -, hbefore⟩ := List.findIdx?_eq_some_iff_getElem.1 hfind
  grind

theorem Apart.modify (h : Apart now s) (hfound : Found s index)
    (hg : ∀ st, (g st).id = st.id) : Apart now (s.modify index g) := by
  rw [Apart, List.pairwise_iff_getElem] at h ⊢
  intro i j hi hj hij heq
  rw [List.length_modify] at hi hj
  have hid := h i j hi hj hij
  rw [List.getElem_modify, List.getElem_modify] at heq
  rw [List.getElem_modify]
  by_cases hindex : index = j
  · -- no earlier fiber has the id of the one that changes
    subst hindex
    rw [if_neg (by omega), if_pos rfl, hg] at heq
    exact (hfound.ne_of_lt hij (List.getElem?_eq_getElem hi) (List.getElem?_eq_getElem hj) heq).elim
  · grind

theorem Apart.append (h : Apart now s) (id : UInt32) : Apart now (s ++ [fresh id now]) := by
  refine List.pairwise_append.2 ⟨h, List.pairwise_singleton .., fun x _ y hy _ => ?_⟩
  rw [List.mem_singleton.1 hy]
  rfl

theorem Apart.eraseIdx (h : Apart now s) (j : Nat) : Apart now (s.eraseIdx j) :=
  h.sublist (List.eraseIdx_sublist ..)

theorem Apart.found (h : Apart now s) {st : Stance} (hst : s[index]? = some st)
    (hrun : st ≠ fresh st.id now) : Found s index := by
  refine ⟨st, hst, List.findIdx?_eq_some_iff_getElem.2 ?_⟩
  obtain ⟨hlt, heq⟩ := List.getElem?_eq_some_iff.1 hst
  refine ⟨hlt, by rw [heq, beq_self_eq_true], fun j hj hid => hrun ?_⟩
  have hfresh := List.pairwise_iff_getElem.1 h j index (by omega) hlt hj
  simp_all

theorem Apart.nodup (h : Apart now s) (hdue : ∀ st ∈ s, st.isDue now = false) : (s.map (·.id)).Nodup := by
  refine List.pairwise_map.2 (List.Pairwise.imp_of_mem (fun hx hy hid heq => ?_) h)
  have hfresh := hdue _ hy
  rw [hid heq, isDue, fresh, Option.any_some, decide_eq_false_iff_not] at hfresh
  exact hfresh (Nat.le_refl now)

theorem apart_of_nodup (h : (s.map (·.id)).Nodup) : Apart now s :=
  (List.pairwise_map.1 h).imp fun hne heq => (hne heq).elim

end Stance

namespace Machine

variable (pass : Pass) (m : Machine)

/-- Nothing is left over of a fiber. -/
structure Tidy : Prop where
  operands : m.operands = {}
  wokenBy : m.wokenBy = none

@[simp] theorem stances_enter : (pass.enter m).stances = m.stances := by cases pass <;> rfl

@[simp] theorem stances_leave : (pass.leave m).stances = m.stances := by cases pass <;> rfl

theorem stances_rest : (pass.leave m.betweenFibers).stances = m.stances := stances_leave ..

end Machine

namespace Moment

variable {a b : Moment}

def HasFailed (a : Moment) : Prop := ∃ why, a.stage = .failed why

theorem Stands.isOver_of_failed (h : a.Stands) (hfailed : a.HasFailed) : a.isOver = true := by
  obtain ⟨why, hstage⟩ := hfailed
  cases h with
  | live hpanic hopen => rw [hstage] at hopen; cases hopen
  | done hpanic hrest hsettled => rw [hrest] at hstage; cases hstage
  | failed error hpanic hfailed => rw [hfailed]; rfl

theorem after_of_steps {P : Moment → Prop}
    (hstep : ∀ a b : Moment, a.machine.panic = none → P a → a.Steps b → b.HasFailed ∨ P b)
    (hstands : a.Stands) (ha : P a) (n : Nat) : (a.after n).HasFailed ∨ P (a.after n) := by
  induction n generalizing a with
  | zero => exact .inr ha
  | succ n ih =>
    rw [after]
    cases hnext : a.next? with
    | none => exact ih hstands ha
    | some b =>
      rw [Option.getD_some]
      cases hstands with
      | live hpanic hstage =>
        have hsteps := steps_of_next hpanic hnext
        have hb := hsteps.stands hpanic hstage
        rcases hstep a b hpanic ha hsteps with hfailed | hP
        · rw [after_of_isOver (hb.isOver_of_failed hfailed)]
          exact .inl hfailed
        · exact ih hb hP
      | done hpanic hrest hsettled => rw [hrest] at hnext; cases hnext
      | failed error hpanic hfailed => rw [hfailed] at hnext; cases hnext

/-- Fibers that have run are found by their ids, and a fiber that runs has no request. -/
structure Orderly (a : Moment) : Prop where
  apart : Stance.Apart a.machine.host.now a.machine.stances
  found : ∀ turn, a.turn = some turn → Stance.Found a.machine.stances turn.index
  request : ∀ turn st, a.turn = some turn → a.machine.stances[turn.index]? = some st → st.request = none
  clock : ∀ now ids, .runDue now ids ∈ a.tasks → now = a.machine.host.now
  tidy : a.turn = none → a.machine.Tidy
  timer : ∀ turn, a.turn = some turn → turn.pass = .timer → a.machine.wokenBy = none

variable {tasks tasks' : List Task} {index : Nat} {m m' : Machine} {pass : Pass} {stage stage' : Stage}

theorem found_of_fiberIndex? {id : UInt32} (h : Scheduling.fiberIndex? m id = some index) :
    Stance.Found m.stances index := by
  rw [Machine.fiberIndex?_eq] at h
  obtain ⟨hlt, hid, -⟩ := List.findIdx?_eq_some_iff_getElem.1 h
  refine ⟨m.stances[index], List.getElem?_eq_getElem hlt, ?_⟩
  rwa [beq_iff_eq.1 hid]

theorem Wakes.found (h : a.Wakes pass index tasks) : Stance.Found a.machine.stances index := by
  cases h with
  | due hturn htasks hindex | observer hturn htasks hindex => exact found_of_fiberIndex? hindex

variable {s s' : List Stance} {now : Nat} {roles : List Role}

theorem apart_of_acts {flow : Flow} (hacts : Stepping.Acts now roles index s flow s') (hapart : Stance.Apart now s)
    (hfound : Stance.Found s index) : Stance.Apart now s' ∧ Stance.Found s' index := by
  cases hacts with
  | keeps hflow => exact ⟨hapart, hfound⟩
  | starts id => exact ⟨hapart.append id, hfound.append _⟩
  | observes | sleeps | requests => exact ⟨hapart.modify hfound fun _ => rfl, hfound.modify index fun _ => rfl⟩

theorem request_of_acts {flow : Flow} (hacts : Stepping.Acts now roles index s flow s') (hflow : flow ≠ .park)
    (hfound : Stance.Found s index) (hrequest : ∀ st, s[index]? = some st → st.request = none) :
    ∀ st, s'[index]? = some st → st.request = none := by
  obtain ⟨st, hst, -⟩ := hfound
  cases hacts with
  | keeps hflow => exact hrequest
  | starts id => grind
  | observes role => simp_all
  | sleeps | requests => exact (hflow rfl).elim

theorem apart_of_holds (hholds : Stepping.Holds now roles index s s') (hapart : Stance.Apart now s)
    (hfound : Stance.Found s index) : Stance.Apart now s' := by
  cases hholds with
  | unbound | asks => exact hapart.modify hfound fun _ => rfl
  | waits => exact hapart

theorem Plans.fibers (h : Plans m tasks stage m' tasks' stage') : m'.fibers = m.fibers := by
  cases h <;> rfl

theorem Plans.host (h : Plans m tasks stage m' tasks' stage') : m'.host = m.host := by
  cases h <;> rfl

theorem Plans.operands (h : Plans m tasks stage m' tasks' stage') : m'.operands = m.operands := by
  cases h <;> rfl

theorem Plans.tidy (h : Plans m tasks stage m' tasks' stage') (htidy : m.Tidy) : m'.Tidy := by
  cases h <;> exact ⟨htidy.operands, htidy.wokenBy⟩

theorem tidy_leave (hoperands : m.operands = {})
    (hwokenBy : pass = .timer → m.wokenBy = none) : (pass.leave m).Tidy := by
  cases pass with
  | timer => exact ⟨hoperands, hwokenBy rfl⟩
  | observers role p => exact ⟨hoperands, rfl⟩

theorem Wakes.turn (h : a.Wakes pass index tasks) : a.turn = none := by
  cases h with
  | due hturn | observer hturn => exact hturn

theorem Wakes.wokenBy (h : a.Wakes pass index tasks)
    (ha : a.Orderly) (htimer : pass = .timer) : (pass.enter a.machine).wokenBy = none := by
  subst htimer
  exact (ha.tidy h.turn).wokenBy

theorem Plans.clock (h : Plans m tasks stage m' tasks' stage')
    (hclock : ∀ now ids, .runDue now ids ∈ tasks → now = m.host.now) :
    ∀ now ids, .runDue now ids ∈ tasks' → now = m'.host.now := by
  rw [h.host]
  cases h with
  | scan hdue hsome => simp_all
  | skipDue => grind
  | _ => grind

theorem Wakes.clock (h : a.Wakes pass index tasks)
    (hclock : ∀ now ids, .runDue now ids ∈ a.tasks → now = a.machine.host.now) :
    ∀ now ids, .runDue now ids ∈ tasks → now = a.machine.host.now := by
  cases h with
  | due hturn htasks => grind
  | observer hturn htasks => grind

theorem Orderly.of_idle (hturn : b.turn = none) (hapart : Stance.Apart b.machine.host.now b.machine.stances)
    (hclock : ∀ now ids, .runDue now ids ∈ b.tasks → now = b.machine.host.now)
    (htidy : b.machine.Tidy) : b.Orderly := by
  have hnot (turn : Turn) : b.turn ≠ some turn := by
    rw [hturn]
    rintro ⟨⟩
  exact ⟨hapart, fun turn h => (hnot turn h).elim, fun turn _ h => (hnot turn h).elim, hclock,
    fun _ => htidy, fun turn h => (hnot turn h).elim⟩

theorem Orderly.of_running {turn : Turn}
    (hapart : Stance.Apart m.host.now m.stances) (hfound : Stance.Found m.stances turn.index)
    (hrequest : ∀ st, m.stances[turn.index]? = some st → st.request = none)
    (hclock : ∀ now ids, .runDue now ids ∈ tasks → now = m.host.now)
    (htimer : turn.pass = .timer → m.wokenBy = none) : Orderly ⟨m, some turn, tasks, stage⟩ := by
  refine ⟨hapart, ?_, ?_, hclock, ?_, ?_⟩
  · rintro _ ⟨⟩
    exact hfound
  · rintro _ st ⟨⟩
    exact hrequest st
  · rintro ⟨⟩
  · rintro _ ⟨⟩
    exact htimer

theorem Steps.orderly (h : a.Steps b) (ha : a.Orderly) : b.HasFailed ∨ b.Orderly := by
  cases h with
  | @word turn left m' hturn hleft hdid =>
    obtain ⟨hapart, hfound⟩ := apart_of_acts hdid.acts ha.apart (ha.found turn hturn)
    have hrequest := request_of_acts hdid.acts (by rintro ⟨⟩) (ha.found turn hturn) fun st => ha.request turn st hturn
    rw [← hdid.stays.now] at hapart
    refine .inr (.of_running hapart hfound hrequest ?_ fun htimer =>
      hdid.stays.wokenBy.trans (ha.timer turn hturn htimer))
    rw [hdid.stays.now]
    exact ha.clock
  | @parks turn left m' hturn hleft hdid =>
    have hapart := (apart_of_acts hdid.acts ha.apart (ha.found turn hturn)).1
    refine .inr (.of_idle rfl ?_ ?_ (tidy_leave rfl fun htimer =>
      hdid.stays.wokenBy.trans (ha.timer turn hturn htimer)))
    · rw [Machine.stances_leave, Pass.host_leave]
      change Stance.Apart m'.host.now m'.stances
      rwa [hdid.stays.now]
    · rw [Pass.host_leave]
      change ∀ now ids, .runDue now ids ∈ a.tasks → now = m'.host.now
      rw [hdid.stays.now]
      exact ha.clock
  | @repeats turn left m' m'' hturn hleft hdid hfinished =>
    obtain ⟨hapart, hfound⟩ := apart_of_acts hdid.acts ha.apart (ha.found turn hturn)
    have hrequest := request_of_acts hdid.acts (by rintro ⟨⟩) (ha.found turn hturn) fun st => ha.request turn st hturn
    have hstays := hdid.stays.trans hfinished.stays
    have hstances : m''.stances = m'.stances := hfinished.stances
    rw [← hstays.now, ← hstances] at hapart
    rw [← hstances] at hfound hrequest
    refine .inr (.of_running hapart hfound hrequest ?_ fun htimer =>
      hstays.wokenBy.trans (ha.timer turn hturn htimer))
    rw [hstays.now]
    exact ha.clock
  | @ends turn left m' m'' hturn hleft hdid hfinished =>
    have hapart := (apart_of_acts hdid.acts ha.apart (ha.found turn hturn)).1.eraseIdx turn.index
    have hstays := hdid.stays.trans hfinished.stays
    have hstances : m''.stances = m'.stances.eraseIdx turn.index := hfinished.stances
    refine .inr (.of_idle rfl ?_ ?_ (tidy_leave rfl fun htimer =>
      hstays.wokenBy.trans (ha.timer turn hturn htimer)))
    · rw [Machine.stances_leave, Pass.host_leave]
      change Stance.Apart m''.host.now m''.stances
      rwa [hstays.now, hstances]
    · rw [Pass.host_leave]
      change ∀ now ids, .runDue now ids ∈ a.tasks → now = m''.host.now
      rw [hstays.now]
      exact ha.clock
  | @overruns turn f hturn hleft =>
    refine .inr (.of_idle rfl ?_ ?_ (tidy_leave rfl fun htimer => ha.timer turn hturn htimer))
    · rw [Machine.stances_leave, Pass.host_leave]
      have hapart := ha.apart.eraseIdx turn.index
      rwa [Machine.stances, List.eraseIdx_map] at hapart
    · rw [Pass.host_leave]
      exact ha.clock
  | @goesOn pass index budget tasks m' hwakes hresumed hbudget =>
    have hfound := hwakes.found
    have hstances := hresumed.stances
    rw [Machine.stances_enter] at hstances
    have hnow : m'.host.now = a.machine.host.now := by rw [hresumed.stays.now, Pass.host_enter]
    refine .inr (.of_running ?_ ?_ ?_ ?_ fun htimer => ?_)
    · rw [hnow, hstances]
      exact ha.apart.modify hfound fun _ => rfl
    · rw [hstances]
      exact hfound.modify index fun _ => rfl
    · simp_all
    · rw [hnow]
      exact hwakes.clock ha.clock
    · exact hresumed.stays.wokenBy.trans (hwakes.wokenBy ha htimer)
  | @stays pass index tasks m' hwakes hresumed =>
    have hholds := hresumed.holds
    rw [Machine.stances_enter, Pass.host_enter] at hholds
    have hapart := apart_of_holds hholds ha.apart hwakes.found
    have hnow : m'.host.now = a.machine.host.now := by rw [hresumed.stays.now, Pass.host_enter]
    refine .inr (.of_idle rfl ?_ ?_ (tidy_leave rfl fun htimer =>
      hresumed.stays.wokenBy.trans (hwakes.wokenBy ha htimer)))
    · rw [Machine.stances_leave, Pass.host_leave]
      change Stance.Apart m'.host.now m'.stances
      rwa [hnow]
    · rw [Pass.host_leave]
      change ∀ now ids, .runDue now ids ∈ tasks → now = m'.host.now
      rw [hnow]
      exact hwakes.clock ha.clock
  | @starts tasks m' hturn htasks hstarted =>
    have htidy := ha.tidy hturn
    refine .inr (.of_idle rfl ?_ ?_ ?_)
    · change Stance.Apart m'.host.now m'.stances
      rw [hstarted.stays.now]
      rcases hstarted.stances with hstances | ⟨id, hstances⟩
      · rw [hstances]
        exact ha.apart
      · rw [hstances]
        exact ha.apart.append id
    · rw [hstarted.stays.now]
      refine fun now ids hmem => ha.clock now ids ?_
      simp_all
    · cases hstarted <;> exact ⟨htidy.operands, htidy.wokenBy⟩
  | @plans m' tasks stage hturn hplans =>
    refine .inr (.of_idle rfl ?_ (hplans.clock ha.clock) (hplans.tidy (ha.tidy hturn)))
    change Stance.Apart m'.host.now (m'.fibers.map Fiber.stance)
    rw [hplans.fibers, hplans.host]
    exact ha.apart
  | fails => exact .inl ⟨_, rfl⟩

/-- The stances that fibers can have at the next moment. -/
inductive Gives (a : Moment) : Stance → Prop
  | keeps {st : Stance} (hst : st ∈ a.machine.stances) : Gives a st
  | fresh (id : UInt32) : Gives a (.fresh id a.machine.host.now)
  | observes {st : Stance} (hst : st ∈ a.machine.stances) (role : Nat) :
      Gives a { st with observed := some role }
  | pauses {st : Stance} {index : Nat} {p : Operands} (hst : st ∈ a.machine.stances)
      (hasync : a.machine.nextAsync? index = some (.pause, p)) : Gives a { st with
        wakeAt := if p.a = 0 then none else some (a.machine.host.now + p.a) }
  | uploads {st : Stance} {c : Config} (hst : st ∈ a.machine.stances) (hconfig : c = a.machine.config) :
      Gives a { st with wakeAt := some (a.machine.host.now +
        (a.machine.random.between c.backoffMin c.backoffMax).1) }
  | sends {turn : Turn} {f : Fiber} {p : Operands} {r : Role} (hturn : a.turn = some turn)
      (hleft : turn.left ≠ 0) (hfiber : a.machine.fibers[turn.index]? = some f)
      (hasync : a.machine.nextAsync? turn.index = some (.sendCmd, p))
      (hrole : a.machine.roles[p.a]? = some r) (hlocal : r.isLocal = false) :
      Gives a ⟨f.id, some a.machine.host.now, some p.a,
        some (.send p.a p.b.toUInt16 a.machine.packet.data)⟩
  | asks {st : Stance} {index role validity : Nat} {code : CommandCode} (hst : st ∈ a.machine.stances)
      (hreads : a.machine.reads? index = some (role, code, validity)) : Gives a { st with
        observed := some role
        request := some (.query role code a.machine.config.resendInitial)
        wakeAt := some a.machine.host.now }
  | goesOn {st : Stance} (hst : st ∈ a.machine.stances) :
      Gives a { st with wakeAt := none, observed := none, request := none }
  | waits {st : Stance} (hst : st ∈ a.machine.stances) : Gives a { st with wakeAt := none }
  | repeats {st : Stance} {role resend : Nat} {code : CommandCode} (hst : st ∈ a.machine.stances)
      (hrequest : st.request = some (.query role code resend)) : Gives a { st with
        request := some (.query role code (min (2 * resend) a.machine.config.resendMax))
        wakeAt := some (a.machine.host.now + resend) }

theorem gives_of_modify {g k : Fiber → Fiber} (hg : Fiber.Reframes k g)
    (hk : ∀ f, a.machine.fibers[index]? = some f → a.Gives (k f).stance) :
    ∀ st ∈ (a.machine.fibers.modify index g).map Fiber.stance, a.Gives st := by
  intro st hmem
  obtain ⟨f', hf', rfl⟩ := List.mem_map.1 hmem
  rcases mem_modify hf' with ⟨j, -, hf⟩ | ⟨f, hf, rfl⟩
  · exact .keeps (List.mem_of_getElem? (Machine.getElem?_stances hf))
  · rw [stance_of_reframes hg]
    exact hk f hf

theorem gives_of_started {m : Machine} (hm : m.stances = a.machine.stances) (hnow : m.host.now = a.machine.host.now)
    (h : m.Started m') : ∀ st ∈ m'.stances, a.Gives st := by
  intro st hmem
  rcases h.stances with hstances | ⟨id, hstances⟩
  · exact .keeps (hm ▸ hstances ▸ hmem)
  · rw [hstances, hm, hnow] at hmem
    rcases List.mem_append.1 hmem with hmem | hmem
    · exact .keeps hmem
    · rw [List.mem_singleton.1 hmem]
      exact .fresh id

theorem gives_of_did {turn : Turn} {flow : Flow} (hturn : a.turn = some turn) (hleft : turn.left ≠ 0)
    (h : Stepping.Did turn.index a.machine flow m') : ∀ st ∈ m'.stances, a.Gives st := by
  have hold {f : Fiber} (hf : a.machine.fibers[turn.index]? = some f) : f.stance ∈ a.machine.stances :=
    List.mem_of_getElem? (Machine.getElem?_stances hf)
  cases h with
  | computes _ _ _ h => exact fun st hmem => .keeps (h.stances ▸ hmem)
  | starts _ _ hg hstart =>
    refine gives_of_started ?_ ?_ hstart.started
    · exact map_stance_eq (stance_of_reframes hg)
    · rfl
  | observes _ _ hg => exact gives_of_modify hg fun f hf => .observes (hold hf) _
  | pauses hasync hg => exact gives_of_modify hg fun f hf => .pauses (hold hf) hasync
  | uploads _ hg => exact gives_of_modify hg fun f hf => .uploads (hold hf) rfl
  | signals _ _ _ hg | hits _ _ _ _ _ hg => exact gives_of_modify hg fun f hf => .keeps (hold hf)
  | sends hasync hrole hlocal hg =>
    exact gives_of_modify hg fun f hf => Gives.sends (f := f) hturn hleft hf hasync hrole hlocal
  | asks _ hreads _ _ hg => exact gives_of_modify hg fun f hf => .asks (hold hf) hreads

theorem gives_of_resumed {goesOn : Bool} (h : Stepping.Resumed index (pass.enter a.machine) goesOn m') :
    ∀ st ∈ m'.stances, a.Gives st := by
  cases goesOn with
  | true =>
    intro st hmem
    rw [h.stances, Machine.stances_enter] at hmem
    rcases mem_modify hmem with ⟨j, -, hst⟩ | ⟨st, hst, rfl⟩
    · exact .keeps (List.mem_of_getElem? hst)
    · exact .goesOn (List.mem_of_getElem? hst)
  | false =>
    have hold {f : Fiber} (hf : a.machine.fibers[index]? = some f) : f.stance ∈ a.machine.stances :=
      List.mem_of_getElem? (Machine.getElem?_stances hf)
    have hmodify {k : Fiber → Fiber} (hk : ∀ f, a.machine.fibers[index]? = some f → a.Gives (k f).stance) :
        ∀ st ∈ ((pass.enter a.machine).fibers.modify index k).map Fiber.stance, a.Gives st := by
      rw [Pass.fibers_enter]
      exact gives_of_modify (reframes_self k) hk
    cases h with
    | unbound => exact hmodify fun f hf => .waits (hold hf)
    | asks hfiber hrequest =>
      refine hmodify fun f hf => ?_
      rw [Pass.fibers_enter, hf, Option.some.injEq] at hfiber
      rw [Pass.host_enter, Pass.config_enter]
      exact .repeats (hold hf) (hfiber ▸ hrequest)
    | waits => exact fun st hmem => .keeps (Machine.stances_enter pass a.machine ▸ hmem)

theorem Steps.gives (h : a.Steps b) : b.HasFailed ∨ ∀ st ∈ b.machine.stances, a.Gives st := by
  have hgone {s : List Stance} (hs : ∀ st ∈ s, a.Gives st) (j : Nat) : ∀ st ∈ s.eraseIdx j, a.Gives st :=
    fun st hmem => hs st (List.mem_of_mem_eraseIdx hmem)
  cases h with
  | word hturn hleft hdid => exact .inr (gives_of_did hturn (by omega) hdid)
  | parks hturn hleft hdid =>
    rw [Machine.stances_rest]
    exact .inr (gives_of_did hturn (by omega) hdid)
  | repeats hturn hleft hdid hfinished =>
    rw [hfinished.stances]
    exact .inr (gives_of_did hturn (by omega) hdid)
  | @ends turn left m' m'' hturn hleft hdid hfinished =>
    rw [Machine.stances_rest, hfinished.stances]
    exact .inr (hgone (gives_of_did hturn (by omega) hdid) _)
  | @overruns turn =>
    rw [Machine.stances_leave, Machine.stances, ← List.eraseIdx_map]
    exact .inr (hgone (fun _ => .keeps) turn.index)
  | goesOn hwakes hresumed => exact .inr (gives_of_resumed hresumed)
  | stays hwakes hresumed =>
    rw [Machine.stances_rest]
    exact .inr (gives_of_resumed hresumed)
  | starts _ _ hstarted => exact .inr (gives_of_started rfl rfl hstarted)
  | plans _ hplans =>
    rw [Machine.stances, hplans.fibers]
    exact .inr fun _ => .keeps
  | fails => exact .inl ⟨_, rfl⟩

end Moment

end BusScript
