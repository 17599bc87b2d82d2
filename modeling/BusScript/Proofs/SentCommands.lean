import BusScript.Proofs.Histories

namespace BusScript

open Machine (getElem?_stances stances stances_enter stances_leave)

structure Order where
  fiber : UInt32
  role : Nat
  code : CommandCode
  payload : Bytes
  deriving DecidableEq

def Order.request (o : Order) : Request := .send o.role o.code o.payload

def Request.packet (b : Binding) : Request → Packet
  | .send _ code payload => .command b.device b.service code payload
  | .query _ code _ => .command b.device b.service code #[]

theorem Host.sent_of_send? {h h' : Host} {p : Packet} (hsend : h.send? p = some h') : h'.sent = h.sent.push p := by
  rw [Host.send?] at hsend
  split at hsend <;> cases hsend <;> rfl

namespace Stepping

variable {m m' : Machine} {index : Nat}

theorem Did.sent {flow : Flow} (h : Did index m flow m') : m'.host.sent = m.host.sent := by
  cases h with
  | computes hcall hasync hflow h => rw [h.rest]
  | starts hcall hasync hg hstart => cases hstart <;> rfl
  | _ => rfl

theorem Finished.sent {goesOn : Bool} (h : Finished index m goesOn m') : m'.host.sent = m.host.sent := by
  cases h <;> rfl

end Stepping

namespace Moment

variable {a b c d : Moment}

def orders? (a : Moment) : Option Order := do
  let turn ← a.turn
  let f ← a.machine.fibers[turn.index]?
  let (op, p) ← a.machine.nextAsync? turn.index
  let r ← a.machine.roles[p.a]?
  if turn.left ≠ 0 ∧ op = .sendCmd ∧ r.isLocal = false then
    some ⟨f.id, p.a, p.b.toUInt16, a.machine.packet.data⟩
  else none

/-- From one moment to the next a packet is sent for the fiber `f`, which comes up. -/
structure Sends (a b : Moment) (f : Fiber) (p : Packet) : Prop where
  wakes : ∃ pass index tasks, a.Wakes pass index tasks ∧ a.machine.fibers[index]? = some f
  sent : b.machine.host.sent = a.machine.host.sent.push p

/-- All that is sent is for the request of a fiber that comes up, and goes to where the role of the request is bound.
After a command the fiber goes on. -/
theorem Steps.sent (h : a.Steps b) : b.machine.host.sent = a.machine.host.sent ∨
    ∃ f request r bind, a.Sends b f (request.packet bind) ∧ f.request = some request ∧
      a.machine.roles[request.role]? = some r ∧ r.binding = some bind ∧
      ∀ role code payload, request = .send role code payload → b.executes? = some f.id := by
  cases h with
  | word hturn hleft hdid => exact .inl hdid.sent
  | parks hturn hleft hdid =>
    rw [Pass.host_leave]
    exact .inl hdid.sent
  | repeats hturn hleft hdid hfinished => exact .inl (hfinished.sent.trans hdid.sent)
  | ends hturn hleft hdid hfinished =>
    rw [Pass.host_leave]
    exact .inl (hfinished.sent.trans hdid.sent)
  | overruns hturn hleft =>
    rw [Pass.host_leave]
    exact .inl rfl
  | @goesOn pass index budget tasks m' hwakes hresumed hbudget =>
    have hgoes := hresumed
    have hhost := Pass.host_enter pass a.machine
    have hroles := Pass.roles_enter pass a.machine
    cases hresumed with
    | free | answered => exact .inl (by rw [hhost])
    | @sends f role code payload r bind host g hfiber hrequest hrole hbinding hsend hg =>
      rw [Pass.fibers_enter] at hfiber
      rw [hroles] at hrole
      rw [hhost] at hsend
      refine .inr ⟨f, .send role code payload, r, bind,
        ⟨⟨pass, index, tasks, hwakes, hfiber⟩, Host.sent_of_send? hsend⟩, hrequest, hrole, hbinding,
        fun _ _ _ _ => ?_⟩
      exact executes?_goesOn hgoes hbudget (getElem?_stances hfiber)
  | @stays pass index tasks m' hwakes hresumed =>
    have hhost := Pass.host_enter pass a.machine
    have hroles := Pass.roles_enter pass a.machine
    rw [Pass.host_leave]
    cases hresumed with
    | unbound | waits => exact .inl (by rw [← hhost]; rfl)
    | @asks f role resend code r bind host hfiber hrequest hrole hbinding hdue hsend =>
      rw [Pass.fibers_enter] at hfiber
      rw [hroles] at hrole
      rw [hhost] at hsend
      refine .inr ⟨f, .query role code resend, r, bind, ⟨⟨pass, index, tasks, hwakes, hfiber⟩, ?_⟩, hrequest,
        hrole, hbinding, ?_⟩
      · rw [Pass.host_leave]
        exact Host.sent_of_send? hsend
      · rintro _ _ _ ⟨⟩
  | starts hturn htasks hstarted => exact .inl (by cases hstarted <;> rfl)
  | plans hturn hplans => exact .inl (by rw [hplans.host])
  | fails _ _ hspared => exact .inl hspared.sent

variable {o : Order}

theorem orders?_eq_some (h : a.orders? = some o) :
    ∃ turn f p r, a.turn = some turn ∧ turn.left ≠ 0 ∧ a.machine.fibers[turn.index]? = some f ∧
      a.machine.nextAsync? turn.index = some (.sendCmd, p) ∧ a.machine.roles[p.a]? = some r ∧
      r.isLocal = false ∧ o = ⟨f.id, p.a, p.b.toUInt16, a.machine.packet.data⟩ := by
  simp only [orders?, bind, Option.bind_eq_some_iff, Option.ite_none_right_eq_some, Option.some.injEq] at h
  grind

theorem Steps.of_orders? (h : a.Steps b) (ha : a.Orderly) (ho : a.orders? = some o) :
    b.HasFailed ∨ (∃ st, b.Parks o.fiber st ∧ st.request = some o.request) ∧
      b.machine.host.sent = a.machine.host.sent := by
  obtain ⟨turn, f, p, r, hturn, hleft, hfiber, hasync, hrole, hlocal, rfl⟩ := orders?_eq_some ho
  rcases h.of_async hturn hleft hasync with hfailed | ⟨m', left, hdid, rfl⟩ | ⟨m', hdid, rfl⟩
  · exact .inl hfailed
  · cases hdid with
    | computes _ hnone | starts _ hnone | observes _ hnone => rw [hasync] at hnone; cases hnone
    | signals hasync' hrole' hlocal' => simp_all
    | hits hasync' => rw [hasync] at hasync'; cases hasync'
  · refine .inr ⟨?_, by rw [Pass.host_leave]; exact hdid.sent⟩
    cases hdid with
    | computes _ hnone => rw [hasync] at hnone; cases hnone
    | pauses hasync' | uploads hasync' | asks hasync' => rw [hasync] at hasync'; cases hasync'
    | @sends p' r' g hasync' hrole' hlocal' hg =>
      rw [hasync] at hasync'
      cases hasync'
      exact ⟨_, parks_leave (ha.found turn hturn) (getElem?_stances hfiber) (g := ({ · with
        observed := some p.a
        request := some (.send p.a p.b.toUInt16 a.machine.packet.data)
        wakeAt := some a.machine.host.now })) (fun _ => rfl)
        (map_stance_modify fun f _ => stance_of_reframes hg f), rfl⟩

theorem BringsUp.order {st : Stance} (h : a.BringsUp st b) (hrequest : st.request = some o.request) :
    (∃ st', b.Parks st.id st' ∧ st'.request = some o.request) ∨
      b.executes? = some st.id ∧ ∃ f r bind, f.id = st.id ∧ a.machine.roles[o.role]? = some r ∧
        r.binding = some bind ∧ a.Sends b f (o.request.packet bind) := by
  -- the fiber that comes up has the command
  have hsame {pass : Pass} {index : Nat} {f : Fiber} {request : Request}
      (hst : a.machine.stances[index]? = some st) (hfiber : (pass.enter a.machine).fibers[index]? = some f)
      (hrequest' : f.request = some request) :
      a.machine.fibers[index]? = some f ∧ f.id = st.id ∧ request = o.request := by
    rw [Pass.fibers_enter] at hfiber
    rw [getElem?_stances hfiber, Option.some.injEq] at hst
    subst hst
    exact ⟨hfiber, rfl, Option.some.inj (hrequest'.symm.trans hrequest)⟩
  cases h with
  | @goesOn pass index budget tasks m' hwakes hst hresumed hbudget =>
    have hroles := Pass.roles_enter pass a.machine
    have hhost := Pass.host_enter pass a.machine
    refine .inr ⟨executes?_goesOn hresumed hbudget hst, ?_⟩
    cases hresumed with
    | @free f g hfiber hnone =>
      have hstance := getElem?_stances hfiber
      rw [stances_enter, hst, Option.some.injEq] at hstance
      rw [hstance, show f.stance.request = none from hnone] at hrequest
      cases hrequest
    | @sends f role code payload r bind host g hfiber hrequest' hrole hbinding hsend hg =>
      obtain ⟨hfiber, hid, heq⟩ := hsame hst hfiber hrequest'
      rw [Order.request, Request.send.injEq] at heq
      obtain ⟨rfl, rfl, rfl⟩ := heq
      rw [hroles] at hrole
      rw [hhost] at hsend
      exact ⟨f, r, bind, hid, hrole, hbinding, ⟨pass, index, tasks, hwakes, hfiber⟩, Host.sent_of_send? hsend⟩
    | answered hfiber hrequest' => cases (hsame hst hfiber hrequest').2.2
  | @stays pass index tasks m' hwakes hst hresumed =>
    cases hresumed with
    | unbound hfiber hrequest' =>
      refine .inl ⟨{ st with wakeAt := none }, ?_, hrequest⟩
      refine parks_leave (g := ({ · with wakeAt := none })) hwakes.found hst (fun _ => rfl) ?_
      rw [stances, Pass.fibers_enter]
      exact map_stance_modify fun _ _ => rfl
    | asks hfiber hrequest' | waits hfiber hrequest' => cases (hsame hst hfiber hrequest').2.2

theorem Follows.order (h : a.Follows b) (ha : a.Fit) (hparks : ∃ st, a.Parks o.fiber st ∧ st.request = some o.request) :
    b.machine.panic.isSome = true ∨ (∃ st, b.Parks o.fiber st ∧ st.request = some o.request) ∨
      b.executes? = some o.fiber ∧ ∃ f r bind, f.id = o.fiber ∧ a.machine.roles[o.role]? = some r ∧
        r.binding = some bind ∧ a.Sends b f (o.request.packet bind) := by
  obtain ⟨st, hparks, hrequest⟩ := hparks
  rcases h.steps ha with ⟨hnext, hpanic, horderly⟩ | ⟨hturn, hfibers, hpanic⟩
  · rcases (steps_of_next hpanic hnext).parks_or_bringsUp horderly hparks with hfailed | hparks' | hbrings
    · exact .inl ((h.fit ha).panic_of_failed hfailed)
    · exact .inr (.inl ⟨st, hparks', hrequest⟩)
    · rw [← hparks.id]
      exact .inr (hbrings.order hrequest)
  · refine .inr (.inl ⟨st, .of_idle hturn ?_, hrequest⟩)
    rw [stances, hfibers]
    exact hparks.found

theorem Until.order (h : a.Until (·.executes? = some o.fiber) c) (ha : a.Fit)
    (hparks : ∃ st, a.Parks o.fiber st ∧ st.request = some o.request) :
    c.machine.panic.isSome = true ∨ (∃ st, c.Parks o.fiber st ∧ st.request = some o.request) ∨
      c.executes? = some o.fiber := by
  refine h.holds (I := fun c => c.machine.panic.isSome = true ∨
    (∃ st, c.Parks o.fiber st ∧ st.request = some o.request) ∨ c.executes? = some o.fiber)
    ha (.inr (.inl hparks)) ?_
  intro b c hb hnot hI hfollows
  rcases hI with hsome | hparks | hexecutes
  · rcases hfollows.steps hb with ⟨-, hnone, -⟩ | ⟨-, -, hpanic⟩
    · rw [hnone] at hsome
      cases hsome
    · exact .inl (hpanic ▸ hsome)
  · rcases hfollows.order hb hparks with hsome | hparks | ⟨hexecutes, -⟩
    · exact .inl hsome
    · exact .inr (.inl hparks)
    · exact .inr (.inr hexecutes)
  · exact (hnot hexecutes).elim

theorem Wakes.index_unique {pass pass' : Pass} {index index' : Nat} {tasks tasks' : List Task}
    (h : a.Wakes pass index tasks) (h' : a.Wakes pass' index' tasks') : index = index' := by
  cases h with
  | due _ htasks hindex =>
    cases h' with
    | due _ htasks' hindex' => simp_all
    | observer _ htasks' => rw [htasks] at htasks'; cases htasks'
  | observer _ htasks hindex =>
    cases h' with
    | due _ htasks' => rw [htasks] at htasks'; cases htasks'
    | observer _ htasks' hindex' => simp_all

theorem Wakes.next_of_follows {pass : Pass} {index : Nat} {tasks : List Task} (hwakes : a.Wakes pass index tasks)
    (h : a.Follows b) : a.next? = some b := by
  obtain ⟨task, tasks', htasks⟩ : ∃ task tasks', a.tasks = task :: tasks' := by
    cases hwakes with
    | due _ htasks | observer _ htasks => exact ⟨_, _, htasks⟩
  cases h with
  | next hnext => exact hnext
  | returns hover =>
    rw [isOver, next?, hwakes.turn, htasks] at hover
    cases hover
  | host | call => cases htasks

theorem Sends.executes {f : Fiber} {p : Packet} (h : a.Sends b f p) (ha : a.Fit) (hfollows : a.Follows b)
    (hid : f.id = o.fiber) (hparks : ∃ st, a.Parks o.fiber st ∧ st.request = some o.request) :
    b.executes? = some o.fiber := by
  obtain ⟨st, hparks, hrequest⟩ := hparks
  obtain ⟨⟨pass, index, tasks, hwakes, hfiber⟩, hsent⟩ := h
  have hnext := hwakes.next_of_follows hfollows
  have hstance : f.stance = st := by
    have hfind := find?_of_found hwakes.found (getElem?_stances hfiber)
    rw [show f.stance.id = o.fiber from hid, hparks.found] at hfind
    exact (Option.some.inj hfind).symm
  rcases (steps_of_next (ha.panic_of_next hnext) hnext).sent with hnone |
    ⟨f', request, r, bind, ⟨⟨_, _, _, hwakes', hfiber'⟩, -⟩, hrequest', -, -, hexecutes⟩
  · -- a packet has been sent
    simp_all
  · rw [← hwakes.index_unique hwakes', hfiber, Option.some.injEq] at hfiber'
    subst hfiber'
    rw [← hstance, show f.stance.request = some request from hrequest', Option.some.injEq] at hrequest
    rw [← hid]
    exact hexecutes o.role o.code o.payload hrequest

theorem Orderly.not_executes (ha : a.Orderly) {st : Stance} {request : Request} (hmem : st ∈ a.machine.stances)
    (hrequest : st.request = some request) : a.executes? ≠ some st.id := by
  rw [executes?_eq]
  intro hid
  obtain ⟨turn, hturn, hid⟩ := Option.bind_eq_some_iff.1 hid
  split at hid
  · cases hid
  · obtain ⟨x, hx, hid⟩ := Option.map_eq_some_iff.1 hid
    obtain ⟨j, hst⟩ := List.mem_iff_getElem?.1 hmem
    obtain ⟨y, hy, hfind⟩ := ha.found turn hturn
    rw [hx, Option.some.injEq] at hy
    subst hy
    -- its id finds the fiber with the request, and the one that runs
    have hindex := ha.fiberIndex? hst hrequest
    rw [Machine.fiberIndex?_eq, ← hid, hfind, Option.some.injEq] at hindex
    subst hindex
    rw [hx, Option.some.injEq] at hst
    subst hst
    rw [ha.request turn x hturn hx] at hrequest
    cases hrequest

end Moment

namespace Moment

variable {a b : Moment}

theorem Gives.requested {st' : Stance} {o : Order} (h : a.Gives st') (hid : st'.id = o.fiber)
    (hrequest : st'.request = some o.request) :
    (∃ st ∈ a.machine.stances, st.id = o.fiber ∧ st.request = some o.request) ∨ a.orders? = some o := by
  cases h with
  | keeps hst | observes hst | pauses hst | uploads hst | waits hst => exact .inl ⟨_, hst, hid, hrequest⟩
  | fresh | asks | goesOn | repeats => cases hrequest
  | @sends turn f p r hturn hleft hfiber hasync hrole hlocal =>
    right
    have heq : Request.send p.a p.b.toUInt16 a.machine.packet.data = o.request := Option.some.inj hrequest
    rw [Order.request, Request.send.injEq] at heq
    obtain ⟨hrole', hcode, hpayload⟩ := heq
    simp only [orders?, hturn, hfiber, hasync, hrole, bind, Option.bind_some, hlocal]
    rw [if_pos ⟨hleft, trivial, trivial⟩, hrole', hcode, hpayload, show f.id = o.fiber from hid]

variable {m : Machine} {bytes : Bytes} {host : Host} {config : Config} {random : Random}

/-- What a fiber has to send, a word of it has asked for, and the fiber has run no word since. -/
theorem Reached.ordered (hnew : Machine.new bytes host config random = .ok m) (h : Reached m a)
    (hpanic : a.machine.panic = none) {st : Stance} {o : Order} (hmem : st ∈ a.machine.stances)
    (hid : st.id = o.fiber) (hrequest : st.request = some o.request) :
    ∃ c d, Reached m c ∧ c.orders? = some o ∧ c.next? = some d ∧ d.Until (·.executes? = some o.fiber) a := by
  induction h generalizing st with
  | refl =>
    obtain ⟨image, -, -, rfl⟩ := Machine.eq_of_new hnew
    cases hmem
  | @follows a b hreached hfollows ih =>
    have hfit := hreached.fit hnew
    -- the fiber had the command before
    have hlater (hpanic : a.machine.panic = none) {st : Stance} (hmem : st ∈ a.machine.stances)
        (hid : st.id = o.fiber) (hrequest : st.request = some o.request) :
        ∃ c d, Reached m c ∧ c.orders? = some o ∧ c.next? = some d ∧ d.Until (·.executes? = some o.fiber) b := by
      obtain ⟨c, d, hc, horders, hnext, huntil⟩ := ih hpanic hmem hid hrequest
      refine ⟨c, d, hc, horders, hnext, huntil.step ?_ hfollows⟩
      rw [← hid]
      exact (hfit.orderly hpanic).not_executes hmem hrequest
    rcases hfollows.steps hfit with ⟨hnext, hpanic', -⟩ | ⟨-, hfibers, hpanic'⟩
    · have hfailed : ¬ b.HasFailed := by
        intro hfailed
        have hsome := (hfollows.fit hfit).panic_of_failed hfailed
        rw [hpanic] at hsome
        cases hsome
      rcases ((steps_of_next hpanic' hnext).gives.resolve_left hfailed _ hmem).requested hid hrequest with
        ⟨st', hmem', hid', hrequest'⟩ | horders
      · exact hlater hpanic' hmem' hid' hrequest'
      · exact ⟨a, b, hreached, horders, hnext, .refl⟩
    · rw [stances, hfibers] at hmem
      exact hlater (hpanic'.symm.trans hpanic) hmem hid hrequest
  | reset => cases hmem

end Moment

namespace Machine

open Moment

variable {bytes : Bytes} {host : Host} {config : Config} {random : Random} {m : Machine}

/-- Commands are sent exactly once. What is sent is sent for a fiber that comes up, to where the role of its request is
bound: it asks for the value of a register, or it is a command that a word of the fiber has asked for, with the bytes
that were in the buffer then, and the fiber has run no word since. After a word that asks for a command, nothing is
sent for its fiber before the moment when the fiber goes on, and then the command is. -/
theorem commands_are_sent_once (hnew : Machine.new bytes host config random = .ok m) :
    (∀ a b, Reached m a → a.next? = some b → b.machine.host.sent = a.machine.host.sent ∨
      ∃ f request r bind, a.Sends b f (request.packet bind) ∧ f.request = some request ∧
        a.machine.roles[request.role]? = some r ∧ r.binding = some bind ∧
        ∀ role code payload, request = .send role code payload →
          ∃ c d, Reached m c ∧ c.orders? = some ⟨f.id, role, code, payload⟩ ∧ c.next? = some d ∧
            d.Until (·.executes? = some f.id) a) ∧
    ∀ a b o, Reached m a → a.orders? = some o → a.next? = some b → b.machine.panic = none →
      b.machine.host.sent = a.machine.host.sent ∧
      ∀ c d, b.Until (·.executes? = some o.fiber) c → c.executes? ≠ some o.fiber → c.Follows d →
        (d.executes? = some o.fiber → ∃ f r bind, f.id = o.fiber ∧ c.machine.roles[o.role]? = some r ∧
          r.binding = some bind ∧ c.Sends d f (.command bind.device bind.service o.code o.payload)) ∧
        ∀ f p, f.id = o.fiber → c.Sends d f p → d.executes? = some o.fiber := by
  constructor
  · intro a b hreached hnext
    have hfit := hreached.fit hnew
    have hpanic := hfit.panic_of_next hnext
    refine (steps_of_next hpanic hnext).sent.imp_right ?_
    rintro ⟨f, request, r, bind, hsends, hrequest, hrole, hbinding, -⟩
    refine ⟨f, request, r, bind, hsends, hrequest, hrole, hbinding, ?_⟩
    rintro role code payload rfl
    obtain ⟨_, _, _, _, hfiber⟩ := hsends.wakes
    exact hreached.ordered hnew hpanic (o := ⟨f.id, role, code, payload⟩)
      (List.mem_of_getElem? (getElem?_stances hfiber)) rfl hrequest
  · intro a b o hreached horders hnext hpanic'
    have hfit := hreached.fit hnew
    have hb := (Follows.next hnext).fit hfit
    have hpanic := hfit.panic_of_next hnext
    rcases (steps_of_next hpanic hnext).of_orders? (hfit.orderly hpanic) horders with hfailed | ⟨hparks, hsent⟩
    · have hsome := hb.panic_of_failed hfailed
      rw [hpanic'] at hsome
      cases hsome
    refine ⟨hsent, fun c d huntil hnot hfollows => ?_⟩
    have hc := huntil.fit hb
    have hd := hfollows.fit hc
    rcases huntil.order hb hparks with hsome | hparks | hexecutes
    · -- no fiber comes up after a panic
      have hstopped (hnext : c.next? = some d) : False := by
        rw [hc.panic_of_next hnext] at hsome
        cases hsome
      refine ⟨fun hexecutes => ?_, fun f p hid hsends => ?_⟩
      · rcases hfollows.steps hc with ⟨hnext, -⟩ | ⟨hturn, -⟩
        · exact (hstopped hnext).elim
        · rw [executes?, hturn] at hexecutes
          cases hexecutes
      · obtain ⟨_, _, _, hwakes, -⟩ := hsends.wakes
        exact (hstopped (hwakes.next_of_follows hfollows)).elim
    · refine ⟨fun hexecutes => ?_, fun f p hid hsends => hsends.executes hc hfollows hid hparks⟩
      rcases hfollows.order hc hparks with hsome | ⟨st, hparks', -⟩ | ⟨-, f, r, bind, hid, hrole, hbinding, hsends⟩
      · rw [executes?, hd.turn_of_panic hsome] at hexecutes
        cases hexecutes
      · exact (hparks'.not_executes hexecutes).elim
      · exact ⟨f, r, bind, hid, hrole, hbinding, hsends⟩
    · exact (hnot hexecutes).elim

end Machine

open Script in
def writingScript : List Stmt :=
  [declare "s" (some (.call {} (member (name "roles") "servo") [])),
    .expr {} (onAngle "s" "write" [.literal {} (.number 7)])]

/-- A script writes a register before there is a servo. The command is sent when the servo appears, in the moment
before the script goes on. -/
theorem commands_are_sent_once_writing :
    ∃ compiled m a b c d o, compile Catalog.builtin {} writingScript = .ok compiled ∧
      Machine.new compiled.image servoHost {} (.ofSeed 1) = .ok m ∧ Moment.Reached m a ∧
      a.orders? = some o ∧ o.fiber = 0 ∧ o.role = 0 ∧ o.code = 0x2002 ∧ a.next? = some b ∧
      b.Until (·.executes? = some 0) c ∧ c.Follows d ∧ d.executes? = some 0 ∧
      ∃ r bind, c.machine.roles[0]? = some r ∧ r.binding = some bind ∧
        d.machine.host.sent = c.machine.host.sent.push (.command bind.device bind.service 0x2002 o.payload) := by
  have hplays : playsTo writingScript servoHost [] (fun _ m => m.panic = none ∧
      (((HostCall.start.first m).after 13).orders?.any fun o => o.fiber == 0 && o.role == 0 && o.code == 0x2002)
        = true ∧
      (((HostCall.start.first m).after 13).next?.any fun b => b.machine.panic.isNone &&
        (b.after 5).isOver && (b.after 5).machine.panic.isNone &&
        ((List.range 6).all fun k => (b.after k).executes? != some 0) &&
        let later := HostCall.connected.first { (b.after 5).machine with overrun := none }
        ((List.range 4).all fun k => (later.after k).executes? != some 0) &&
        (later.after 3).next?.any (·.executes? == some 0)) = true) = true := by
    decide +kernel
  obtain ⟨compiled, m, record, m', hcompile, hnew, hrecorded, hcheck⟩ := exists_of_playsTo hplays
  obtain ⟨hpanic, horders, hnext⟩ := of_decide_eq_true hcheck
  obtain ⟨⟨fiber, role, code, payload⟩, horders, ho⟩ := (Option.any_eq_true _ _).1 horders
  obtain ⟨b, hnext, hrest⟩ := (Option.any_eq_true _ _).1 hnext
  simp only [Bool.and_eq_true, Option.isNone_iff_eq_none, List.all_eq_true, List.mem_range, bne_iff_ne,
    Option.any_eq_true, beq_iff_eq] at ho hrest
  obtain ⟨⟨rfl, rfl⟩, rfl⟩ := ho
  obtain ⟨⟨⟨⟨hpanic1, hover⟩, hpanic2⟩, hparked⟩, hlater, d, hnext', hexecutes⟩ := hrest
  have hreached := ((Moment.reached_of_recorded hrecorded).follows (.call hpanic .start)).comesTo ⟨13, rfl⟩
  -- the script waits until the call returns, and until the role is bound
  have huntil : b.Until (·.executes? = some 0) (b.after 5) :=
    Moment.Until.refl.after fun k hk => hparked k (Nat.lt_succ_of_lt hk)
  have huntil' := ((huntil.step (hparked 5 (by decide)) (.returns hover)).step (by rintro ⟨⟩)
    (.call (m := { (b.after 5).machine with overrun := none }) hpanic2 .connected)).after (n := 3) fun k hk => hlater k (Nat.lt_succ_of_lt hk)
  obtain ⟨f, r, bind, -, hrole, hbinding, hsends⟩ := (((Machine.commands_are_sent_once hnew).2 _ b _ hreached horders
    hnext hpanic1).2 _ d huntil' (hlater 3 (by decide)) (.next hnext')).1 hexecutes
  exact ⟨compiled, m, _, b, _, d, _, hcompile, hnew, hreached, horders, rfl, rfl, rfl, hnext, huntil', .next hnext',
    hexecutes, r, bind, hrole, hbinding, hsends.sent⟩

end BusScript
