import BusScript.Proofs.CachedReports

/-!
What a write of a register does to later reads of it. A write drops one entry, so it hides all cached values
of the register if there is one entry at most. There is one entry at most unless two fibers have waited for
the register at once, each of which then made an entry of its own. After a write, a new entry is made only
for a fiber that waits and is answered: by a report that comes in later, or by one that was being handed
around when the register was written.
-/

namespace BusScript

open CommandCode (asksRegister)

open RegisterCache (liveFor_add_le liveFor_pos_of_mem liveFor_update shrinks_detach shrinks_lookup)

open Stepping (Does Tries finish_quiet resume startFiber_quiet step step_does)

namespace Machine

variable {log notes : List Note} {s s' : Phase} {m m' : Machine} {index role : Nat} {code : CommandCode}

def IsBound (m : Machine) (role : Nat) : Prop := ∃ r, m.roles[role]? = some r ∧ r.binding.isSome = true

/-- A packet is a report of a register of a role, as far as its header tells. -/
def Concerns (m : Machine) (role : Nat) (code : CommandCode) (p : Packet) : Prop :=
  ∃ r, m.roles[role]? = some r ∧ r.receives p = true ∧ p.isReport = true ∧ p.code = code

/-- A report of a register is handed around: the call delivers it, or a timer pass has it at hand. -/
def AtHand (s : Phase) (m : Machine) (role : Nat) (code : CommandCode) : Prop :=
  (∃ p, s.delivered = some p ∧ m.Concerns role code p) ∨ s.pass = some .timer ∧ m.Concerns role code m.packet

namespace Concerns

variable {p : Packet}

theorem congr {p' : Packet} (h : m'.Concerns role code p') (hroles : m'.roles = m.roles)
    (hpacket : ∃ data, p' = { p with data }) : m.Concerns role code p := by
  obtain ⟨data, rfl⟩ := hpacket
  obtain ⟨r, hr, hreceives⟩ := h
  exact ⟨r, hroles ▸ hr, hreceives⟩

theorem exists_binding (h : m.Concerns role code p) :
    ∃ r b, m.roles[role]? = some r ∧ r.receives p = true ∧ r.binding = some b := by
  obtain ⟨r, hr, hreceives, -⟩ := h
  obtain ⟨b, hb, -⟩ := (Option.any_eq_true _ _).1 hreceives
  exact ⟨r, b, hr, hreceives, hb⟩

theorem isBound (h : m.Concerns role code p) : m.IsBound role := by
  obtain ⟨r, b, hr, -, hb⟩ := h.exists_binding
  exact ⟨r, hr, by rw [hb]; rfl⟩

theorem role_eq (h : m.Concerns role code p) (hexclusive : Roles.Exclusive m.roles)
    (hcode : asksRegister code = true) {role' : Nat} {r' : Role}
    (hr' : m.roles[role']? = some r') (hbinding : r'.binding = some ⟨p.device, p.service⟩) :
    role' = role := by
  obtain ⟨r, b, hr, hreceives, hb⟩ := h.exists_binding
  obtain ⟨-, -, -, -, rfl⟩ := h
  have hsame := Role.binding_of_receives hreceives hcode hb
  exact hexclusive.index_eq hr' hr hbinding (hsame ▸ hb)

end Concerns

theorem AtHand.congr (h : m'.AtHand s role code) (hroles : m'.roles = m.roles)
    (hpacket : ∃ data, m'.packet = { m.packet with data }) : m.AtHand s role code := by
  rcases h with ⟨p, hp, hconcerns⟩ | ⟨hpass, hconcerns⟩
  · exact .inl ⟨p, hp, hconcerns.congr hroles ⟨p.data, rfl⟩⟩
  · exact .inr ⟨hpass, hconcerns.congr hroles hpacket⟩

theorem not_atHand (hdelivered : s.delivered = none) (hpass : s.pass = none) : ¬ m.AtHand s role code := by
  rintro (⟨p, hp, -⟩ | ⟨htimer, -⟩)
  · rw [hdelivered] at hp
    cases hp
  · rw [hpass] at htimer
    cases htimer

theorem AtHand.of_enter {pass : Pass} (hpass : s.pass = some pass)
    (h : (pass.enter m).AtHand s role code) : m.AtHand s role code := by
  cases pass with
  | timer => exact h
  | observers role' p =>
    rcases h with hdelivered | ⟨htimer, -⟩
    · exact .inl hdelivered
    · rw [hpass] at htimer
      cases htimer

theorem Told.argument (h : m.Told log s) : ∀ e ∈ m.cache.entries, e.isDead = false → e.argument = none :=
  fun e hmem hlive => (h.entries e hmem hlive).argument

theorem Quiet.liveFor_le (h : m.Quiet m') (role : Nat) (code : CommandCode) :
    m'.cache.liveFor role code ≤ m.cache.liveFor role code := Nat.le_of_eq (by rw [h.cache])

theorem shrinks_of_does {flow : Flow} (hdoes : Does index m flow m') : m.cache.Shrinks m'.cache := by
  cases hdoes with
  | quiet hwrites hreads hquiet =>
    rw [hquiet.cache]
    exact .refl _
  | write hwrites hreads hquiet hcache =>
    rw [hcache]
    exact RegisterCache.shrinks_invalidate _ _
  | @hit _ role validity code r b entry hreads hwrites hrole hbinding hquiet hcache hpacket =>
    have hshrinks := shrinks_lookup (c := m.cache) role code none m.host.now validity
    rwa [hcache] at hshrinks
  | @ask _ role validity code r hreads hwrites hrole hroles hnow hpacket hcache hasking =>
    split at hcache
    · have hshrinks := shrinks_lookup (c := m.cache) role code none m.host.now validity
      rwa [hcache] at hshrinks
    · rw [hcache]
      exact .refl _

theorem liveFor_le_of_tries {stays : Bool} (htries : Tries index m stays m')
    (hnot : stays = false → ∀ resend, m.fibers[index]?.bind (·.request) ≠ some (.query role code resend)) :
    m'.cache.liveFor role code ≤ m.cache.liveFor role code := by
  cases htries with
  | quiet hquiet _ => exact hquiet.liveFor_le role code
  | @answer _ f role' resend code' r hfiber hrequest hrole hreceives hreport hcode hquiet hcache hasking =>
    rw [hcache]
    refine Nat.le_trans (liveFor_add_le ..) (Nat.le_of_eq ?_)
    simp_all

theorem exists_tries (index : Nat) (m : Machine) :
    ∃ stays, Tries index m stays (stateAfter (resume index m)) ∧
      (stays = false → ∃ m', resume index m = .ok true m') := by
  have htries := Stepping.resume_tries index m
  cases hresult : resume index m with
  | ok goesOn m' =>
    rw [hresult] at htries
    refine ⟨!goesOn, htries, fun hgoesOn => ⟨m', ?_⟩⟩
    simp_all
  | error fault m' =>
    rw [hresult] at htries
    exact ⟨true, .quiet htries (by rintro ⟨⟩), by rintro ⟨⟩⟩

theorem liveFor_le_of_moves (hmove : Moves s m notes s' m') (hnot : .answered role code ∉ notes) :
    m'.cache.liveFor role code ≤ m.cache.liveFor role code := by
  cases hmove with
  | tidy | host | bind | unbind | take | release | beginTimer | beginObservers | endPass =>
    exact Nat.le_refl _
  | reset => exact Nat.zero_le _
  | startMain => exact (startFiber_quiet _ _ _ m).stateAfter.liveFor_le role code
  | @detach _ role' rest => exact (shrinks_detach role').liveFor_le _ _
  | deliver hreceives => exact Nat.le_of_eq (liveFor_update ..)
  | @enter _ _ pass hpass => cases pass <;> exact Nat.le_refl _
  | @resume _ _ pass index hpass =>
    obtain ⟨stays, htries, hgoesOn⟩ := exists_tries index (pass.enter m)
    have hcache : (pass.enter m).cache = m.cache := by cases pass <;> rfl
    rw [← hcache]
    refine liveFor_le_of_tries htries fun hstays resend hrequest => hnot ?_
    rw [Pass.fibers_enter] at hrequest
    obtain ⟨m', hresume⟩ := hgoesOn hstays
    rw [hresume, answers, hrequest]
    exact List.mem_singleton.2 rfl
  | step index hpass =>
    have hdoes := step_does index m
    cases hresult : step index m with
    | ok flow m' =>
      rw [hresult] at hdoes
      exact (shrinks_of_does hdoes).liveFor_le _ _
    | error fault m' =>
      rw [hresult] at hdoes
      exact hdoes.liveFor_le role code
  | finish index hpass => exact (finish_quiet index m).stateAfter.liveFor_le role code

theorem liveFor_le_of_leads (hleads : Leads s m notes s' m') (hnot : .answered role code ∉ notes) :
    m'.cache.liveFor role code ≤ m.cache.liveFor role code := by
  induction hleads with
  | refl => exact Nat.le_refl _
  | move _ hmove ih =>
    rw [List.mem_append, not_or] at hnot
    exact Nat.le_trans (liveFor_le_of_moves hmove hnot.2) (ih hnot.1)

/-- A register has one entry at most and is waited for by one fiber at most, and then it has none. -/
structure Single (role : Nat) (code : CommandCode) (m : Machine) : Prop where
  one : m.cache.liveFor role code ≤ 1
  waiting : m.asking role code ≤ 1
  missing : 0 < m.asking role code → m.IsBound role → m.cache.liveFor role code = 0

namespace Single

theorem change (h : m.Single role code) (hbound : m'.IsBound role → m.IsBound role)
    (hasking : m'.asking role code ≤ m.asking role code)
    (hlive : m'.cache.liveFor role code ≤ m.cache.liveFor role code) : m'.Single role code := by
  refine ⟨Nat.le_trans hlive h.one, Nat.le_trans hasking h.waiting, fun hpos hb => ?_⟩
  have hzero := h.missing (Nat.lt_of_lt_of_le hpos hasking) (hbound hb)
  omega

theorem isBound_congr (hroles : m'.roles = m.roles) : m'.IsBound role → m.IsBound role := by
  rw [IsBound, IsBound, hroles]
  exact id

theorem quiet (h : m.Single role code) (hquiet : m.Quiet m') : m'.Single role code :=
  h.change (isBound_congr hquiet.roles) (hquiet.asking role code) (hquiet.liveFor_le role code)

theorem does {flow : Flow} (h : m.Single role code) (htold : m.Told log s)
    (hdoes : Does index m flow m') (hnot : .doubled role code ∉ m.notes index (.ok flow m')) :
    m'.Single role code := by
  have hlive := (shrinks_of_does hdoes).liveFor_le role code
  cases hdoes with
  | quiet hwrites hreads hquiet => exact h.quiet hquiet
  | write hwrites hreads hquiet | hit hreads hwrites hrole hbinding hquiet =>
    exact h.change (isBound_congr hquiet.roles) (hquiet.asking role code) hlive
  | @ask _ role' validity code' r hreads hwrites hrole hroles hnow hpacket hcache hasking =>
    have hle := hasking role code
    split at hle
    · -- the fiber is the only one that waits, and it has looked in vain
      next hsame =>
      obtain ⟨rfl, rfl⟩ := hsame
      have hnobody : m.asking role code = 0 := by
        refine Nat.eq_zero_of_not_pos fun hpos => hnot ?_
        rw [notes, hreads]
        simp_all
      refine ⟨Nat.le_trans hlive h.one, by omega, fun _ hbound => ?_⟩
      obtain ⟨r', hr', hsome⟩ := isBound_congr hroles hbound
      rw [hrole, Option.some.injEq] at hr'
      rw [hr', if_pos hsome] at hcache
      exact RegisterCache.liveFor_of_lookup_eq_none htold.argument h.one hcache
    · exact h.change (isBound_congr hroles) hle hlive

theorem tries {stays : Bool} (h : m.Single role code) (htries : Tries index m stays m') :
    m'.Single role code := by
  cases htries with
  | quiet hquiet _ => exact h.quiet hquiet
  | @answer _ f role' resend code' r hfiber hrequest hrole hreceives hreport hcode hquiet hcache hasking =>
    have hadd := liveFor_add_le (c := m.cache)
      { role := role', code := code', value := m.packet.data, lastRefresh := m.host.now } role code
    rw [← hcache] at hadd
    by_cases hsame : role' = role ∧ code' = code
    · -- the fiber that is answered was the only one that waited
      rw [if_pos hsame] at hadd
      obtain ⟨rfl, rfl⟩ := hsame
      have hzero := h.missing (Nat.lt_of_le_of_lt (Nat.zero_le _) hasking)
        (Concerns.isBound ⟨r, hrole, hreceives, hreport, hcode⟩)
      have hwaiting := h.waiting
      exact ⟨by omega, by omega, fun hpos => by omega⟩
    · rw [if_neg hsame] at hadd
      exact h.change (isBound_congr hquiet.roles) (hquiet.asking role code) hadd

theorem moves (h : m.Single role code) (htold : m.Told log s) (hmove : Moves s m notes s' m')
    (hnot : .doubled role code ∉ notes) : m'.Single role code := by
  cases hmove with
  | tidy fibers operands wokenBy signals overrun panic hfibers =>
    exact h.change id hfibers.countP_le (Nat.le_refl _)
  | host | beginTimer | beginObservers => exact h.change id (Nat.le_refl _) (Nat.le_refl _)
  | take | release | endPass => exact h
  | reset => exact ⟨Nat.zero_le _, Nat.zero_le _, fun _ _ => rfl⟩
  | startMain => exact h.quiet (startFiber_quiet _ _ _ m).stateAfter
  | bind nextAutobind =>
    refine ⟨h.one, h.waiting, fun hpos _ => ?_⟩
    -- a role that is bound only now has no entries
    refine Nat.eq_zero_of_not_pos fun hlive => ?_
    obtain ⟨e, hmem, halive, rfl, rfl⟩ := RegisterCache.exists_mem_of_liveFor_pos hlive
    have hbound := (htold.entries e hmem halive).bound.resolve_right List.not_mem_nil
    have hzero := h.missing hpos hbound
    exact Nat.lt_irrefl 0 (hzero ▸ hlive)
  | unbind device =>
    refine h.change ?_ (Nat.le_refl _) (Nat.le_refl _)
    rintro ⟨r, hr, hbound⟩
    obtain ⟨r', hr', hr⟩ := Option.map_eq_some_iff.1 ((List.getElem?_map ..).symm.trans hr)
    split at hr
    · rw [← hr] at hbound
      cases hbound
    · exact ⟨r', hr', hr ▸ hbound⟩
  | @detach _ role' rest =>
    exact h.change id (Nat.le_refl _) ((shrinks_detach role').liveFor_le _ _)
  | deliver hreceives =>
    exact h.change id (Nat.le_refl _) (Nat.le_of_eq (liveFor_update ..))
  | @enter _ _ pass hpass => cases pass <;> exact h.change id (Nat.le_refl _) (Nat.le_refl _)
  | @resume _ _ pass index hpass =>
    have hentered : (pass.enter m).Single role code := by
      cases pass <;> exact h.change id (Nat.le_refl _) (Nat.le_refl _)
    obtain ⟨stays, htries, -⟩ := exists_tries index (pass.enter m)
    exact hentered.tries htries
  | step index hpass =>
    have hdoes := step_does index m
    cases hresult : step index m with
    | ok flow m' =>
      rw [hresult] at hdoes hnot
      exact h.does htold hdoes hnot
    | error fault m' =>
      rw [hresult] at hdoes
      exact h.quiet hdoes
  | finish index hpass => exact h.quiet (finish_quiet index m).stateAfter

theorem leads (h : m.Single role code) (htold : m.Told log s) (hleads : Leads s m notes s' m')
    (hnot : .doubled role code ∉ notes) : m'.Single role code := by
  induction hleads with
  | refl => exact h
  | move hbefore hmove ih =>
    rw [List.mem_append, not_or] at hnot
    exact (ih hnot.1).moves (htold.leads hbefore) hmove hnot.2

end Single

/-- The cache has no value of a register, and no report of it is handed around. -/
structure Hides (role : Nat) (code : CommandCode) (s : Phase) (m : Machine) : Prop where
  none : m.cache.liveFor role code = 0
  away : ¬ m.AtHand s role code

namespace Hides

variable (h : m.Hides role code s)

include h

theorem not_answer (htold : m.Told log s)
    (hcode : asksRegister code = true) {pass : Pass} (hpass : s.pass = some pass)
    (hconcerns : (pass.enter m).Concerns role code (pass.enter m).packet) : False := by
  cases pass with
  | timer => exact h.away (.inr ⟨hpass, hconcerns⟩)
  | observers role' p =>
    obtain ⟨r, hr, hreceives, hreport, hp⟩ := hconcerns
    have hdelivered := Phase.delivered_of_carries (htold.carries role' p hpass) (hp ▸ hcode)
    exact h.away (.inl ⟨p, hdelivered, r, hr, hreceives, hreport, hp⟩)

theorem change (hroles : m'.roles = m.roles) (hpacket : ∃ data, m'.packet = { m.packet with data })
    (hlive : m'.cache.liveFor role code ≤ m.cache.liveFor role code) : m'.Hides role code s :=
  ⟨Nat.le_zero.1 (h.none ▸ hlive), fun hhand => h.away (hhand.congr hroles hpacket)⟩

theorem quiet (hquiet : m.Quiet m') : m'.Hides role code s :=
  h.change hquiet.roles hquiet.packet (hquiet.liveFor_le role code)

theorem enter {pass : Pass} (hpass : s.pass = some pass) : (pass.enter m).Hides role code s := by
  refine ⟨?_, fun hhand => h.away (hhand.of_enter hpass)⟩
  cases pass <;> exact h.none

theorem does {flow : Flow} (htold : m.Told log s)
    (hcode : asksRegister code = true) (hdoes : Does index m flow m') :
    m'.Hides role code s := by
  have hlive := (shrinks_of_does hdoes).liveFor_le role code
  cases hdoes with
  | quiet hwrites hreads hquiet => exact h.quiet hquiet
  | write hwrites hreads hquiet hcache => exact h.change hquiet.roles hquiet.packet hlive
  | @hit _ role' validity code' r b entry hreads hwrites hrole hbinding hquiet hcache hpacket =>
    have hroles : m'.roles = m.roles := hquiet.roles
    refine ⟨Nat.le_zero.1 (h.none ▸ hlive), ?_⟩
    rintro (⟨p, hp, hconcerns⟩ | ⟨hpass, hconcerns⟩)
    · exact h.away (.inl ⟨p, hp, hconcerns.congr hroles ⟨p.data, rfl⟩⟩)
    · -- the value that was read would be one of this register, and there is none
      have hconcerns : m.Concerns role code m'.packet := hconcerns.congr hroles ⟨m'.packet.data, rfl⟩
      have hsame : role' = role := by
        refine hconcerns.role_eq htold.exclusive hcode hrole ?_
        rw [hpacket]
        exact hbinding
      obtain ⟨_, -, -, -, hcode'⟩ := hconcerns
      rw [hpacket] at hcode'
      change code' = code at hcode'
      subst hsame hcode'
      obtain ⟨e, hmem, halive, rfl, rfl, -⟩ := RegisterCache.mem_of_lookup_eq_some hcache
      exact Nat.lt_irrefl 0 (h.none ▸ liveFor_pos_of_mem hmem halive)
  | ask hreads hwrites hrole hroles hnow hpacket hcache hasking => exact h.change hroles hpacket hlive

theorem tries {stays : Bool} {pass : Pass} (htold : m.Told log s)
    (hcode : asksRegister code = true) (hpass : s.pass = some pass)
    (htries : Tries index (pass.enter m) stays m') : m'.Hides role code s := by
  cases htries with
  | quiet hquiet _ => exact (h.enter hpass).quiet hquiet
  | @answer _ f role' resend code' r hfiber hrequest hrole hreceives hreport hcode' hquiet hcache hasking =>
    refine (h.enter hpass).change hquiet.roles hquiet.packet ?_
    rw [hcache]
    refine Nat.le_trans (liveFor_add_le ..) (Nat.le_of_eq ?_)
    rw [if_neg, Nat.add_zero]
    rintro ⟨rfl, rfl⟩
    exact h.not_answer htold hcode hpass ⟨r, hrole, hreceives, hreport, hcode'⟩

theorem moves (htold : m.Told log s) (hcode : asksRegister code = true) (hmove : Moves s m notes s' m')
    (hunheard : ∀ time p, .heard time role p ∈ notes → p.isReport = true → p.code ≠ code) :
    m'.Hides role code s' := by
  cases hmove with
  | tidy => exact h.change rfl ⟨m.packet.data, rfl⟩ (Nat.le_refl _)
  | host | bind | unbind | release => exact ⟨h.none, not_atHand rfl rfl⟩
  | reset => exact ⟨rfl, not_atHand rfl rfl⟩
  | startMain => exact h.quiet (startFiber_quiet _ _ _ m).stateAfter
  | @detach _ role' rest =>
    have hle := (shrinks_detach (c := m.cache) role').liveFor_le role code
    exact ⟨Nat.le_zero.1 (h.none ▸ hle), not_atHand rfl rfl⟩
  | take p =>
    refine ⟨h.none, ?_⟩
    rintro (⟨_, ⟨⟩, r, hr, hreceives, hreport, hreported⟩ | ⟨⟨⟩, -⟩)
    exact hunheard _ p (mem_hearings hr hreceives) hreport hreported
  | deliver hreceives =>
    exact h.change rfl ⟨m.packet.data, rfl⟩ (Nat.le_of_eq (liveFor_update ..))
  | beginTimer hpass =>
    refine ⟨h.none, ?_⟩
    rintro (hdelivered | ⟨-, r, hr, hreceives, hreport, hzero⟩)
    · exact h.away (.inl hdelivered)
    · change (0 : CommandCode) = code at hzero
      rw [← hzero] at hcode
      cases hcode
  | beginObservers | endPass =>
    refine ⟨h.none, ?_⟩
    rintro (hdelivered | ⟨⟨⟩, -⟩)
    exact h.away (.inl hdelivered)
  | enter hpass => exact h.enter hpass
  | @resume _ _ pass index hpass =>
    obtain ⟨stays, htries, -⟩ := exists_tries index (pass.enter m)
    exact h.tries htold hcode hpass htries
  | step index hpass =>
    have hdoes := step_does index m
    cases hresult : step index m with
    | ok flow m' =>
      rw [hresult] at hdoes
      exact h.does htold hcode hdoes
    | error fault m' =>
      rw [hresult] at hdoes
      exact h.quiet hdoes
  | finish index hpass => exact h.quiet (finish_quiet index m).stateAfter

theorem leads (htold : m.Told log s) (hcode : asksRegister code = true) (hleads : Leads s m notes s' m')
    (hunheard : ∀ time p, .heard time role p ∈ notes → p.isReport = true → p.code ≠ code) :
    m'.Hides role code s' := by
  induction hleads with
  | refl => exact h
  | move hbefore hmove ih =>
    refine (ih fun time p hmem => hunheard time p (List.mem_append_left _ hmem)).moves
      (htold.leads hbefore) hcode hmove ?_
    exact fun time p hmem => hunheard time p (List.mem_append_right _ hmem)

end Hides

variable {bytes : Bytes} {host : Host} {config : Config} {random : Random}

theorem single_of_new (hnew : Machine.new bytes host config random = .ok m) (role : Nat)
    (code : CommandCode) : m.Single role code := by
  obtain ⟨image, -, -, rfl⟩ := Machine.eq_of_new hnew
  exact ⟨Nat.zero_le _, Nat.zero_le _, fun _ _ => rfl⟩

theorem asksRegister_of_writes? (hwrites : m.writes? index = some (role, code)) :
    asksRegister code = true := by
  rw [writes?] at hwrites
  split at hwrites
  · split at hwrites
    · cases hwrites
      exact CommandCode.asksRegister_getReg _
    · cases hwrites
  · cases hwrites

/-- After a write of a register that has one entry at most there is none, and what is handed around stays. -/
theorem write_drops (htold : m.Told log s) (hwrites : m.writes? index = some (role, code)) {flow : Flow}
    (hstep : step index m = .ok flow m') (hone : m.cache.liveFor role code ≤ 1) :
    m'.cache.liveFor role code = 0 ∧ (m'.AtHand s role code → m.AtHand s role code) := by
  have hdoes := step_does index m
  rw [hstep] at hdoes
  cases hdoes with
  | quiet hnone | hit _ hnone | ask _ hnone =>
    rw [hwrites] at hnone
    cases hnone
  | write hsame _ hquiet hcache =>
    rw [hwrites] at hsame
    cases hsame
    rw [hcache]
    exact ⟨RegisterCache.liveFor_invalidate htold.argument hone, fun hhand => hhand.congr hquiet.roles hquiet.packet⟩

theorem read_waits {validity : Nat} (hzero : m.cache.liveFor role code = 0)
    (hreads : m.reads? index = some (role, code, validity)) : step index m ≠ .ok .next m' := by
  intro hstep
  obtain ⟨e, hmem, hlive, rfl, rfl, -⟩ := exists_entry_of_reads hreads hstep
  exact Nat.lt_irrefl 0 (hzero ▸ liveFor_pos_of_mem hmem hlive)

/-- What a write of a register hides, at every moment of every run of a machine. A register has one live entry
at most, unless two fibers have waited for it at once. If there is one at most when the register is written,
then no read of it is answered from the cache as long as no fiber that waits for it is answered; and, if no
report of it was being handed around at the write, as long as none comes in. -/
theorem register_writes_hide_cached_values (hnew : Machine.new bytes host config random = .ok m) :
    (∀ record m', m.Recorded record m' → ∃ log, Leads {} m log {} m' ∧
      ∀ time role p, .heard time role p ∈ log → (time, p) ∈ record) ∧
    ∀ log s m₁, Leads {} m log s m₁ → (∀ role code, .doubled role code ∉ log → m₁.cache.liveFor role code ≤ 1 ∧
        ∀ argument, m₁.cache.entries.countP (RegisterCache.isFor role code argument) ≤ 1) ∧
      ∀ index role code flow m₂, m₁.writes? index = some (role, code) →
        Stepping.step index m₁ = .ok flow m₂ → m₁.cache.liveFor role code ≤ 1 → ∀ log' s' m₃, Leads s m₂ log' s' m₃ →
            (.answered role code ∉ log' ∨ ¬ m₁.AtHand s role code ∧
              ∀ time p, .heard time role p ∈ log' → p.isReport = true → p.code ≠ code) →
            ∀ index' validity m₄, m₃.reads? index' = some (role, code, validity) →
              Stepping.step index' m₃ ≠ .ok .next m₄ := by
  refine ⟨fun record m' hrecorded => hrecorded.goes, fun log s m₁ hleads => ?_⟩
  have htold := told_of_leads hnew hleads
  constructor
  · intro role code hnot
    have hsingle := (single_of_new hnew role code).leads (told_of_new hnew) hleads hnot
    refine ⟨hsingle.one, fun argument => Nat.le_trans (List.countP_mono_left ?_) hsingle.one⟩
    intro e _ he
    rw [RegisterCache.isFor, Bool.and_eq_true] at he
    exact he.1
  · intro index role code flow m₂ hwrites hstep hone log' s' m₃ hleads' hcalm index' validity m₄ hreads
    obtain ⟨hzero, hhand⟩ := write_drops htold hwrites hstep hone
    refine read_waits ?_ hreads
    rcases hcalm with hnot | ⟨haway, hunheard⟩
    · exact Nat.le_zero.1 (hzero ▸ liveFor_le_of_leads hleads' hnot)
    · have htold2 := htold.step index
      rw [hstep] at htold2
      have hhides : m₂.Hides role code s := ⟨hzero, fun h => haway (hhand h)⟩
      exact (hhides.leads htold2 (asksRegister_of_writes? hwrites) hleads' hunheard).none

end Machine

/-- Runs words of the fiber at `index` that each go on to the next one. -/
def Machine.walk (index : Nat) : Nat → Machine → Option Machine
  | 0, m => some m
  | n + 1, m =>
    match step index m with
    | .ok .next m' => m'.walk index n
    | _ => none

theorem Machine.answered_notMem_notes {m : Machine} {index role : Nat} {code : CommandCode}
    {r : EStateM.Result Fault Machine Flow} : Note.answered role code ∉ m.notes index r := by
  unfold notes
  split
  · simp
  · split
    · split <;> simp
    · simp
  · simp

theorem Machine.Leads.walk {s : Phase} {pass : Pass} (hpass : s.pass = some pass) {index n : Nat}
    {m m' : Machine} (hwalk : m.walk index n = some m') (role : Nat) (code : CommandCode) :
    ∃ log, Leads s m log s m' ∧ .answered role code ∉ log := by
  induction n generalizing m with
  | zero =>
    cases hwalk
    exact ⟨[], .refl, List.not_mem_nil⟩
  | succ n ih =>
    rw [Machine.walk] at hwalk
    split at hwalk
    · next m₁ hstep =>
      obtain ⟨log, hleads, hnot⟩ := ih hwalk
      have hmove : Moves s m (m.notes index (step index m)) s m₁ := by
        have hmove := Moves.step (m := m) index hpass
        rwa [hstep, stateAfter, ← hstep] at hmove
      refine ⟨_, (Leads.single hmove).trans hleads, ?_⟩
      rw [List.mem_append, not_or]
      exact ⟨answered_notMem_notes, hnot⟩
    · cases hwalk

/-- The first fiber comes to write the angle, which is cached, and then to read it. -/
def Machine.writesThenReads (m : Machine) : Bool :=
  (m.walk 0 14).any fun m₁ =>
    m₁.writes? 0 = some (0, 0x1002) && m₁.cache.liveFor 0 0x1002 = 1 &&
      match step 0 m₁ with
      | .ok .park m₂ =>
        m₂.answers 0 (resume 0 m₂) = [] &&
          ((stateAfter (resume 0 m₂)).walk 0 2).any (·.reads? 0 = some (0, 0x1002, 500))
      | _ => false

open Script in
/-- Two handlers read the angle of a servo when it is connected. A quarter of a second later seven degrees are
written and read. -/
def twoReadersScript : List Stmt :=
  [declare "s" (some (.call {} (member (name "roles") "servo") [])),
    declare "x" none,
    declare "y" none,
    .expr {} (.call {} (member (name "s") "onConnected")
      [.arrow {} [] [set "x" (onAngle "s" "read" [])]]),
    .expr {} (.call {} (member (name "s") "onConnected")
      [.arrow {} [] [set "y" (onAngle "s" "read" [])]]),
    .expr {} (.call {} (name "wait") [.literal {} (.number 0.25)]),
    .expr {} (onAngle "s" "write" [.literal {} (.number 7)]),
    declare "z" (some (onAngle "s" "read" []))]

/-- The servo reports five degrees while both handlers wait. -/
def oneReportForTwo : List Deed := [.call .start, .call .connected, .call (.packet (angleReport 5))]

/-- Both handlers make an entry, and the write drops only one of them: the read behind it gets the five
degrees that came before it, and no question goes out. -/
theorem second_entry_outlives_write : ∃ compiled m m₁ m₂, compile Catalog.builtin {} twoReadersScript = .ok compiled ∧
      Machine.new compiled.image servoHost {} (.ofSeed 1) = .ok m ∧
      m.Recorded [(0, angleReport 5)] m₁ ∧
      m₁.cache.entries.countP (RegisterCache.isFor 0 0x1002 none) = 2 ∧
      m.Recorded [(0, angleReport 5)] m₂ ∧
      m₂.host.sent.toList.map (·.code) = [0x1002, 0x1002, 0x2002] ∧
      m₂.globals.toList = [5, 5, 5] := by
  have hplays : playsTo twoReadersScript servoHost oneReportForTwo (fun record m₁ =>
      record = [(0, angleReport 5)] ∧ m₁.cache.entries.countP (RegisterCache.isFor 0 0x1002 none) = 2 ∧
        (m₁.play [.clock 300, .call .tick] record).any fun result =>
          result.1 = record ∧ result.2.host.sent.toList.map (·.code) = [0x1002, 0x1002, 0x2002] ∧
            result.2.globals.toList = [5, 5, 5]) = true := by
    decide +kernel
  obtain ⟨compiled, m, record, m₁, hcompile, hnew, hrecorded, hcheck⟩ := exists_of_playsTo hplays
  obtain ⟨rfl, htwo, hlater⟩ := of_decide_eq_true hcheck
  obtain ⟨⟨record, m₂⟩, hplay, hresult⟩ := (Option.any_eq_true _ _).1 hlater
  obtain ⟨rfl, hsent, hglobals⟩ := of_decide_eq_true hresult
  exact ⟨compiled, m, m₁, m₂, hcompile, hnew, hrecorded, htwo, hrecorded.play hplay, hsent, hglobals⟩

theorem register_writes_hide_cached_values_rereading :
    ∃ compiled m log s m₁ m₂ log' m₃, compile Catalog.builtin {} rereadingScript = .ok compiled ∧
      Machine.new compiled.image servoHost {} (.ofSeed 1) = .ok m ∧
      Machine.Leads {} m log s m₁ ∧ m₁.cache.liveFor 0 0x1002 = 1 ∧ m₁.writes? 0 = some (0, 0x1002) ∧
      Stepping.step 0 m₁ = .ok .park m₂ ∧ Machine.Leads s m₂ log' s m₃ ∧
      m₃.reads? 0 = some (0, 0x1002, 500) ∧ ∀ m₄, Stepping.step 0 m₃ ≠ .ok .next m₄ := by
  have hplays : playsTo rereadingScript servoHost (oneReport.take 4) (fun _ m =>
      (stateAfter (Stepping.resume 0 { m with packet := {} })).writesThenReads) = true := by
    decide +kernel
  obtain ⟨compiled, m, record, m0, hcompile, hnew, hrecorded, hcheck⟩ := exists_of_playsTo hplays
  obtain ⟨hmoves, hhides⟩ := Machine.register_writes_hide_cached_values hnew
  obtain ⟨log, hleads, -⟩ := hmoves record m0 hrecorded
  have hresumed := (hleads.move (.beginTimer rfl)).move (.resume 0 rfl)
  obtain ⟨m₁, hwalk, hcheck⟩ := (Option.any_eq_true _ _).1 hcheck
  simp only [Bool.and_eq_true, decide_eq_true_iff] at hcheck
  obtain ⟨⟨hwrites, hone⟩, hcheck⟩ := hcheck
  obtain ⟨log1, hleads1, -⟩ := Machine.Leads.walk (s := { pass := some .timer }) rfl hwalk 0 0x1002
  split at hcheck
  · next m₂ hstep =>
    simp only [Bool.and_eq_true, decide_eq_true_iff] at hcheck
    obtain ⟨hunanswered, hcheck⟩ := hcheck
    obtain ⟨m₃, hwalk', hreads⟩ := (Option.any_eq_true _ _).1 hcheck
    rw [decide_eq_true_iff] at hreads
    obtain ⟨log2, hleads2, hnot⟩ := Machine.Leads.walk (s := { pass := some .timer }) rfl hwalk' 0 0x1002
    have hserved : Machine.Moves { pass := some .timer } m₂ (m₂.answers 0 (Stepping.resume 0 m₂))
        { pass := some .timer } (stateAfter (Stepping.resume 0 m₂)) := @Machine.Moves.resume _ _ .timer 0 rfl
    have hafter := (Machine.Leads.single hserved).trans hleads2
    refine ⟨compiled, m, _, _, m₁, m₂, _, m₃, hcompile, hnew, hresumed.trans hleads1, hone, hwrites,
      hstep, hafter, hreads, fun m₄ => ?_⟩
    refine (hhides _ _ m₁ (hresumed.trans hleads1)).2 0 0 0x1002 .park m₂ hwrites hstep
      (Nat.le_of_eq hone) _ _ m₃ hafter (.inl ?_) 0 500 m₄ hreads
    rw [hunanswered]
    exact hnot
  · cases hcheck

end BusScript
