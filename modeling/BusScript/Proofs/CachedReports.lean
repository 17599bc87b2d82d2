import BusScript.Proofs.Bindings
import BusScript.Proofs.ScriptRuns

namespace BusScript

/-- Whether a code may stand for a register that is read. -/
def CommandCode.asksRegister (code : CommandCode) : Bool := code.toNat.testBit 12

theorem CommandCode.asksRegister_getReg (register : UInt16) : asksRegister (getReg register) = true := by
  rw [asksRegister, getReg, UInt16.toNat_or, Nat.testBit_or]
  exact Bool.or_true _

variable {p : Packet} {log : List Note} {dropped : List Nat} {roles : List Role}

theorem Phase.delivered_of_carries {s : Phase} (hcarries : s.Carries p)
    (hcode : CommandCode.asksRegister p.code = true) : s.delivered = some p := by
  rcases hcarries with hdelivered | hzero | rfl
  · exact hdelivered
  · rw [hzero] at hcode
    cases hcode
  · cases hcode

theorem Role.binding_of_receives {r : Role} {b : Binding} (hreceives : r.receives p = true)
    (hcode : CommandCode.asksRegister p.code = true) (hb : r.binding = some b) :
    b = ⟨p.device, p.service⟩ := by
  rw [receives, hb, Option.any_some, Bool.and_eq_true, Bool.or_eq_true, Bool.and_eq_true, beq_iff_eq,
    beq_iff_eq, beq_iff_eq, beq_iff_eq] at hreceives
  rcases hreceives with ⟨hdevice, hservice | ⟨-, hzero⟩⟩
  · rw [← hdevice, ← hservice]
  · rw [hzero] at hcode
    cases hcode

/-- The value of an entry is the payload of a report of its register. It came in for the role of the entry at
the time of the entry, and from the service that the role is bound to, if it is. -/
def Reported (log : List Note) (roles : List Role) (e : CachedRegister) : Prop :=
  ∃ p, .heard e.lastRefresh e.role p ∈ log ∧ p.isReport = true ∧ p.code = e.code ∧ p.data = e.value ∧
    ∀ r b, roles[e.role]? = some r → r.binding = some b → b = ⟨p.device, p.service⟩

structure Genuine (log : List Note) (dropped : List Nat) (roles : List Role) (e : CachedRegister) : Prop where
  argument : e.argument = none
  code : CommandCode.asksRegister e.code = true
  bound : (∃ r, roles[e.role]? = some r ∧ r.binding.isSome = true) ∨ e.role ∈ dropped
  source : Reported log roles e ∨ .cached e.lastRefresh e.role e.code ∈ log

theorem genuine_access (e : CachedRegister) (stamp : Nat) :
    Genuine log dropped roles { e with lastAccess := stamp } ↔ Genuine log dropped roles e :=
  ⟨fun h => ⟨h.argument, h.code, h.bound, h.source⟩, fun h => ⟨h.argument, h.code, h.bound, h.source⟩⟩

theorem Genuine.append {notes : List Note}
    {e : CachedRegister} (h : Genuine log dropped roles e) : Genuine (log ++ notes) dropped roles e := by
  refine ⟨h.argument, h.code, h.bound, ?_⟩
  rcases h.source with ⟨p, hheard, hreport⟩ | hcached
  · exact .inl ⟨p, List.mem_append_left _ hheard, hreport⟩
  · exact .inr (List.mem_append_left _ hcached)

theorem Genuine.rebind {dropped' : List Nat} {roles' : List Role} {e : CachedRegister} (h : Genuine log dropped roles e)
    (hbound : (∃ r, roles'[e.role]? = some r ∧ r.binding.isSome = true) ∨ e.role ∈ dropped')
    (hold : ∀ r' b, roles'[e.role]? = some r' → r'.binding = some b →
      ∃ r, roles[e.role]? = some r ∧ r.binding = some b) : Genuine log dropped' roles' e := by
  refine ⟨h.argument, h.code, hbound, h.source.imp_left ?_⟩
  rintro ⟨p, hheard, hreport, hcode, hvalue, hservice⟩
  refine ⟨p, hheard, hreport, hcode, hvalue, fun r' b hr' hb => ?_⟩
  grind

theorem Genuine.kept {log : List Note} {dropped dropped' : List Nat} {roles roles' : List Role} {e : CachedRegister}
    {r : Role} (h : Genuine log dropped roles e) (hr : roles[e.role]? = some r) (hr' : roles'[e.role]? = some r)
    (hbound : r.binding.isSome = true) : Genuine log dropped' roles' e := by
  refine h.rebind (.inl ⟨r, hr', hbound⟩) fun r' b hsame hb => ⟨r, hr, ?_⟩
  simp_all

theorem Machine.mem_hearings {m : Machine} {role : Nat} {r : Role}
    (hr : m.roles[role]? = some r) (hreceives : r.receives p = true) :
    .heard m.host.now role p ∈ m.hearings p := by
  refine List.mem_map.2 ⟨role, List.mem_filter.2 ⟨?_, ?_⟩, rfl⟩
  · exact List.mem_range.2 (List.getElem?_eq_some_iff.1 hr).1
  · rw [hr]
    exact hreceives

/-- What is known of a machine in a phase of a call, from the notes. -/
structure Machine.Told (log : List Note) (s : Phase) (m : Machine) : Prop where
  exclusive : Roles.Exclusive m.roles
  entries : ∀ e ∈ m.cache.entries, e.isDead = false → Genuine log s.dropped m.roles e
  asked : ∀ role code, 0 < m.asking role code → CommandCode.asksRegister code = true
  heard : ∀ p, s.delivered = some p → ∀ role r, m.roles[role]? = some r → r.receives p = true →
    .heard m.host.now role p ∈ log
  carries : ∀ role p, s.pass = some (.observers role p) → s.Carries p
  /-- In a timer pass only a value from the cache looks like a report of a register. -/
  packet : s.pass = some .timer → ∀ role r, m.roles[role]? = some r → r.receives m.packet = true →
    CommandCode.asksRegister m.packet.code = true → .cached m.host.now role m.packet.code ∈ log

namespace Machine.Told

variable {log notes : List Note} {s : Phase} {m m' : Machine} {index : Nat}

theorem idle {dropped : List Nat} (hexclusive : Roles.Exclusive m.roles)
    (hentries : ∀ e ∈ m.cache.entries, e.isDead = false → Genuine log dropped m.roles e)
    (hasked : ∀ role code, 0 < m.asking role code → CommandCode.asksRegister code = true) :
    m.Told log { dropped } :=
  ⟨hexclusive, hentries, hasked, by rintro _ ⟨⟩, by rintro _ _ ⟨⟩, by rintro ⟨⟩⟩

theorem append (h : m.Told log s) : m.Told (log ++ notes) s :=
  ⟨h.exclusive, fun e hmem hlive => (h.entries e hmem hlive).append, h.asked,
    fun p hp role r hr hreceives => List.mem_append_left _ (h.heard p hp role r hr hreceives),
    h.carries,
    fun hpass role r hr hreceives hcode =>
      List.mem_append_left _ (h.packet hpass role r hr hreceives hcode)⟩

theorem change (h : m.Told log s) (hroles : m'.roles = m.roles) (hnow : m'.host.now = m.host.now)
    (hpacket : ∃ data, m'.packet = { m.packet with data })
    (hasking : ∀ role code, m'.asking role code ≤ m.asking role code)
    (hentries : ∀ e ∈ m'.cache.entries, e.isDead = false → Genuine log s.dropped m.roles e) :
    m'.Told log s := by
  obtain ⟨data, hpacket⟩ := hpacket
  refine ⟨hroles ▸ h.exclusive, hroles ▸ hentries, ?_, ?_, h.carries, ?_⟩
  · intro role code hpos
    exact h.asked role code (Nat.lt_of_lt_of_le hpos (hasking role code))
  · rw [hroles, hnow]
    exact h.heard
  · rw [hroles, hnow, hpacket]
    exact h.packet

theorem quiet (h : m.Told log s) (hquiet : m.Quiet m') : m'.Told log s :=
  h.change hquiet.roles hquiet.now hquiet.packet hquiet.asking (hquiet.cache ▸ h.entries)

theorem asksRegister_of_reads? {role validity : Nat} {code : CommandCode}
    (hreads : m.reads? index = some (role, code, validity)) : CommandCode.asksRegister code = true := by
  rw [reads?] at hreads
  split at hreads
  · cases hreads
    exact CommandCode.asksRegister_getReg _
  · cases hreads

theorem does {flow : Flow} (h : m.Told log s) (hdoes : Stepping.Does index m flow m') :
    m'.Told (log ++ m.notes index (.ok flow m')) s := by
  cases hdoes with
  | quiet hwrites hreads hquiet => exact h.append.quiet hquiet
  | write hwrites hreads hquiet hcache =>
    refine h.append.change hquiet.roles hquiet.now hquiet.packet hquiet.asking ?_
    rw [hcache]
    exact (RegisterCache.shrinks_invalidate _ _).forall_live genuine_access h.append.entries
  | @hit _ role validity code r b entry hreads hwrites hrole hbinding hquiet hcache hpacket =>
    have hnotes : m.notes index (.ok .next m') = [.cached m.host.now role code] := by
      rw [notes, hreads]
      rfl
    have hshrinks := RegisterCache.shrinks_lookup (c := m.cache) role code none m.host.now validity
    rw [hcache] at hshrinks
    rw [hnotes]
    have hentries : ∀ e ∈ m'.cache.entries, e.isDead = false →
        Genuine (log ++ [.cached m.host.now role code]) s.dropped m.roles e :=
      hshrinks.forall_live genuine_access h.append.entries
    have hroles : m'.roles = m.roles := hquiet.roles
    have hnow : m'.host.now = m.host.now := hquiet.now
    refine ⟨hroles ▸ h.exclusive, hroles ▸ hentries, ?_, ?_, h.carries, ?_⟩
    · intro role' code' hpos
      exact h.asked role' code' (Nat.lt_of_lt_of_le hpos (hquiet.asking role' code'))
    · rw [hroles, hnow]
      exact h.append.heard
    · -- the header is that of the register, and only the role that was read holds its service
      rw [hroles, hnow, hpacket]
      intro _ role' r' hr' hreceives hcode
      obtain ⟨b', hb'⟩ : ∃ b', r'.binding = some b' := by
        cases hb' : r'.binding with
        | none =>
          rw [Role.receives, hb'] at hreceives
          cases hreceives
        | some b' => exact ⟨b', rfl⟩
      have hsame : b' = b := Role.binding_of_receives hreceives hcode hb'
      have hindex : role' = role := h.exclusive.index_eq hr' hrole hb' (hsame ▸ hbinding)
      rw [hindex]
      exact List.mem_append_right _ (List.mem_singleton.2 rfl)
  | @ask _ role validity code r hreads hwrites hrole hroles hnow hpacket hcache hasking =>
    have hentries : ∀ e ∈ m'.cache.entries, e.isDead = false →
        Genuine (log ++ m.notes index (.ok .park m')) s.dropped m.roles e := by
      split at hcache
      · have hshrinks := RegisterCache.shrinks_lookup (c := m.cache) role code none m.host.now validity
        rw [hcache] at hshrinks
        exact hshrinks.forall_live genuine_access h.append.entries
      · rw [hcache]
        exact h.append.entries
    obtain ⟨data, hpacket⟩ := hpacket
    refine ⟨hroles ▸ h.exclusive, hroles ▸ hentries, ?_, ?_, h.carries, ?_⟩
    · intro role' code' hpos
      have hle := hasking role' code'
      split at hle
      · next hsame =>
        rw [hsame.2]
        exact asksRegister_of_reads? hreads
      · exact h.asked role' code' (Nat.lt_of_lt_of_le hpos hle)
    · rw [hroles, hnow]
      exact h.append.heard
    · rw [hroles, hnow, hpacket]
      exact h.append.packet

theorem step (h : m.Told log s) (index : Nat) :
    (stateAfter (Stepping.step index m)).Told (log ++ m.notes index (Stepping.step index m)) s := by
  have hdoes := Stepping.step_does index m
  cases hresult : Stepping.step index m with
  | ok flow m' =>
    rw [hresult] at hdoes
    exact h.does hdoes
  | error fault m' =>
    rw [hresult] at hdoes
    exact h.append.quiet hdoes

theorem enter {pass : Pass} (h : m.Told log s) (hpass : s.pass = some pass) : (pass.enter m).Told log s := by
  cases pass with
  | timer => exact h
  | observers role p =>
    refine ⟨h.exclusive, h.entries, h.asked, h.heard, h.carries, fun htimer => ?_⟩
    rw [hpass] at htimer
    cases htimer

theorem tries {stays : Bool} {pass : Pass} (h : m.Told log s) (hpass : s.pass = some pass)
    (htries : Stepping.Tries index (pass.enter m) stays m') : m'.Told log s := by
  have hentered := h.enter hpass
  cases htries with
  | quiet hquiet _ => exact hentered.quiet hquiet
  | @answer _ f role resend code r hfiber hrequest hrole hreceives hreport hcode hquiet hcache hasking =>
    subst hcode
    have hasks : CommandCode.asksRegister (pass.enter m).packet.code = true :=
      hentered.asked role _ (Nat.lt_of_le_of_lt (Nat.zero_le _) hasking)
    have hbound : r.binding.isSome = true := by
      rw [Role.receives, Option.any_eq_true] at hreceives
      obtain ⟨b, hb, -⟩ := hreceives
      rw [hb]
      rfl
    refine hentered.change hquiet.roles hquiet.now hquiet.packet hquiet.asking ?_
    rw [hcache]
    refine RegisterCache.forall_live_add genuine_access hentered.entries ⟨rfl, hasks, .inl ⟨r, hrole, hbound⟩, ?_⟩
    cases pass with
    | timer => exact .inr (h.packet hpass role r hrole hreceives hasks)
    | observers role' p =>
      have hdelivered := Phase.delivered_of_carries (h.carries role' p hpass) hasks
      refine .inl ⟨p, h.heard p hdelivered role r hrole hreceives, hreport, rfl, rfl, ?_⟩
      intro r' b hr' hb
      rw [hrole, Option.some.injEq] at hr'
      exact Role.binding_of_receives (hr' ▸ hreceives) hasks hb

theorem moves {s' : Phase} (h : m.Told log s) (hmove : Moves s m notes s' m') : m'.Told (log ++ notes) s' := by
  have hold : m.Told (log ++ notes) s := h.append
  cases hmove with
  | tidy fibers operands wokenBy signals overrun panic hfibers =>
    exact hold.change rfl rfl ⟨m.packet.data, rfl⟩ (fun _ _ => hfibers.countP_le) hold.entries
  | host | release => exact .idle hold.exclusive hold.entries hold.asked
  | reset => exact .idle (Roles.exclusive_map (fun _ => rfl) m.roles) (by rintro _ ⟨⟩) (by rintro _ _ ⟨⟩)
  | startMain => exact hold.quiet (Stepping.startFiber_quiet _ _ _ m).stateAfter
  | bind nextAutobind =>
    refine .idle (hold.exclusive.autobind _) (fun e hmem hlive => ?_) hold.asked
    have hgenuine := hold.entries e hmem hlive
    obtain ⟨r, hr, hbound⟩ := hgenuine.bound.resolve_right List.not_mem_nil
    exact hgenuine.kept hr (Roles.autobind_getElem? m.host.devices hr hbound) hbound
  | unbind device =>
    refine .idle (hold.exclusive.unbind device) (fun e hmem hlive => ?_) hold.asked
    have hgenuine := hold.entries e hmem hlive
    obtain ⟨r, hr, hbound⟩ := hgenuine.bound.resolve_right List.not_mem_nil
    rcases Roles.unbind_getElem? hr with ⟨⟨hdropped, -⟩, hnone⟩ | hkept
    · refine hgenuine.rebind (.inr hdropped) fun r' b hr' hb => ?_
      grind
    · exact hgenuine.kept hr hkept hbound
  | @detach _ role rest =>
    refine .idle hold.exclusive (fun e hmem hlive => ?_) hold.asked
    obtain ⟨e', hmem', heq⟩ := List.mem_map.1 hmem
    split at heq
    · rw [← heq] at hlive
      cases hlive
    · next hother =>
      subst heq
      have hgenuine := hold.entries e' hmem' hlive
      refine ⟨hgenuine.argument, hgenuine.code, hgenuine.bound.imp_right fun hdropped => ?_, hgenuine.source⟩
      exact (List.mem_cons.1 hdropped).resolve_left fun hsame => hother (beq_iff_eq.2 hsame)
  | take p =>
    refine ⟨hold.exclusive, hold.entries, hold.asked, ?_, by rintro _ _ ⟨⟩, by rintro ⟨⟩⟩
    rintro _ ⟨⟩ role r hr hreceives
    exact List.mem_append_right _ (mem_hearings hr hreceives)
  | @deliver _ p role hreceives =>
    refine hold.change rfl rfl ⟨m.packet.data, rfl⟩ (fun _ _ => Nat.le_refl _) fun e hmem hlive => ?_
    obtain ⟨e', hmem', heq⟩ := List.mem_map.1 hmem
    cases hupdate : e'.update? role p m.host.now with
    | none =>
      rw [hupdate, Option.getD_none] at heq
      exact hold.entries e (heq ▸ hmem') hlive
    | some new =>
      rw [hupdate, Option.getD_some] at heq
      subst heq
      have hgenuine := hold.entries e' hmem' (CachedRegister.isDead_of_update? hupdate)
      obtain ⟨hrole, hcode, hreport, hnew⟩ :=
        CachedRegister.eq_of_update? hgenuine.argument hupdate
      obtain ⟨r, hr, hreceived⟩ := (Option.any_eq_true _ _).1 hreceives
      subst hrole
      rw [hnew]
      refine ⟨hgenuine.argument, hgenuine.code, hgenuine.bound, .inl ⟨p, ?_, hreport, hcode.symm, rfl, ?_⟩⟩
      · exact hold.heard p rfl e'.role r hr hreceived
      · intro r' b hr' hb
        rw [hr, Option.some.injEq] at hr'
        exact Role.binding_of_receives (hr' ▸ hreceived) (hcode ▸ hgenuine.code) hb
  | beginTimer hpass =>
    refine ⟨hold.exclusive, hold.entries, hold.asked, hold.heard, by rintro _ _ ⟨⟩, ?_⟩
    intro _ role r hr hreceives hcode
    change CommandCode.asksRegister 0 = true at hcode
    cases hcode
  | beginObservers role hpass hcarries =>
    refine ⟨hold.exclusive, hold.entries, hold.asked, hold.heard, ?_, by rintro ⟨⟩⟩
    rintro _ _ ⟨⟩
    exact hcarries
  | endPass => exact ⟨hold.exclusive, hold.entries, hold.asked, hold.heard, by rintro _ _ ⟨⟩, by rintro ⟨⟩⟩
  | enter hpass => exact hold.enter hpass
  | @resume _ _ pass index hpass =>
    have htries := Stepping.resume_tries index (pass.enter m)
    cases hresult : Stepping.resume index (pass.enter m) with
    | ok goesOn m' =>
      rw [hresult] at htries
      exact (h.tries hpass htries).append
    | error fault m' =>
      rw [hresult] at htries
      exact ((h.enter hpass).quiet htries).append
  | step index hpass => exact h.step index
  | finish index hpass => exact hold.quiet (Stepping.finish_quiet index m).stateAfter

theorem leads {s' : Phase} (h : m.Told log s) (hleads : Leads s m notes s' m') : m'.Told (log ++ notes) s' := by
  induction hleads with
  | refl => rwa [List.append_nil]
  | move _ hmove ih =>
    rw [← List.append_assoc]
    exact ih.moves hmove

end Machine.Told

namespace Machine

variable {bytes : Bytes} {host : Host} {config : Config} {random : Random} {m m' : Machine}

theorem told_of_new (hnew : Machine.new bytes host config random = .ok m) : m.Told [] {} := by
  obtain ⟨image, -, -, rfl⟩ := Machine.eq_of_new hnew
  exact .idle (Roles.exclusive_map (fun _ => rfl) _) (by rintro _ ⟨⟩) (by rintro _ _ ⟨⟩)

theorem told_of_leads (hnew : Machine.new bytes host config random = .ok m) {log : List Note} {s : Phase}
    (hleads : Leads {} m log s m') : m'.Told log s :=
  (told_of_new hnew).leads hleads

theorem exists_entry_of_reads {index role validity : Nat} {code : CommandCode}
    (hreads : m.reads? index = some (role, code, validity))
    (hstep : Stepping.step index m = .ok .next m') :
    ∃ e ∈ m.cache.entries, e.isDead = false ∧ e.role = role ∧ e.code = code ∧
      e.value = m'.packet.data ∧ m.host.now - e.lastRefresh ≤ validity := by
  have hdoes := Stepping.step_does index m
  rw [hstep] at hdoes
  cases hdoes with
  | quiet _ hnone | write _ hnone =>
    rw [hreads] at hnone
    cases hnone
  | hit hsame _ _ _ _ hlookup hpacket =>
    rw [hreads] at hsame
    cases hsame
    obtain ⟨e, hmem, hlive, hrole, hcode, -, hvalue, -, hage⟩ :=
      RegisterCache.mem_of_lookup_eq_some hlookup
    refine ⟨e, hmem, hlive, hrole, hcode, ?_, hage⟩
    rw [hpacket]
    exact hvalue

/-- A read that had to wait goes on with the packet at hand, which is a report of its register as far as its
header tells. -/
theorem exists_packet_of_asks {log : List Note} {s : Phase} {pass : Pass} (h : m.Told log s)
    (hpass : s.pass = some pass) {index role resend : Nat} {code : CommandCode} {f : Fiber}
    (hfiber : m.fibers[index]? = some f) (hrequest : f.request = some (.query role code resend))
    (hresume : Stepping.resume index (pass.enter m) = .ok true m') :
    (pass.enter m).packet.isReport = true ∧ (pass.enter m).packet.code = code ∧
      (.heard m.host.now role (pass.enter m).packet ∈ log ∨ .cached m.host.now role code ∈ log) := by
  have htries := Stepping.resume_tries index (pass.enter m)
  rw [hresume] at htries
  have hfiber' : (pass.enter m).fibers[index]? = some f := by
    cases pass <;> exact hfiber
  cases htries with
  | quiet _ hquery => exact (hquery rfl f role code resend hfiber' hrequest).elim
  | @answer _ f' role' resend' code' r hf' hrequest' hrole hreceives hreport hcode _ _ hasking =>
    rw [hfiber', Option.some.injEq] at hf'
    rw [← hf', hrequest] at hrequest'
    cases hrequest'
    refine ⟨hreport, hcode, ?_⟩
    have hasks : CommandCode.asksRegister (pass.enter m).packet.code = true := by
      rw [hcode]
      exact (h.enter hpass).asked role code (Nat.lt_of_le_of_lt (Nat.zero_le _) hasking)
    cases pass with
    | timer =>
      right
      rw [← hcode]
      exact h.packet hpass role r hrole hreceives hasks
    | observers role' p =>
      left
      have hdelivered := Phase.delivered_of_carries (h.carries role' p hpass) hasks
      exact h.heard p hdelivered role r hrole hreceives

/-- What cached values are, at every moment of every run of a machine. Every run is made of moves in which
nothing is heard that was not delivered. A live entry holds the payload of a report that came in at its own
time, unless a read of the same register was answered from the cache at that time. A read that is answered
at once gets the value of a live entry that is no older than it allows. A read that had to wait gets the
payload of the packet at hand, which came in at this time unless a read of the same register was answered
from the cache at this time. -/
theorem cached_values_are_reports_or_leftovers (hnew : Machine.new bytes host config random = .ok m) :
    (∀ record m', m.Recorded record m' → ∃ log, Leads {} m log {} m' ∧
      ∀ time role p, .heard time role p ∈ log → (time, p) ∈ record) ∧
    ∀ log s m', Leads {} m log s m' → (∀ e ∈ m'.cache.entries, e.isDead = false →
        Reported log m'.roles e ∨ .cached e.lastRefresh e.role e.code ∈ log) ∧
      (∀ index role code validity m'', m'.reads? index = some (role, code, validity) →
        Stepping.step index m' = .ok .next m'' →
          ∃ e ∈ m'.cache.entries, e.isDead = false ∧ e.role = role ∧ e.code = code ∧
            e.value = m''.packet.data ∧ m'.host.now - e.lastRefresh ≤ validity) ∧
      ∀ pass index f role code resend m'', s.pass = some pass → m'.fibers[index]? = some f →
        f.request = some (.query role code resend) → Stepping.resume index (pass.enter m') = .ok true m'' →
            (pass.enter m').packet.isReport = true ∧ (pass.enter m').packet.code = code ∧
              (.heard m'.host.now role (pass.enter m').packet ∈ log ∨ .cached m'.host.now role code ∈ log) := by
  refine ⟨fun record m' hrecorded => hrecorded.goes, fun log s m' hleads => ?_⟩
  have htold := told_of_leads hnew hleads
  refine ⟨fun e hmem hlive => (htold.entries e hmem hlive).source, ?_, ?_⟩
  · intro index role code validity m'' hreads hstep
    exact exists_entry_of_reads hreads hstep
  · intro pass index f role code resend m'' hpass hfiber hrequest hresume
    exact exists_packet_of_asks htold hpass hfiber hrequest hresume

end Machine

/-- The last read is answered by the packet buffer, which the script itself had filled for the write, and the
cache keeps that as a report of this time. The only report came 300 milliseconds before. -/
theorem packet_buffer_cached_as_report : ∃ compiled m m', compile Catalog.builtin {} rereadingScript = .ok compiled ∧
      Machine.new compiled.image servoHost {} (.ofSeed 1) = .ok m ∧
      m.Recorded [(0, angleReport 5)] m' ∧ m'.fibers.length = 0 ∧
      ∃ e ∈ m'.cache.entries, e.isDead = false ∧ e.lastRefresh = 300 := by
  have hplays : playsTo rereadingScript servoHost oneReport (fun record m =>
      record = [(0, angleReport 5)] ∧ m.fibers.length = 0 ∧
        ∃ e ∈ m.cache.entries, e.isDead = false ∧ e.lastRefresh = 300) = true := by
    decide +kernel
  obtain ⟨compiled, m, record, m', hcompile, hnew, hrecorded, hcheck⟩ := exists_of_playsTo hplays
  obtain ⟨rfl, hrest⟩ := of_decide_eq_true hcheck
  exact ⟨compiled, m, m', hcompile, hnew, hrecorded, hrest⟩

theorem cached_values_are_reports_or_leftovers_rereading :
    ∃ compiled m m' log e, compile Catalog.builtin {} rereadingScript = .ok compiled ∧
      Machine.new compiled.image servoHost {} (.ofSeed 1) = .ok m ∧ Machine.Leads {} m log {} m' ∧
      e ∈ m'.cache.entries ∧ e.isDead = false ∧ e.lastRefresh = 0 ∧ e.value = #[0, 0, 5, 0] ∧
      (Reported log m'.roles e ∨ .cached e.lastRefresh e.role e.code ∈ log) := by
  have hplays : playsTo rereadingScript servoHost (oneReport.take 3) (fun _ m =>
      ∃ e ∈ m.cache.entries, e.isDead = false ∧ e.lastRefresh = 0 ∧ e.value = #[0, 0, 5, 0]) = true := by
    decide +kernel
  obtain ⟨compiled, m, record, m', hcompile, hnew, hrecorded, hcheck⟩ := exists_of_playsTo hplays
  obtain ⟨e, hmem, hlive, htime, hvalue⟩ := of_decide_eq_true hcheck
  obtain ⟨hmoves, hknown⟩ := Machine.cached_values_are_reports_or_leftovers hnew
  obtain ⟨log, hleads, -⟩ := hmoves record m' hrecorded
  obtain ⟨hsources, -⟩ := hknown log {} m' hleads
  exact ⟨compiled, m, m', log, e, hcompile, hnew, hleads, hmem, hlive, htime, hvalue, hsources e hmem hlive⟩

end BusScript
