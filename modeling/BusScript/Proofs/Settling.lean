import BusScript.Proofs.Deadlines
import BusScript.Proofs.RegisterWrites

/-!
How a machine settles at one time. As long as no word sends a command or starts a fiber, every fiber that comes up in
a pass over the fibers that are due takes something away: it is no longer due, or a cached value that is too old goes,
or the packet at hand becomes a cached value. The rest of what a fiber can do at this time never adds to that.
-/

namespace BusScript

/-- What is asked for again is asked for later, and so does a fiber go on later that has uploaded something. -/
structure Config.Patient (c : Config) : Prop where
  resendInitial : 0 < c.resendInitial
  resendMax : 0 < c.resendMax
  backoffMin : 0 < c.backoffMin
  /-- Times have 64 bits. -/
  backoffMax : c.backoffMax < Random.modulus

theorem Random.le_between (r : Random) {low high : Nat} (hlow : 0 < low) (hhigh : high < modulus) :
    low ≤ (r.between low high).1 := by
  have hmodulus : 1 < modulus := by decide
  have hrange : ¬ modulus ≤ high - low + 1 := by omega
  unfold between
  extract_lets range zone
  rw [if_neg hrange]
  -- with the outcome of the tries left open, so that none is worked out
  generalize draw _ _ _ _ = drawn
  cases drawn
  exact Nat.le_add_right ..

/-- A register is asked for by a get code, and asked for again later. -/
def Request.Proper : Request → Prop
  | .send .. => True
  | .query _ code resend => CommandCode.asksRegister code = true ∧ 0 < resend

namespace RegisterCache

variable {c c' : RegisterCache} {role now validity : Nat} {code : CommandCode}

def old (c : RegisterCache) (now : Nat) : Nat :=
  c.entries.countP fun e => isLive e && decide (e.lastRefresh < now)

theorem asksLive_old (now : Nat) : CachedRegister.AsksLive fun e => isLive e && decide (e.lastRefresh < now) :=
  ⟨fun _ _ => rfl, fun _ => rfl⟩

theorem Shrinks.old_le (h : c.Shrinks c') (now : Nat) : c'.old now ≤ c.old now := h _ (asksLive_old now)

theorem old_add_le (r : CachedRegister) (hnow : r.lastRefresh = now) : (c.add r).old now ≤ c.old now := by
  refine Nat.le_trans (countP_add_le (asksLive_old now) r) ?_
  rw [hnow, decide_eq_false (Nat.lt_irrefl now), Bool.and_false]
  exact Nat.le_refl _

theorem liveFor_add_pos (r : CachedRegister) (hlive : r.isDead = false) : 0 < (c.add r).liveFor r.role r.code := by
  rw [add]
  generalize (if c.capacity ≤ c.entries.length then c.evict else c) = room
  exact liveFor_pos_of_mem (e := { r with lastAccess := room.accesses })
    (List.mem_append_right _ (List.mem_singleton.2 rfl)) hlive

theorem liveFor_of_lookup_eq_some {hit : CachedRegister}
    (h : c.lookup role code none now validity = (some hit, c')) : 0 < c'.liveFor role code := by
  rw [lookup] at h
  split at h
  · cases h
  · next index hindex =>
    obtain ⟨hlt, hfor, -⟩ := List.findIdx?_eq_some_iff_getElem.1 hindex
    rw [List.getElem?_eq_getElem hlt] at h
    rw [isFor, isLive, Bool.and_eq_true, Bool.and_eq_true, Bool.and_eq_true, Bool.not_eq_true',
      beq_iff_eq, beq_iff_eq] at hfor
    obtain ⟨⟨⟨hlive, hrole⟩, hcode⟩, -⟩ := hfor
    simp only at h
    split at h
    · cases h
    · cases h
      rw [← hrole, ← hcode]
      refine liveFor_pos_of_mem (e := { c.entries[index] with lastAccess := c.accesses }) ?_ hlive
      refine List.mem_iff_getElem?.2 ⟨index, ?_⟩
      change (c.entries.modify index _)[index]? = _
      rw [List.getElem?_modify_eq, List.getElem?_eq_getElem hlt]
      rfl

/-- The values at hand were all asked for without an argument. -/
def Plain (c : RegisterCache) : Prop := ∀ e ∈ c.entries, e.isDead = false → e.argument = none

theorem cases_of_lookup_eq_none (hargument : c.Plain)
    (h : c.lookup role code none now validity = (none, c')) :
    c' = c ∧ c.liveFor role code = 0 ∨ c'.old now < c.old now := by
  rw [lookup] at h
  split at h
  · next hindex =>
    cases h
    exact .inl ⟨rfl, liveFor_eq_zero_of_findIdx? hargument hindex⟩
  · next index hindex =>
    obtain ⟨hlt, hfor, -⟩ := List.findIdx?_eq_some_iff_getElem.1 hindex
    rw [List.getElem?_eq_getElem hlt] at h
    rw [isFor, Bool.and_eq_true, Bool.and_eq_true, Bool.and_eq_true] at hfor
    simp only at h
    split at h
    · next hexpired =>
      cases h
      rw [CachedRegister.isExpired, decide_eq_true_iff] at hexpired
      refine .inr (countP_modify_lt (List.getElem?_eq_getElem hlt) ?_ rfl)
      rw [hfor.1.1.1, Bool.true_and, decide_eq_true_iff]
      omega
    · cases h

end RegisterCache

namespace Machine

/-- What holds of every machine whose program has not stopped. -/
structure Kempt (m : Machine) : Prop where
  patient : m.config.Patient
  exclusive : Roles.Exclusive m.roles
  entries : m.cache.Plain
  requests : ∀ st ∈ m.stances, ∀ request, st.request = some request → request.Proper

variable {m m' : Machine} {index : Nat}

def knows (m : Machine) (role : Nat) (code : CommandCode) : Bool :=
  m.roles[role]?.any (·.binding.isSome) && decide (0 < m.cache.liveFor role code)

/-- Whether the packet at hand reports a register whose value is not in the cache. -/
def stray (m : Machine) : Bool :=
  m.packet.isReport && m.roles.zipIdx.any fun (r, role) =>
    r.receives m.packet && m.cache.liveFor role m.packet.code == 0

/-- How often a fiber that is due can come up before something else has changed. One that asks for a register of which
no value is at hand comes up once; others run, and may then ask. -/
def weight (m : Machine) (st : Stance) : Nat :=
  if st.isDue m.host.now then
    match st.request with
    | some (.query role code _) => if m.knows role code then 3 else 2
    | _ => 3
  else 0

def ofRunner : Bool → Nat
  | true => 2
  | false => 0

def unrest (m : Machine) (running : Bool) : ℕ ×ₗ ℕ :=
  toLex (2 * m.cache.old m.host.now + m.stray.toNat, (m.stances.map m.weight).sum + ofRunner running)

theorem stray_iff :
    m.stray = true ↔ ∃ role, m.Concerns role m.packet.code m.packet ∧ m.cache.liveFor role m.packet.code = 0 := by
  simp only [stray, Bool.and_eq_true, List.any_eq_true, Prod.exists, List.mem_zipIdx_iff_getElem?, beq_iff_eq]
  constructor
  · rintro ⟨hreport, r, role, hr, hreceives, hzero⟩
    exact ⟨role, ⟨r, hr, hreceives, hreport, rfl⟩, hzero⟩
  · rintro ⟨role, ⟨r, hr, hreceives, hreport, -⟩, hzero⟩
    exact ⟨hreport, r, role, hr, hreceives, hzero⟩

theorem stray_eq_false (hexclusive : Roles.Exclusive m.roles) {role : Nat}
    (hcode : CommandCode.asksRegister m.packet.code = true) {r : Role} (hr : m.roles[role]? = some r)
    (hbinding : r.binding = some ⟨m.packet.device, m.packet.service⟩)
    (hlive : 0 < m.cache.liveFor role m.packet.code) : m.stray = false := by
  rw [← Bool.not_eq_true, stray_iff]
  rintro ⟨role', hconcerns, hzero⟩
  rw [← hconcerns.role_eq hexclusive hcode hr hbinding] at hzero
  omega

theorem stray_of_packet (hroles : m'.roles = m.roles) (hcache : m'.cache = m.cache)
    (hpacket : ∃ data, m'.packet = { m.packet with data }) : m'.stray = m.stray := by
  obtain ⟨data, hpacket⟩ := hpacket
  rw [stray, stray, hroles, hcache, hpacket]
  rfl

theorem knows_of_shrinks (hroles : m'.roles = m.roles) (hshrinks : m.cache.Shrinks m'.cache) {role : Nat}
    {code : CommandCode} (h : m'.knows role code = true) : m.knows role code = true := by
  rw [knows, Bool.and_eq_true, decide_eq_true_iff] at h ⊢
  exact ⟨hroles ▸ h.1, Nat.lt_of_lt_of_le h.2 (hshrinks.liveFor_le role code)⟩

theorem weight_le (hnow : m'.host.now = m.host.now)
    (hknows : ∀ role code, m'.knows role code = true → m.knows role code = true) (st : Stance) :
    m'.weight st ≤ m.weight st := by
  rw [weight, weight, hnow]
  split
  · split
    · next role code resend _ =>
      by_cases h : m'.knows role code = true
      · rw [if_pos h, if_pos (hknows role code h)]
      · rw [if_neg h]
        split <;> omega
    · exact Nat.le_refl _
  · exact Nat.le_refl _

theorem weight_eq_zero {st : Stance} (h : st.isDue m.host.now = false) : m.weight st = 0 := by
  rw [weight, h]
  rfl

theorem two_le_weight {st : Stance} (h : st.isDue m.host.now = true) : 2 ≤ m.weight st := by
  rw [weight, if_pos h]
  split
  · split <;> omega
  · omega

theorem unrest_le_of_shrinks (index : Nat) {k : Nat} {running running' : Bool} {g : Stance → Stance}
    (hstays : m.Stays m') (hshrinks : m.cache.Shrinks m'.cache) (hstray : m'.stray = true → m.stray = true)
    (hstances : m'.stances = m.stances.modify index g) (hg : ∀ st, m'.weight (g st) ≤ m.weight st + k)
    (hk : k + ofRunner running' ≤ ofRunner running) : m'.unrest running' ≤ m.unrest running := by
  have hold := hshrinks.old_le m.host.now
  have hstray : m'.stray.toNat ≤ m.stray.toNat := Bool.toNat_le_toNat hstray
  have hsum : ((m.stances.modify index g).map m'.weight).sum ≤ (m.stances.map m.weight).sum + k :=
    sum_modify_le (weight_le hstays.now fun _ _ => knows_of_shrinks hstays.roles hshrinks) hg
  rw [unrest, unrest, hstays.now, hstances, Prod.Lex.toLex_le_toLex']
  exact ⟨by simp only; omega, fun _ => by simp only; omega⟩

end Machine

namespace Stepping

open Machine

variable {m m' : Machine} {index : Nat}

theorem map_stance_of_reframes {fibers : List Fiber} {g h : Fiber → Fiber} {k : Stance → Stance}
    (hg : Fiber.Reframes h g) (hk : ∀ f, (h f).stance = k f.stance) :
    (fibers.modify index g).map Fiber.stance = (fibers.map Fiber.stance).modify index k :=
  map_stance_modify fun f _ => (stance_of_reframes hg f).trans (hk f)

variable {flow : Flow} {goesOn : Bool}

/-- A word that sends no command and starts no fiber. A fiber that asks for a register has weight again, but no more
than it had as the one that runs, unless an old value has gone. -/
theorem Did.unrest_le (h : Did index m flow m') (hkempt : m.Kempt)
    (hcall : m.startsFiber index = false) (hsend : ∀ p, m.nextAsync? index ≠ some (.sendCmd, p)) :
    m'.unrest (decide (flow ≠ .park)) ≤ m.unrest true := by
  have hstays := h.stays
  -- a fiber that sleeps is not due
  have hsleeps {time : Option Nat} (htime : time.any (· ≤ m.host.now) = false) (hnow : m'.host.now = m.host.now)
      (st : Stance) : m'.weight { st with wakeAt := time } ≤ m.weight st + 0 := by
    rw [weight_eq_zero (by rw [hnow]; exact htime)]
    exact Nat.zero_le _
  cases h with
  | computes _ _ hflow h =>
    rw [decide_eq_true hflow]
    refine unrest_le_of_shrinks index (g := id) (k := 0) hstays ?_ ?_ ?_ ?_ (Nat.le_refl _)
    · rw [h.cache]
      exact .refl _
    · rw [stray_of_packet h.roles h.cache h.packet]
      exact id
    · rw [h.stances, List.modify_id]
    · exact weight_le h.now fun _ _ => knows_of_shrinks h.roles (by rw [h.cache]; exact .refl _)
  | starts hstarts => rw [hcall] at hstarts; cases hstarts
  | @observes role g _ _ hg =>
    exact unrest_le_of_shrinks index (k := 0) (g := ({ · with observed := some role })) hstays (.refl _) id
      (map_stance_of_reframes hg fun _ => rfl) (fun _ => Nat.le_refl _) (Nat.le_refl _)
  | @pauses p g _ hg =>
    refine unrest_le_of_shrinks index (k := 0)
      (g := ({ · with wakeAt := if p.a = 0 then none else some (m.host.now + p.a) })) hstays (.refl _) id
      (map_stance_of_reframes hg fun _ => rfl) (hsleeps ?_ rfl) (Nat.zero_le _)
    split
    · rfl
    · rw [Option.any_some, decide_eq_false_iff_not]
      omega
  | uploads _ hg =>
    have hpause := m.random.le_between hkempt.patient.backoffMin hkempt.patient.backoffMax
    have hpos := hkempt.patient.backoffMin
    refine unrest_le_of_shrinks index (k := 0) (g := ({ · with wakeAt := some (m.host.now + _) })) hstays (.refl _) id
      (map_stance_of_reframes hg fun _ => rfl) (hsleeps ?_ rfl) (Nat.zero_le _)
    rw [Option.any_some, decide_eq_false_iff_not]
    omega
  | signals hasync | sends hasync => exact (hsend _ hasync).elim
  | @hits role validity code p r b entry cache g _ hreads hrole hbinding hcache hg =>
    have hshrinks := RegisterCache.shrinks_lookup (c := m.cache) role code none m.host.now validity
    rw [hcache] at hshrinks
    -- the packet at hand is now what the cache holds
    have hstray := stray_eq_false (m := { m with
        operands := {}
        cache
        packet := .report b.device b.service code entry.value
        fibers := m.fibers.modify index g }) hkempt.exclusive (Told.asksRegister_of_reads? hreads) hrole hbinding
      (RegisterCache.liveFor_of_lookup_eq_some hcache)
    refine unrest_le_of_shrinks index (g := id) (k := 0) hstays hshrinks ?_ ?_ ?_ (Nat.le_refl _)
    · rw [hstray]
      rintro ⟨⟩
    · exact map_stance_of_reframes hg fun _ => rfl
    · exact weight_le rfl fun _ _ => knows_of_shrinks hstays.roles hshrinks
  | @asks role validity code p r cache g _ hreads hrole hcache hg =>
    have hstances : (m.fibers.modify index g).map Fiber.stance = m.stances.modify index ({ · with
        observed := some role
        request := some (.query role code m.config.resendInitial)
        wakeAt := some m.host.now }) := map_stance_of_reframes hg fun _ => rfl
    -- if no value is at hand, the fiber weighs no more than when it ran
    have hunknown (hcache : cache = m.cache) (hknows : m.knows role code = false) :
        unrest { m with operands := {}, cache, fibers := m.fibers.modify index g } false ≤ m.unrest true := by
      subst hcache
      refine unrest_le_of_shrinks index (k := 2) hstays (.refl _) id hstances (fun st => ?_) (Nat.le_refl _)
      change (if decide (m.host.now ≤ m.host.now) = true then if m.knows role code then 3 else 2 else 0) ≤ _
      rw [hknows]
      split <;> simp
    cases hbinding : r.binding with
    | none =>
      rw [hbinding] at hcache
      refine hunknown hcache ?_
      rw [knows, hrole, Option.any_some, hbinding]
      rfl
    | some b =>
      rw [hbinding] at hcache
      rcases RegisterCache.cases_of_lookup_eq_none hkempt.entries hcache with ⟨hsame, hzero⟩ | hold
      · refine hunknown hsame ?_
        rw [knows, hzero]
        exact Bool.and_false _
      · refine (Prod.Lex.toLex_lt_toLex.2 (.inl ?_)).le
        have hstray := Bool.toNat_le (stray { m with operands := {}, cache, fibers := m.fibers.modify index g })
        simp only
        omega

theorem Resumed.unrest_lt (h : Resumed index m goesOn m') (hkempt : m.Kempt) {f : Fiber}
    (hfiber : m.fibers[index]? = some f) (hdue : f.isDue m.host.now = true) :
    m'.unrest goesOn < m.unrest false := by
  have hstays := h.stays
  have hst := getElem?_stances hfiber
  change f.stance.isDue m.host.now = true at hdue
  -- the fiber gets lighter, and nothing else changes
  have hlighter {k : Stance → Stance} (hshrinks : ∀ role code, m'.knows role code = true → m.knows role code = true)
      (hold : m'.cache.old m.host.now ≤ m.cache.old m.host.now) (hstray : m'.stray = true → m.stray = true)
      (hstances : m'.stances = m.stances.modify index k) (hnot : (k f.stance).isDue m.host.now = false)
      (hweight : ofRunner goesOn < m.weight f.stance) : m'.unrest goesOn < m.unrest false := by
    have hstray : m'.stray.toNat ≤ m.stray.toNat := Bool.toNat_le_toNat hstray
    have hsum := sum_modify (g := k) (weight_le hstays.now hshrinks) hst
    have hzero : m'.weight (k f.stance) = 0 := weight_eq_zero (by rwa [hstays.now])
    rw [unrest, unrest, hstays.now, hstances, Prod.Lex.toLex_lt_toLex']
    refine ⟨by simp only; omega, fun _ => ?_⟩
    change _ < (m.stances.map m.weight).sum + 0
    simp only
    omega
  have hthree (hquery : ∀ role code resend, f.request ≠ some (.query role code resend)) : m.weight f.stance = 3 := by
    rw [weight, if_pos hdue]
    split
    · next hrequest => exact (hquery _ _ _ hrequest).elim
    · rfl
  cases h with
  | @free f' g hfiber' hrequest hg =>
    rw [hfiber, Option.some.injEq] at hfiber'
    subst hfiber'
    refine hlighter (k := ({ · with wakeAt := none, observed := none })) (fun _ _ => id)
      (Nat.le_refl _) id (map_stance_of_reframes hg fun _ => rfl) rfl ?_
    rw [hthree (by rw [hrequest]; rintro _ _ _ ⟨⟩)]
    decide
  | unbound =>
    have hweight : 2 ≤ m.weight f.stance := two_le_weight hdue
    refine hlighter (k := ({ · with wakeAt := none })) (fun _ _ => id) (Nat.le_refl _) id
      (map_stance_of_reframes (reframes_self _) fun _ => rfl) rfl ?_
    simp only [ofRunner]
    omega
  | @sends f' role code payload r b host g hfiber' hrequest hrole hbinding hsend hg =>
    rw [hfiber, Option.some.injEq] at hfiber'
    subst hfiber'
    refine hlighter (k := ({ · with wakeAt := none, observed := none, request := none })) (fun _ _ => id)
      (Nat.le_refl _) id (map_stance_of_reframes hg fun _ => rfl) rfl ?_
    rw [hthree (by rw [hrequest]; rintro _ _ _ ⟨⟩)]
    decide
  | @answered f' role resend code r g hfiber' hrequest hrole hreceives hreport hcode hg =>
    rw [hfiber, Option.some.injEq] at hfiber'
    subst hfiber'
    obtain ⟨hasks, -⟩ := hkempt.requests _ (List.mem_of_getElem? hst) _ hrequest
    obtain ⟨b, hbinding, -⟩ := (Option.any_eq_true _ _).1 hreceives
    have hservice := Role.binding_of_receives hreceives (hcode ▸ hasks) hbinding
    have hold := RegisterCache.old_add_le (c := m.cache)
      { role, code, value := m.packet.data, lastRefresh := m.host.now } (show _ = m.host.now from rfl)
    have hlive := RegisterCache.liveFor_add_pos (c := m.cache)
      { role, code, value := m.packet.data, lastRefresh := m.host.now } rfl
    subst hcode
    -- the packet has become a value
    have hstray := stray_eq_false (m := { m with
        cache := m.cache.add { role, code := m.packet.code, value := m.packet.data, lastRefresh := m.host.now }
        registers := f.frame.restoredRegs m.registers
        fibers := m.fibers.modify index g }) hkempt.exclusive hasks hrole (hservice ▸ hbinding) hlive
    rcases Nat.eq_zero_or_pos (m.cache.liveFor role m.packet.code) with hzero | hpos
    · have hstray' : m.stray = true := stray_iff.2 ⟨role, ⟨r, hrole, hreceives, hreport, rfl⟩, hzero⟩
      refine Prod.Lex.toLex_lt_toLex.2 (.inl ?_)
      simp only [hstray, hstray', Bool.toNat_true, Bool.toNat_false]
      omega
    · have hknown : m.knows role m.packet.code = true := by
        rw [knows, hrole, Option.any_some, hbinding, decide_eq_true hpos]
        rfl
      refine hlighter (fun role' code' hknows => ?_) hold (by rw [hstray]; rintro ⟨⟩)
        (k := ({ · with wakeAt := none, observed := none, request := none }))
        (map_stance_of_reframes hg fun _ => rfl) rfl ?_
      · by_cases hsame : role = role' ∧ m.packet.code = code'
        · rw [← hsame.1, ← hsame.2]
          exact hknown
        · have hle := RegisterCache.liveFor_add_le (c := m.cache)
            { role, code := m.packet.code, value := m.packet.data, lastRefresh := m.host.now } role' code'
          rw [if_neg hsame] at hle
          rw [knows, Bool.and_eq_true, decide_eq_true_iff] at hknows ⊢
          exact ⟨hknows.1, Nat.lt_of_lt_of_le hknows.2 hle⟩
      · have hweight : m.weight f.stance = 3 := by
          rw [weight, if_pos hdue, show f.stance.request = _ from hrequest]
          exact if_pos hknown
        rw [hweight]
        decide
  | @asks f' role resend code r b host hfiber' hrequest hrole hbinding hdue' hsend =>
    rw [hfiber, Option.some.injEq] at hfiber'
    subst hfiber'
    obtain ⟨-, hresend⟩ := hkempt.requests _ (List.mem_of_getElem? hst) _ hrequest
    have hweight : 2 ≤ m.weight f.stance := two_le_weight hdue
    refine hlighter (fun _ _ => id) (Nat.le_refl _) id (map_stance_of_reframes (reframes_self _) fun _ => rfl)
      (k := ({ · with
        request := some (.query role code (min (2 * resend) m.config.resendMax))
        wakeAt := some (m.host.now + resend) })) ?_ ?_
    · simp only [Stance.isDue, Option.any_some, decide_eq_false_iff_not]
      omega
    · simp only [ofRunner]
      omega
  | @waits f' role resend code r b hfiber' hrequest hrole hbinding hdue' =>
    rw [hfiber, Option.some.injEq] at hfiber'
    subst hfiber'
    change f.wakeAt.any (· ≤ m.host.now) = true at hdue
    cases hwakeAt : f.wakeAt with
    | none => rw [hwakeAt] at hdue; cases hdue
    | some time =>
      rw [hwakeAt] at hdue hdue'
      rw [Option.any_some] at hdue
      rw [Option.all_some, hdue] at hdue'
      cases hdue'

theorem Finished.unrest_le (h : Finished index m goesOn m') : m'.unrest goesOn ≤ m.unrest true := by
  have hstays := h.stays
  cases h with
  | again =>
    refine unrest_le_of_shrinks index (k := 0) (g := id) hstays (.refl _) id ?_ (fun _ => Nat.le_refl _) (Nat.le_refl _)
    exact map_stance_modify fun _ _ => rfl
  | gone =>
    have hsum := sum_eraseIdx_le m.stances m.weight index
    rw [Machine.stances, List.eraseIdx_map] at hsum
    refine Prod.Lex.toLex_le_toLex'.2 ⟨Nat.le_refl _, fun _ => ?_⟩
    exact Nat.le_trans (Nat.add_le_add_right hsum _) (Nat.add_le_add_left (Nat.zero_le _) _)

theorem Did.plain (h : Did index m flow m') (hm : m.cache.Plain) : m'.cache.Plain :=
  (shrinks_of_does h.does).forall_live (fun _ _ => Iff.rfl) hm

theorem Resumed.plain (h : Resumed index m goesOn m') (hm : m.cache.Plain) : m'.cache.Plain := by
  cases h with
  | answered => exact RegisterCache.forall_live_add (fun _ _ => Iff.rfl) hm rfl
  | _ => exact hm

end Stepping

namespace Moment

open Machine

variable {a b : Moment} {tasks : List Task}

theorem Plans.exclusive {m m' : Machine} {tasks' : List Task} {stage stage' : Stage}
    (h : Plans m tasks stage m' tasks' stage') (hm : Roles.Exclusive m.roles) : Roles.Exclusive m'.roles := by
  cases h with
  | bind => exact hm.autobind _
  | drop => exact hm.unbind _
  | _ => exact hm

theorem Plans.plain {m m' : Machine} {tasks' : List Task} {stage stage' : Stage}
    (h : Plans m tasks stage m' tasks' stage') (hm : m.cache.Plain) : m'.cache.Plain := by
  cases h with
  | dropped => exact (RegisterCache.shrinks_detach _).forall_live (fun _ _ => Iff.rfl) hm
  | @deliver p index _ _ _ _ =>
    intro e hmem hlive
    obtain ⟨e', hmem', heq⟩ := List.mem_map.1 hmem
    cases hupdate : e'.update? index p m.host.now with
    | none =>
      rw [hupdate, Option.getD_none] at heq
      exact hm e (heq ▸ hmem') hlive
    | some new =>
      rw [hupdate, Option.getD_some] at heq
      subst heq
      have hargument := hm e' hmem' (CachedRegister.isDead_of_update? hupdate)
      rw [(CachedRegister.eq_of_update? hargument hupdate).2.2.2]
      exact hargument
  | _ => exact hm

theorem Steps.exclusive (h : a.Steps b) (ha : Roles.Exclusive a.machine.roles) :
    b.HasFailed ∨ Roles.Exclusive b.machine.roles := by
  cases h.outlines with
  | acts habides => exact .inr (habides.roles ▸ ha)
  | plans _ hplans => exact .inr (hplans.exclusive ha)
  | fails => exact .inl ⟨_, rfl⟩

theorem Steps.plain (h : a.Steps b) (ha : a.machine.cache.Plain) : b.HasFailed ∨ b.machine.cache.Plain := by
  have henter (pass : Pass) : (pass.enter a.machine).cache.Plain := by cases pass <;> exact ha
  have hleave (pass : Pass) {m : Machine} (hm : m.cache.Plain) : (pass.leave m).cache.Plain := by
    cases pass <;> exact hm
  cases h with
  | word _ _ hdid => exact .inr (hdid.plain ha)
  | repeats _ _ hdid hfinished =>
    cases hfinished
    exact .inr (hdid.plain ha)
  | parks _ _ hdid => exact .inr (hleave _ (hdid.plain ha))
  | ends _ _ hdid hfinished =>
    cases hfinished
    exact .inr (hleave _ (hdid.plain ha))
  | overruns => exact .inr (hleave _ ha)
  | goesOn _ hresumed => exact .inr (hresumed.plain (henter _))
  | stays _ hresumed => exact .inr (hleave _ (hresumed.plain (henter _)))
  | starts _ _ hstarted => cases hstarted <;> exact .inr ha
  | plans _ hplans => exact .inr (hplans.plain ha)
  | fails => exact .inl ⟨_, rfl⟩

theorem Gives.proper {st : Stance} (h : a.Gives st) (ha : a.machine.Kempt) {request : Request}
    (hrequest : st.request = some request) : request.Proper := by
  cases h with
  | fresh | goesOn => cases hrequest
  | keeps hst | observes hst | pauses hst | uploads hst | waits hst => exact ha.requests _ hst request hrequest
  | sends =>
    cases hrequest
    trivial
  | asks _ hreads =>
    cases hrequest
    exact ⟨Told.asksRegister_of_reads? hreads, ha.patient.resendInitial⟩
  | repeats hst hquery =>
    cases hrequest
    obtain ⟨hcode, hresend⟩ := ha.requests _ hst _ hquery
    exact ⟨hcode, Nat.lt_min.2 ⟨by omega, ha.patient.resendMax⟩⟩

theorem Steps.kempt (h : a.Steps b) (ha : a.machine.Kempt) : b.HasFailed ∨ b.machine.Kempt := by
  by_cases hfailed : b.HasFailed
  · exact .inl hfailed
  · exact .inr ⟨h.config ▸ ha.patient, (h.exclusive ha.exclusive).resolve_left hfailed,
      (h.plain ha.entries).resolve_left hfailed,
      fun st hst _ => (h.gives.resolve_left hfailed st hst).proper ha⟩

section

variable {m : Machine} {bytes : Bytes} {host : Host} {config : Config} {random : Random}

theorem Reached.kempt (hnew : Machine.new bytes host config random = .ok m) (hpatient : config.Patient)
    (h : Reached m a) : a.machine.panic = none → a.machine.Kempt := by
  refine h.holds hnew ?_ (fun _ _ => Steps.kempt) (fun m' host overrun hkempt => ?_) fun m' hreached => ?_
  · obtain ⟨image, -, -, rfl⟩ := Machine.eq_of_new hnew
    exact ⟨hpatient, Roles.exclusive_map (fun _ => rfl) _, by rintro _ ⟨⟩, by rintro _ ⟨⟩⟩
  · exact ⟨hkempt.patient, hkempt.exclusive, hkempt.entries, hkempt.requests⟩
  · rw [← hreached.config_eq hnew] at hpatient
    exact ⟨hpatient, Roles.exclusive_map (fun _ => rfl) _, by rintro _ ⟨⟩, by rintro _ ⟨⟩⟩

end

/-! ### A pass over the fibers that are due -/

/-- A word is run that sends a command or starts a fiber. -/
def rouses (a : Moment) : Bool :=
  a.turn.any fun turn => turn.left != 0 &&
    (a.machine.startsFiber turn.index || (a.machine.nextAsync? turn.index).any (·.1 == .sendCmd))

def Resumes (a : Moment) : Prop := ∃ pass index tasks, a.Wakes pass index tasks

structure Timed (a : Moment) : Prop where
  stage : a.stage = .due
  tasks : ∀ task ∈ a.tasks, ∃ ids, task = .runDue a.machine.host.now ids
  pass : ∀ turn, a.turn = some turn → turn.pass = .timer

def unrest (a : Moment) : ℕ ×ₗ ℕ := a.machine.unrest a.turn.isSome

theorem calm_of_turn {turn : Turn} (hcalm : a.rouses = false) (hturn : a.turn = some turn) (hleft : turn.left ≠ 0) :
    a.machine.startsFiber turn.index = false ∧ ∀ p, a.machine.nextAsync? turn.index ≠ some (.sendCmd, p) := by
  rw [rouses, hturn, Option.any_some, bne_iff_ne.2 hleft, Bool.true_and, Bool.or_eq_false_iff] at hcalm
  refine ⟨hcalm.1, fun p hasync => ?_⟩
  rw [hasync] at hcalm
  cases hcalm.2

theorem Plans.not_wakes {m' : Machine} {stage : Stage}
    (h : Plans a.machine a.tasks a.stage m' tasks stage) : ¬ a.Resumes := by
  rintro ⟨pass, index, tasks', hwakes⟩
  obtain ⟨m, turn, open_, stage⟩ := a
  cases hwakes with
  | due _ htasks hindex hfiber hdue =>
    cases htasks
    cases h with
    | skipDue hskip =>
      rw [hskip _ _ hindex hfiber] at hdue
      cases hdue
  | observer _ htasks hindex hfiber hobserved =>
    cases htasks
    cases h with
    | skipObserver hskip => exact hskip _ _ hindex hfiber hobserved

theorem Wakes.of_timed {pass : Pass} {index : Nat} (h : a.Wakes pass index tasks) (ha : a.Timed) :
    pass = .timer ∧ (∀ task ∈ tasks, ∃ ids, task = .runDue a.machine.host.now ids) ∧
      ∃ f, a.machine.fibers[index]? = some f ∧ f.isDue a.machine.host.now = true := by
  cases h with
  | observer _ htasks =>
    obtain ⟨ids, htask⟩ := ha.tasks _ (htasks ▸ List.mem_cons_self)
    cases htask
  | due _ htasks hindex hfiber hdue =>
    obtain ⟨ids, htask⟩ := ha.tasks _ (htasks ▸ List.mem_cons_self)
    cases htask
    refine ⟨rfl, fun task hmem => ?_, _, hfiber, hdue⟩
    rcases List.mem_cons.1 hmem with rfl | hmem
    · exact ⟨_, rfl⟩
    · exact ha.tasks task (htasks ▸ List.mem_cons_of_mem _ hmem)

/-- What becomes of a pass over the fibers that are due in which no word sends a command or starts a fiber: it goes on
with no more to do, and with less after a fiber has come up, until nothing is due. -/
theorem Steps.settles (h : a.Steps b) (ha : a.Timed) (hkempt : a.machine.Kempt) (hcalm : a.rouses = false) :
    b.HasFailed ∨ b.turn = none ∧ b.tasks = [] ∧ b.machine = a.machine ∧
        (b.stage = .done ∨ b.stage = .signals ∧ a.machine.signals ≠ []) ∨
      b.Timed ∧ b.unrest ≤ a.unrest ∧ (a.Resumes → b.unrest < a.unrest) := by
  -- after a word, whether the fiber runs on or not
  have hword {turn : Turn} {turn' : Option Turn} (m' : Machine) (hturn : a.turn = some turn)
      (hpass : ∀ t, turn' = some t → t.pass = turn.pass) (hnow : m'.host.now = a.machine.host.now)
      (hle : m'.unrest turn'.isSome ≤ a.machine.unrest true) :
      let b : Moment := ⟨m', turn', a.tasks, a.stage⟩
      b.Timed ∧ b.unrest ≤ a.unrest ∧ (a.Resumes → b.unrest < a.unrest) := by
    refine ⟨⟨ha.stage, ?_, fun t ht => (hpass t ht).trans (ha.pass turn hturn)⟩, ?_, ?_⟩
    · rw [hnow]
      exact ha.tasks
    · rw [unrest, unrest, hturn]
      exact hle
    · rintro ⟨_, _, _, hwakes⟩
      rw [hwakes.turn] at hturn
      cases hturn
  cases h with
  | word hturn hleft hdid =>
    obtain ⟨hcall, hsend⟩ := calm_of_turn hcalm hturn (by omega)
    exact .inr (.inr (hword _ hturn (by rintro _ ⟨⟩; rfl) hdid.stays.now (hdid.unrest_le hkempt hcall hsend)))
  | @parks turn left m' hturn hleft hdid =>
    obtain ⟨hcall, hsend⟩ := calm_of_turn hcalm hturn (by omega)
    rw [ha.pass turn hturn]
    exact .inr (.inr (hword m'.betweenFibers hturn (by rintro _ ⟨⟩) hdid.stays.now (hdid.unrest_le hkempt hcall hsend)))
  | repeats hturn hleft hdid hfinished =>
    obtain ⟨hcall, hsend⟩ := calm_of_turn hcalm hturn (by omega)
    exact .inr (.inr (hword _ hturn (by rintro _ ⟨⟩; rfl) (hdid.stays.trans hfinished.stays).now
      (hfinished.unrest_le.trans (hdid.unrest_le hkempt hcall hsend))))
  | @ends turn left m' m'' hturn hleft hdid hfinished =>
    obtain ⟨hcall, hsend⟩ := calm_of_turn hcalm hturn (by omega)
    rw [ha.pass turn hturn]
    exact .inr (.inr (hword m''.betweenFibers hturn (by rintro _ ⟨⟩) (hdid.stays.trans hfinished.stays).now
      (hfinished.unrest_le.trans (hdid.unrest_le hkempt hcall hsend))))
  | @overruns turn f hturn hleft =>
    have hgone : Stepping.Finished turn.index a.machine false _ := .gone
    rw [ha.pass turn hturn]
    exact .inr (.inr (hword _ hturn (by rintro _ ⟨⟩) rfl hgone.unrest_le))
  | @goesOn pass index budget tasks m' hwakes hresumed hbudget =>
    obtain ⟨rfl, htasks, f, hfiber, hdue⟩ := hwakes.of_timed ha
    have hlt : m'.unrest true < a.unrest := by
      rw [unrest, hwakes.turn]
      exact hresumed.unrest_lt hkempt hfiber hdue
    refine .inr (.inr ⟨⟨ha.stage, ?_, by rintro _ ⟨⟩; rfl⟩, hlt.le, fun _ => hlt⟩)
    rw [hresumed.stays.now]
    exact htasks
  | @stays pass index tasks m' hwakes hresumed =>
    obtain ⟨rfl, htasks, f, hfiber, hdue⟩ := hwakes.of_timed ha
    have hlt : m'.unrest false < a.unrest := by
      rw [unrest, hwakes.turn]
      exact hresumed.unrest_lt hkempt hfiber hdue
    refine .inr (.inr ⟨⟨ha.stage, ?_, by rintro _ ⟨⟩⟩, hlt.le, fun _ => hlt⟩)
    change ∀ task ∈ tasks, ∃ ids, task = .runDue m'.host.now ids
    rw [hresumed.stays.now]
    exact htasks
  | starts _ htasks =>
    obtain ⟨ids, htask⟩ := ha.tasks _ (htasks ▸ List.mem_cons_self)
    cases htask
  | @plans m' tasks stage hturn hplans =>
    have hnot := hplans.not_wakes
    obtain ⟨m, turn, tasks', stage'⟩ := a
    cases hturn
    cases ha.stage
    cases hplans with
    | skipDue =>
      obtain ⟨ids, htask⟩ := ha.tasks _ List.mem_cons_self
      obtain ⟨hnow, -⟩ := Task.runDue.inj htask
      refine .inr (.inr ⟨⟨rfl, fun task hmem => ?_, by rintro _ ⟨⟩⟩, le_refl _, fun h => (hnot h).elim⟩)
      rcases List.mem_cons.1 hmem with rfl | hmem
      · exact ⟨_, by rw [hnow]⟩
      · exact ha.tasks task (List.mem_cons_of_mem _ hmem)
    | dueEnd =>
      exact .inr (.inr ⟨⟨rfl, fun task hmem => ha.tasks task (List.mem_cons_of_mem _ hmem), by rintro _ ⟨⟩⟩,
        le_refl _, fun h => (hnot h).elim⟩)
    | scan =>
      refine .inr (.inr ⟨⟨rfl, fun task hmem => ?_, by rintro _ ⟨⟩⟩, le_refl _, fun h => (hnot h).elim⟩)
      exact ⟨_, List.mem_singleton.1 hmem⟩
    | again _ hsignals => exact .inr (.inl ⟨rfl, rfl, rfl, .inr ⟨rfl, hsignals⟩⟩)
    | settled => exact .inr (.inl ⟨rfl, rfl, rfl, .inl rfl⟩)
    | _ =>
      -- no other task is open
      obtain ⟨ids, htask⟩ := ha.tasks _ List.mem_cons_self
      cases htask
  | fails => exact .inl ⟨_, rfl⟩

end Moment

end BusScript
