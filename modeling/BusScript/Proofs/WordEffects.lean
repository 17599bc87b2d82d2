import BusScript.Proofs.Words

namespace BusScript

namespace Machine

/-- The cache, the bindings, the time and the settings stay, the packet at hand keeps its header, and no fiber
asks for more than before. -/
structure Quiet (m m' : Machine) : Prop where
  cache : m'.cache = m.cache
  roles : m'.roles = m.roles
  now : m'.host.now = m.host.now
  config : m'.config = m.config
  packet : ∃ data, m'.packet = { m.packet with data }
  asking : ∀ role code, m'.asking role code ≤ m.asking role code

namespace Quiet

variable {m m' m'' : Machine}

theorem refl (m : Machine) : m.Quiet m :=
  ⟨rfl, rfl, rfl, rfl, ⟨m.packet.data, rfl⟩, fun _ _ => Nat.le_refl _⟩

theorem trans (h : m.Quiet m') (h' : m'.Quiet m'') : m.Quiet m'' := by
  obtain ⟨data, hdata⟩ := h.packet
  obtain ⟨data', hdata'⟩ := h'.packet
  refine ⟨h'.cache.trans h.cache, h'.roles.trans h.roles, h'.now.trans h.now, h'.config.trans h.config, ⟨data', ?_⟩, ?_⟩
  · rw [hdata', hdata]
  · intro role code
    exact Nat.le_trans (h'.asking role code) (h.asking role code)

theorem of_fibers (hcache : m'.cache = m.cache) (hroles : m'.roles = m.roles)
    (hnow : m'.host.now = m.host.now) (hconfig : m'.config = m.config)
    (hpacket : m'.packet = m.packet)
    (hasking : ∀ role code, m'.asking role code ≤ m.asking role code) : m.Quiet m' :=
  ⟨hcache, hroles, hnow, hconfig, ⟨m.packet.data, hpacket⟩, hasking⟩

end Quiet

variable {m m' : Machine} {index : Nat}

theorem asks_of_reframes {h g : Fiber → Fiber} (hg : Fiber.Reframes h g) (f : Fiber) (role : Nat) (code : CommandCode) :
    (g f).asks role code = (h f).asks role code := by
  obtain ⟨frame, callers, heq⟩ := hg f
  rw [heq]
  rfl

theorem asking_reframed_le {h g : Fiber → Fiber} (hg : Fiber.Reframes h g) (hh : ∀ f, (h f).request = f.request)
    (role : Nat) (code : CommandCode) :
    (m.fibers.modify index g).countP (·.asks role code) ≤ m.asking role code := by
  refine asking_modify_le (fun f _ role code hasks => ?_) role code
  rwa [asks_of_reframes hg, Fiber.asks, hh] at hasks

theorem Computed.quiet (h : m.Computed index m') : m.Quiet m' := by
  obtain ⟨g, hg, hfibers⟩ := h.fibers
  refine ⟨h.cache, h.roles, h.now, h.config, h.packet, fun role code => ?_⟩
  rw [asking, hfibers]
  exact asking_reframed_le hg (fun _ => rfl) role code

theorem Started.quiet (h : m.Started m') : m.Quiet m' := by
  cases h with
  | fresh frame =>
    refine .of_fibers rfl rfl rfl rfl rfl fun role code => ?_
    change (m.fibers ++ [_]).countP _ ≤ _
    rw [List.countP_append]
    exact Nat.le_refl _
  | again j => exact .of_fibers rfl rfl rfl rfl rfl (asking_modify_le fun _ _ _ _ => id)
  | kept => exact .refl m

end Machine

namespace Stepping

open Machine

variable {index : Nat} {m m' : Machine}

/-- What a word of the fiber at `index` leaves. -/
inductive Does (index : Nat) (m : Machine) : Flow → Machine → Prop
  | quiet {flow : Flow} {m' : Machine} (hwrites : m.writes? index = none)
      (hreads : m.reads? index = none) (h : m.Quiet m') : Does index m flow m'
  /-- It writes a register: one entry of it is dropped from the cache. -/
  | write {flow : Flow} {m' : Machine} {role : Nat} {code : CommandCode}
      (hwrites : m.writes? index = some (role, code)) (hreads : m.reads? index = none)
      (h : m.Quiet { m' with cache := m.cache }) (hcache : m'.cache = m.cache.invalidate role code) :
      Does index m flow m'
  /-- It reads a register, and the cache has a value that is fresh enough. -/
  | hit {m' : Machine} {role validity : Nat} {code : CommandCode} {r : Role} {b : Binding} {entry : CachedRegister}
      (hreads : m.reads? index = some (role, code, validity)) (hwrites : m.writes? index = none)
      (hrole : m.roles[role]? = some r) (hbinding : r.binding = some b)
      (h : m.Quiet { m' with cache := m.cache, packet := m.packet })
      (hcache : m.cache.lookup role code none m.host.now validity = (some entry, m'.cache))
      (hpacket : m'.packet = .report b.device b.service code entry.value) : Does index m .next m'
  /-- It reads a register and has to wait for the value. -/
  | ask {m' : Machine} {role validity : Nat} {code : CommandCode} {r : Role}
      (hreads : m.reads? index = some (role, code, validity)) (hwrites : m.writes? index = none)
      (hrole : m.roles[role]? = some r) (hroles : m'.roles = m.roles)
      (hnow : m'.host.now = m.host.now) (hpacket : ∃ data, m'.packet = { m.packet with data })
      (hcache : if r.binding.isSome then
          m.cache.lookup role code none m.host.now validity = (none, m'.cache)
        else m'.cache = m.cache)
      (hasking : ∀ role' code', m'.asking role' code' ≤
        m.asking role' code' + if role' = role ∧ code' = code then 1 else 0) :
      Does index m .park m'

theorem asking_parkWith_le {m : Machine} {f : Fiber → Fiber} {role : Nat} {code : CommandCode}
    (hf : ∀ fiber role' code', (f fiber).asks role' code' = true → role' = role ∧ code' = code)
    (role' : Nat) (code' : CommandCode) :
    (m.fibers.modify index f).countP (·.asks role' code') ≤
      m.asking role' code' + if role' = role ∧ code' = code then 1 else 0 := by
  rw [asking]
  induction m.fibers generalizing index with
  | nil => cases index <;> exact Nat.zero_le _
  | cons fiber rest ih => grind

theorem Did.does {flow : Flow} (h : Did index m flow m') : Does index m flow m' := by
  -- a word that is no command and no read is quiet
  have hother {flow : Flow} {m' : Machine} (hwrites : m.nextAsync? index = none ∨ ∃ op p,
      m.nextAsync? index = some (op, p) ∧ op ≠ .sendCmd ∧ op ≠ .queryReg) (h : m.Quiet m') : Does index m flow m' := by
    rcases hwrites with hasync | ⟨op, p, hasync, hsend, hquery⟩
    · exact .quiet (by rw [writes?, hasync]) (by rw [reads?, hasync]) h
    · refine .quiet ?_ ?_ h
      · rw [writes?, hasync]
        cases op <;> first | rfl | exact (hsend rfl).elim
      · rw [reads?, hasync]
        cases op <;> first | rfl | exact (hquery rfl).elim
  cases h with
  | computes hcall hasync hflow h => exact hother (.inl hasync) h.quiet
  | starts hcall hasync hg hstart => exact hother (.inl hasync) ((Computed.of_modify hg m.registers).quiet.trans hstart.started.quiet)
  | observes hcall hasync hg =>
    exact hother (.inl hasync) (.of_fibers rfl rfl rfl rfl rfl (asking_reframed_le hg fun _ => rfl))
  | pauses hasync hg | uploads hasync hg =>
    refine hother (.inr ⟨_, _, hasync, by decide, by decide⟩) ?_
    exact .of_fibers rfl rfl rfl rfl rfl (asking_reframed_le hg fun _ => rfl)
  | @signals p r g hasync hrole hlocal hg =>
    refine .quiet ?_ (by rw [reads?, hasync]) (.of_fibers rfl rfl rfl rfl rfl (asking_reframed_le hg fun _ => rfl))
    simp only [writes?, hasync, hrole, Option.any_some, hlocal, Bool.not_true, Bool.and_false, Bool.false_eq_true, if_false]
  | @sends p r g hasync hrole hlocal hg =>
    have hreads : m.reads? index = none := by rw [reads?, hasync]
    have hwrites : m.writes? index = if CommandCode.isSet p.b.toUInt16 then
        some (p.a, CommandCode.pairedGet p.b.toUInt16) else none := by
      simp only [writes?, hasync, hrole, Option.any_some, hlocal, Bool.not_false, Bool.and_true]
    -- a fiber with a command to send asks for no value
    have hasking (role : Nat) (code : CommandCode) :
        (m.fibers.modify index g).countP (·.asks role code) ≤ m.asking role code := by
      refine asking_modify_le (fun f _ role code hasks => ?_) role code
      rw [asks_of_reframes hg] at hasks
      exact (Bool.false_ne_true hasks).elim
    by_cases hset : CommandCode.isSet p.b.toUInt16 = true
    · rw [if_pos hset] at hwrites
      exact .write hwrites hreads (.of_fibers rfl rfl rfl rfl rfl hasking) (if_pos hset)
    · rw [if_neg hset] at hwrites
      exact .quiet hwrites hreads (.of_fibers (if_neg hset) rfl rfl rfl rfl hasking)
  | hits hasync hreads hrole hbinding hcache hg =>
    refine .hit hreads (by rw [writes?, hasync]) hrole hbinding ?_ hcache rfl
    exact .of_fibers rfl rfl rfl rfl rfl (asking_reframed_le hg fun _ => rfl)
  | asks hasync hreads hrole hcache hg =>
    refine .ask hreads (by rw [writes?, hasync]) hrole rfl rfl ⟨m.packet.data, rfl⟩ hcache
      (asking_parkWith_le fun fiber role' code' hasks => ?_)
    rw [asks_of_reframes hg, Fiber.asks, Bool.and_eq_true, beq_iff_eq, beq_iff_eq] at hasks
    exact ⟨hasks.1.symm, hasks.2.symm⟩

theorem step_does (index : Nat) (m : Machine) : Outcome (Does index m) (fun _ m' => m.Quiet m') (step index m) :=
  (step_did index m).mono (fun _ _ h => h.does) fun _ _ h => h.computed.quiet

/-- What serving the request of the fiber at `index` leaves, and whether the fiber stays parked. -/
inductive Tries (index : Nat) (m : Machine) : Bool → Machine → Prop
  | quiet {stays : Bool} {m' : Machine} (h : m.Quiet m')
      (hquery : stays = false → ∀ f role code resend, m.fibers[index]? = some f →
        f.request ≠ some (.query role code resend)) : Tries index m stays m'
  /-- The packet at hand is a report of the register that the fiber asks for. -/
  | answer {m' : Machine} {f : Fiber} {role resend : Nat} {code : CommandCode} {r : Role}
      (hfiber : m.fibers[index]? = some f) (hrequest : f.request = some (.query role code resend))
      (hrole : m.roles[role]? = some r) (hreceives : r.receives m.packet = true)
      (hreport : m.packet.isReport = true) (hcode : m.packet.code = code)
      (h : m.Quiet { m' with cache := m.cache })
      (hcache : m'.cache = m.cache.add { role, code, value := m.packet.data, lastRefresh := m.host.now })
      (hasking : m'.asking role code < m.asking role code) : Tries index m false m'

theorem resume_tries (index : Nat) (m : Machine) :
    Outcome (fun goesOn m' => Tries index m (!goesOn) m') (fun _ m' => m.Quiet m') (resume index m) := by
  -- a fiber that has sent its command, or has got its answer, asks for nothing
  have hserved {g : Fiber → Fiber} (hg : Fiber.Reframes ({ · with wakeAt := none, observed := none, request := none }) g)
      (role : Nat) (code : CommandCode) : (m.fibers.modify index g).countP (·.asks role code) ≤ m.asking role code := by
    refine asking_modify_le (fun f _ role code hasks => ?_) role code
    rw [asks_of_reframes hg] at hasks
    exact (Bool.false_ne_true hasks).elim
  refine (resume_resumed index m).mono (fun goesOn m' h => ?_) ?_
  · cases h with
    | free hfiber hrequest hg =>
      refine .quiet (.of_fibers rfl rfl rfl rfl rfl (asking_reframed_le hg fun _ => rfl)) fun _ f' _ _ _ hf' => ?_
      simp_all
    | unbound =>
      exact .quiet (.of_fibers rfl rfl rfl rfl rfl (asking_modify_le fun _ _ _ _ => id)) nofun
    | sends hfiber hrequest hrole hbinding hsend hg =>
      refine .quiet (.of_fibers rfl rfl (now_of_send? hsend) rfl rfl (hserved hg)) fun _ f' _ _ _ hf' => ?_
      simp_all
    | answered hfiber hrequest hrole hreceives hreport hcode hg =>
      refine .answer hfiber hrequest hrole hreceives hreport hcode (.of_fibers rfl rfl rfl rfl rfl (hserved hg)) rfl ?_
      refine countP_modify_lt hfiber ?_ (asks_of_reframes hg _ _ _)
      rw [Fiber.asks, hrequest, Bool.and_eq_true, beq_self_eq_true, beq_self_eq_true]
      exact ⟨rfl, rfl⟩
    | asks hfiber hrequest hrole hbinding hdue hsend =>
      refine .quiet (.of_fibers rfl rfl (now_of_send? hsend) rfl rfl ?_) nofun
      exact asking_asked_le hfiber hrequest
    | waits => exact .quiet (.refl m) nofun
  · rintro _ _ ⟨heq, -, hasking⟩
    rw [heq] at hasking ⊢
    exact .of_fibers rfl rfl rfl rfl rfl hasking

theorem startFiber_quiet (function : Nat) (args : List Number) (kind : CallKind) (m : Machine) :
    Outcome (fun _ m' => m.Quiet m') (fun _ m' => m.Quiet m') (startFiber function args kind m) := by
  refine (startFiber_requested function args kind m).mono (fun _ _ h => h.started.quiet) ?_
  rintro _ _ ⟨rfl, -⟩
  exact .refl _

theorem finish_quiet (index : Nat) (m : Machine) :
    Outcome (fun _ m' => m.Quiet m') (fun _ m' => m.Quiet m') (finish index m) := by
  refine (finish_finished index m).mono (fun _ _ h => ?_) ?_
  · cases h with
    | again => exact .of_fibers rfl rfl rfl rfl rfl (asking_modify_le fun _ _ _ _ => id)
    | gone => exact .of_fibers rfl rfl rfl rfl rfl fun _ _ => (List.eraseIdx_sublist ..).countP_le
  · rintro _ _ ⟨rfl, -⟩
    exact .refl _

end Stepping

end BusScript
