import BusScript.Proofs.CacheEffects
import BusScript.Proofs.Computing

namespace BusScript

open CommandCode (getReg isSet pairedGet)

open Outcome (bind_iff get_iff ite_iff pure_iff set_iff)

def Fiber.asks (f : Fiber) (role : Nat) (code : CommandCode) : Bool :=
  match f.request with
  | some (.query r c _) => r == role && c == code
  | _ => false

namespace Machine

def asking (m : Machine) (role : Nat) (code : CommandCode) : Nat :=
  m.fibers.countP (·.asks role code)

/-- The word that the fiber at `index` runs next and the operands that it sees, unless it is a prefix. -/
def nextWord? (m : Machine) (index : Nat) : Option (Word × Operands) :=
  m.fibers[index]?.bind fun fiber =>
    m.image.words[fiber.frame.pc]?.bind fun word =>
      if (m.operands.absorb? word).isSome then none else some (word, m.operands.resolve word)

def nextAsync? (m : Machine) (index : Nat) : Option (AsyncOp × Operands) :=
  (m.nextWord? index).bind fun next =>
    if next.1.opClass? = some .async then (AsyncOp.ofCode? next.1.arg8).map (·, next.2) else none

def writes? (m : Machine) (index : Nat) : Option (Nat × CommandCode) :=
  match m.nextAsync? index with
  | some (.sendCmd, p) =>
    if isSet p.b.toUInt16 && m.roles[p.a]?.any (!·.isLocal) then
      some (p.a, pairedGet p.b.toUInt16)
    else none
  | _ => none

/-- The register that the next word of the fiber at `index` reads, as its role and its get code, and how
old its value may be. -/
def reads? (m : Machine) (index : Nat) : Option (Nat × CommandCode × Nat) :=
  match m.nextAsync? index with
  | some (.queryReg, p) =>
    some (p.a, getReg p.b.toUInt16, if p.c = 0 then m.config.defaultValidity else p.c)
  | _ => none

def nextCall? (m : Machine) (index : Nat) : Option (CallKind × Operands) :=
  (m.nextWord? index).bind fun next =>
    if next.1.opClass? = some .call then (CallKind.ofCode? next.1.kind2).map (·, next.2) else none

def startsFiber (m : Machine) (index : Nat) : Bool := (m.nextCall? index).any (·.1 != .sync)

/-- The registers that the next word of the fiber at `index` saves: a call and an asynchronous operation save some. -/
def nextSave? (m : Machine) (index : Nat) : Option RegSet :=
  (m.nextWord? index).bind fun next =>
    if next.1.opClass? = some .call ∨ next.1.opClass? = some .async then some ⟨next.2.d % 65536⟩ else none

/-- A fiber has been started, or an old one has at most been told to run once more. -/
inductive Started (m : Machine) : Machine → Prop
  | fresh (frame : Frame) : Started m { m with
      fibers := m.fibers ++ [Fiber.start m.nextFiberId frame m.host.now]
      nextFiberId := m.nextFiberId + 1 }
  | again (j : Nat) : Started m { m with fibers := m.fibers.modify j ({ · with isPending := true }) }
  | kept : Started m m

/-- What a background call of the function `j` does. -/
inductive Requested (m : Machine) (j : Nat) (kind : CallKind) : Machine → Prop
  | fresh {info : FunctionInfo} {args : List Number} (hinfo : m.image.functions[j]? = some info)
      (hnone : kind ≠ .background → ∀ f ∈ m.fibers, f.function ≠ j) :
      Requested m j kind { m with
        fibers := m.fibers ++ [Fiber.start m.nextFiberId (.enter j info args) m.host.now]
        nextFiberId := m.nextFiberId + 1 }
  | again {k : Nat} (hkind : kind = .backgroundPending) (hfound : m.fibers.findIdx? (·.function == j) = some k) :
      Requested m j kind { m with fibers := m.fibers.modify k ({ · with isPending := true }) }
  | kept {k : Nat} (hkind : kind ≠ .background) (hpending : kind ≠ .backgroundPending)
      (hfound : m.fibers.findIdx? (·.function == j) = some k) : Requested m j kind m

theorem Requested.started {m m' : Machine} {j : Nat} {kind : CallKind} (h : m.Requested j kind m') : m.Started m' := by
  cases h with
  | fresh => exact .fresh _
  | again => exact .again _
  | kept => exact .kept

theorem Started.fiber {m m' : Machine} (h : m.Started m') {index : Nat} {f : Fiber}
    (hf : m.fibers[index]? = some f) :
    ∃ f', m'.fibers[index]? = some f' ∧ (f' = f ∨ f' = { f with isPending := true }) := by
  cases h with
  | fresh frame => grind
  | again j => grind
  | kept => exact ⟨f, hf, .inl rfl⟩

/-- The fiber at `index` has gone past a word, to `pc`. -/
def past (m : Machine) (index pc : Nat) : Machine :=
  { m with operands := {}, fibers := m.fibers.modify index fun f => { f with frame := { f.frame with pc } } }

theorem worked_past {m : Machine} {index pc : Nat} : m.Worked index (m.past index pc) :=
  .of_frame (fun f => f.becomes_moved pc) fun _ => .empty

theorem asking_modify_le {m : Machine} {index : Nat} {g : Fiber → Fiber} (hg : ∀ f, m.fibers[index]? = some f →
      ∀ role code, (g f).asks role code = true → f.asks role code = true)
    (role : Nat) (code : CommandCode) :
    (m.fibers.modify index g).countP (·.asks role code) ≤ m.asking role code :=
  countP_modify_le fun f hf => hg f hf role code

theorem asking_asked_le {m : Machine} {index : Nat} {f : Fiber} {role resend resend' : Nat} {code : CommandCode}
    {wakeAt : Option Nat} (hfiber : m.fibers[index]? = some f) (hrequest : f.request = some (.query role code resend)) :
    ∀ role' code', (m.fibers.modify index ({ · with request := some (.query role code resend'), wakeAt })).countP
      (·.asks role' code') ≤ m.asking role' code' := by
  refine asking_modify_le fun f' hf' role' code' hasks => ?_
  rw [hfiber, Option.some.injEq] at hf'
  rw [← hf', Fiber.asks, hrequest]
  exact hasks

end Machine

namespace Stepping

open Machine

/-- What a word of the fiber at `index` leaves, and what the fiber does next. -/
inductive Did (index : Nat) (m : Machine) : Flow → Machine → Prop
  | computes {flow : Flow} {m' : Machine} (hcall : m.startsFiber index = false)
      (hasync : m.nextAsync? index = none) (hflow : flow ≠ .park) (h : m.Computed index m') :
      Did index m flow m'
  | starts {g : Fiber → Fiber} {kind : CallKind} {p : Operands} {m' : Machine} (hcall : m.startsFiber index = true)
      (hasync : m.nextAsync? index = none) (hg : Fiber.Reframes id g)
      (hstart : Requested { m with operands := {}, fibers := m.fibers.modify index g } p.b kind m')
      (hnext : m.nextCall? index = some (kind, p)) : Did index m .next m'
  | observes {role : Nat} {g : Fiber → Fiber} (hcall : m.startsFiber index = false)
      (hasync : m.nextAsync? index = none) (hg : Fiber.Reframes ({ · with observed := some role }) g) :
      Did index m .next { m with operands := {}, fibers := m.fibers.modify index g }
  | pauses {p : Operands} {g : Fiber → Fiber} (hasync : m.nextAsync? index = some (.pause, p)) (hg : Fiber.Reframes
        ({ · with wakeAt := if p.a = 0 then none else some (m.host.now + p.a) }) g) :
      Did index m .park { m with operands := {}, fibers := m.fibers.modify index g }
  | uploads {p : Operands} {label : String} {values : List Number} {g : Fiber → Fiber}
      (hasync : m.nextAsync? index = some (.cloudUpload, p))
      (hg : Fiber.Reframes ({ · with
        wakeAt := some (m.host.now + (m.random.between m.config.backoffMin m.config.backoffMax).1) }) g) :
      Did index m .park { m with
        operands := {}
        host := m.host.upload label values
        random := (m.random.between m.config.backoffMin m.config.backoffMax).2
        fibers := m.fibers.modify index g }
  /-- A local role takes no commands but the signal. -/
  | signals {p : Operands} {r : Role} {g : Fiber → Fiber}
      (hasync : m.nextAsync? index = some (.sendCmd, p)) (hrole : m.roles[p.a]? = some r)
      (hlocal : r.isLocal = true) (hg : Fiber.Reframes id g) :
      Did index m .next { m with
        operands := {}
        signals := if p.b.toUInt16 == Condition.signal then m.signals ++ [p.a] else m.signals
        fibers := m.fibers.modify index g }
  | sends {p : Operands} {r : Role} {g : Fiber → Fiber}
      (hasync : m.nextAsync? index = some (.sendCmd, p)) (hrole : m.roles[p.a]? = some r)
      (hlocal : r.isLocal = false)
      (hg : Fiber.Reframes ({ · with
        observed := some p.a
        request := some (.send p.a p.b.toUInt16 m.packet.data)
        wakeAt := some m.host.now }) g) :
      Did index m .park { m with
        operands := {}
        cache := if isSet p.b.toUInt16 then
          m.cache.invalidate p.a (pairedGet p.b.toUInt16) else m.cache
        fibers := m.fibers.modify index g }
  /-- The value of a register is in the cache. -/
  | hits {role validity : Nat} {code : CommandCode} {p : Operands} {r : Role} {b : Binding}
      {entry : CachedRegister} {cache : RegisterCache} {g : Fiber → Fiber}
      (hasync : m.nextAsync? index = some (.queryReg, p))
      (hreads : m.reads? index = some (role, code, validity))
      (hrole : m.roles[role]? = some r) (hbinding : r.binding = some b)
      (hcache : m.cache.lookup role code none m.host.now validity = (some entry, cache))
      (hg : Fiber.Reframes id g) :
      Did index m .next { m with
        operands := {}
        cache
        packet := .report b.device b.service code entry.value
        fibers := m.fibers.modify index g }
  /-- The value of a register has to be asked for. -/
  | asks {role validity : Nat} {code : CommandCode} {p : Operands} {r : Role} {cache : RegisterCache}
      {g : Fiber → Fiber}
      (hasync : m.nextAsync? index = some (.queryReg, p))
      (hreads : m.reads? index = some (role, code, validity)) (hrole : m.roles[role]? = some r)
      (hcache : if r.binding.isSome then
          m.cache.lookup role code none m.host.now validity = (none, cache)
        else cache = m.cache)
      (hg : Fiber.Reframes ({ · with
        observed := some role
        request := some (.query role code m.config.resendInitial)
        wakeAt := some m.host.now }) g) :
      Did index m .park { m with
        operands := {}
        cache
        fibers := m.fibers.modify index g }

variable {m m' : Machine}

theorem Did.computed {index : Nat} {flow : Flow} (h : Did index m flow m')
    (hnext : flow ≠ .next) (hpark : flow ≠ .park) : m.Computed index m' := by
  cases h with
  | computes hcall hasync hflow h => exact h
  | pauses | uploads | sends | asks => exact (hpark rfl).elim
  | _ => exact (hnext rfl).elim

structure Advancing (index : Nat) (act : Stepping Flow) : Prop where
  ends : ∀ m, Outcome (fun flow m' => m.Worked index m' ∧ flow ≠ .park ∧ flow ≠ .finish) (m.Broken index) (act m)

namespace Advancing

variable {α : Type} {index : Nat} {x : Stepping α} {f : α → Stepping Flow}

theorem bind (hx : Computing index x) (hf : ∀ a, Advancing index (f a)) : Advancing index (x >>= f) := by
  constructor
  intro m
  refine (hx.ends m).bind ?_ fun _ _ h => h
  intro a m' h
  exact ((hf a).ends m').mono (fun _ _ h' => ⟨h.trans h'.1, h'.2⟩) fun _ _ h' => h.broken h'

theorem pure {flow : Flow} (hpark : flow ≠ .park) (hfinish : flow ≠ .finish) : Advancing index (pure flow) :=
  ⟨fun m => ⟨.refl m, hpark, hfinish⟩⟩

theorem next : Advancing index (Pure.pure .next) := .pure (by rintro ⟨⟩) (by rintro ⟨⟩)

theorem ite {c : Prop} [Decidable c] {x y : Stepping Flow} (hx : Advancing index x)
    (hy : Advancing index y) : Advancing index (if c then x else y) := by grind

end Advancing

variable {index : Nat}

theorem advancing_syncOp {op : SyncOp} (p : Operands) (hret : op ≠ .ret) (hobserve : op ≠ .observeRole) :
    Advancing index (syncOp index op p) := by
  unfold syncOp
  cases op with
  | ret => exact (hret rfl).elim
  | setupBuffer =>
    refine .bind .get fun _ => .ite ?_ (.bind (computing_payload _) fun _ => .next)
    exact .bind (.invalid _) fun _ => .bind (computing_payload _) fun _ => .next
  | observeRole => exact (hobserve rfl).elim
  | format => exact .bind (reading_formatted p).computing fun _ => .bind (computing_fillBuffer ..) fun _ => .next
  | memcpy => exact .bind (reading_string _).computing fun _ => .bind (computing_fillBuffer ..) fun _ => .next
  | logFormat =>
    exact .bind (reading_formatted p).computing fun _ => .bind (.modify fun _ => .of_fibers_eq rfl rfl) fun _ => .next
  | math1 => exact .bind (reading_known _ _).computing fun _ => .bind (computing_math1 _) fun _ => .next
  | math2 =>
    exact .bind (reading_known _ _).computing fun _ => .bind (reading_readReg _).computing fun _ =>
      .bind (reading_readReg _).computing fun _ => .bind (computing_writeReg ..) fun _ => .next
  | panic => exact .pure (by rintro ⟨⟩) (by rintro ⟨⟩)

theorem startFiber_requested (function : Nat) (args : List Number) (kind : CallKind) (m : Machine) :
    Outcome (fun _ m' => m.Requested function kind m') (fun fault m' => m' = m ∧ ∃ flaw, fault = .invalid flaw)
      (startFiber function args kind m) := by
  rw [startFiber, bind_iff]
  cases hinfo : m.image.functions[function]? with
  | none =>
    rw [Stepping.function, bind_iff, get_iff, hinfo]
    exact ⟨rfl, _, rfl⟩
  | some info =>
    rw [function_iff hinfo, bind_iff, get_iff]
    by_cases hkind : kind = .background
    · rw [if_pos hkind]
      exact .fresh hinfo fun hnot => (hnot hkind).elim
    · rw [if_neg hkind]
      cases hfound : m.fibers.findIdx? (·.function == function) with
      | none =>
        refine .fresh hinfo fun _ f hf => ?_
        simp_all
      | some k =>
        rw [ite_iff]
        exact ⟨fun hpending => .again hpending hfound, fun hpending => .kept hkind hpending hfound⟩

/-- What a word of the fiber at `index` leaves, and what has become of the frames of the fiber. -/
structure Stepped (index : Nat) (m : Machine) (flow : Flow) (m' : Machine) : Prop where
  did : Did index m flow m'
  frames : ∀ f, m.fibers[index]? = some f →
    ∃ f', m'.fibers[index]? = some f' ∧ Frames m.registers f (m.nextSave? index) flow m'.registers f'

/-- The fiber at `index` goes past its word and saves the registers. -/
structure Saves (index : Nat) (m : Machine) (g : Fiber → Fiber) : Prop where
  reframes : Fiber.Reframes id g
  frames : ∀ f, m.fibers[index]? = some f → ∃ set, m.nextSave? index = some set ∧ f.Works (g f) ∧
    (g f).frame.Keeps set m.registers ∧ f.frame.SameLocals (g f).frame

section Saves

variable {m m' : Machine} {g : Fiber → Fiber} {p : Operands} (hg : Saves index m g)
include hg

theorem Saves.computed : m.Computed index { m with operands := {}, fibers := m.fibers.modify index g } :=
  .of_modify hg.reframes m.registers

theorem Saves.stepped {flow : Flow} {g' : Fiber → Fiber} (hdid : Did index m flow m')
    (hfibers : m'.fibers = m.fibers.modify index g') (hregisters : m'.registers = m.registers)
    (hflow : flow ≠ .finish) (hg' : ∀ f, (g' f).callers = (g f).callers ∧ (g' f).frame = (g f).frame) :
    Stepped index m flow m' := by
  refine ⟨hdid, fun f hf => ?_⟩
  obtain ⟨set, hsave, hworks, hkeeps, hlocals⟩ := hg.frames f hf
  refine ⟨g' f, hfibers ▸ getElem?_modified hf g', ?_⟩
  rw [hsave, hregisters]
  refine .saves ⟨(hg' f).1.trans hworks.callers, ?_⟩ ?_ ?_ hflow
  · rw [(hg' f).2]
    exact hworks.frame
  · rwa [(hg' f).2]
  · rwa [(hg' f).2]

theorem upload_stepped (hasync : m.nextAsync? index = some (.cloudUpload, p)) :
    Outcome (Stepped index m) (m.Broken index)
      (upload index p.a { m with operands := {}, fibers := m.fibers.modify index g }) := by
  have huploads (label : String) (values : List Number) :=
    hg.stepped (@Did.uploads index m p label values _ hasync (reframes_comp hg.reframes (reframes_self ({ · with
      wakeAt := some (m.host.now + (m.random.between m.config.backoffMin m.config.backoffMax).1) })) fun _ _ _ => rfl))
      rfl rfl (by rintro ⟨⟩) fun _ => ⟨rfl, rfl⟩
  simp only [← List.modify_modify_eq] at huploads
  simp only [upload, bind_iff, bufferText, get_iff, pure_iff, firstRegs_iff]
  simp_all

theorem sendCommand_stepped (hasync : m.nextAsync? index = some (.sendCmd, p)) :
    Outcome (Stepped index m) (m.Broken index)
      (sendCommand index p.a p.b.toUInt16 { m with operands := {}, fibers := m.fibers.modify index g }) := by
  rw [sendCommand]
  cases hrole : m.roles[p.a]? with
  | none =>
    simp only [bind_iff, role, get_iff, hrole]
    exact ⟨hg.computed, _, rfl⟩
  | some r =>
    simp only [bind_iff, role, get_iff, hrole, pure_iff]
    cases hlocal : r.isLocal with
    | true =>
      have hsignals := hg.stepped (.signals hasync hrole hlocal hg.reframes) rfl rfl (by rintro ⟨⟩) fun _ => ⟨rfl, rfl⟩
      rw [if_pos rfl, ite_iff]
      constructor
      · intro hcode
        rwa [if_pos hcode] at hsignals
      · intro hcode
        rwa [if_neg hcode] at hsignals
    | false =>
      have hsends := hg.stepped (.sends hasync hrole hlocal (reframes_comp hg.reframes (reframes_self ({ · with
        observed := some p.a
        request := some (.send p.a p.b.toUInt16 m.packet.data)
        wakeAt := some m.host.now })) fun _ _ _ => rfl)) rfl rfl (by rintro ⟨⟩) fun _ => ⟨rfl, rfl⟩
      rw [← List.modify_modify_eq] at hsends
      rw [if_neg (by decide), ite_iff]
      constructor
      · intro hset
        rwa [if_pos hset] at hsends
      · intro hset
        rwa [if_neg hset] at hsends

theorem queryRegister_stepped (hasync : m.nextAsync? index = some (.queryReg, p)) :
    Outcome (Stepped index m) (m.Broken index)
      (queryRegister index p.a (getReg p.b.toUInt16) p.c
        { m with operands := {}, fibers := m.fibers.modify index g }) := by
  have hreads : m.reads? index = some (p.a, getReg p.b.toUInt16,
      if p.c = 0 then m.config.defaultValidity else p.c) := by
    rw [reads?, hasync]
  generalize getReg p.b.toUInt16 = code at hreads ⊢
  rw [queryRegister]
  cases hrole : m.roles[p.a]? with
  | none =>
    simp only [bind_iff, role, get_iff, hrole]
    exact ⟨hg.computed, _, rfl⟩
  | some r =>
    simp only [bind_iff, role, get_iff, hrole, pure_iff]
    generalize (if p.c = 0 then m.config.defaultValidity else p.c) = validity at hreads ⊢
    -- the fiber parks with its question, and the cache is as the lookup leaves it
    have hasks {cache : RegisterCache} (hcache : if r.binding.isSome then
        m.cache.lookup p.a code none m.host.now validity = (none, cache) else cache = m.cache) :=
      hg.stepped (.asks hasync hreads hrole hcache (reframes_comp hg.reframes (reframes_self ({ · with
        observed := some p.a
        request := some (.query p.a code m.config.resendInitial)
        wakeAt := some m.host.now })) fun _ _ _ => rfl)) rfl rfl (by rintro ⟨⟩) fun _ => ⟨rfl, rfl⟩
    simp only [← List.modify_modify_eq] at hasks
    cases hbinding : r.binding with
    | none =>
      refine hasks ?_
      rw [hbinding, Option.isSome_none, if_neg (by decide)]
    | some b =>
      cases hfound : m.cache.lookup p.a code none m.host.now validity with
      | mk found cache =>
        cases found with
        | some entry =>
          exact hg.stepped (.hits hasync hreads hrole hbinding hfound hg.reframes) rfl rfl (by rintro ⟨⟩)
            fun _ => ⟨rfl, rfl⟩
        | none =>
          refine hasks ?_
          simp_all

theorem enter_stepped (hcall : m.startsFiber index = false) (hasync : m.nextAsync? index = none) (j : Nat)
    (args : List Number) : Outcome (Stepped index m) (m.Broken index) ((do
      let info ← function j
      modifyFiber index fun f => { f with frame := .enter j info args, callers := f.frame :: f.callers }
      return .next : Stepping Flow) { m with operands := {}, fibers := m.fibers.modify index g }) := by
  rw [bind_iff]
  cases hinfo : m.image.functions[j]? with
  | none =>
    rw [function, bind_iff, get_iff, hinfo]
    exact ⟨hg.computed, _, rfl⟩
  | some info =>
    refine (function_iff (m := { m with operands := {}, fibers := _ }) hinfo).2 ?_
    refine ⟨.computes hcall hasync (by rintro ⟨⟩) (hg.computed.trans ?_), fun f hf => ?_⟩
    · exact .of_modify (fun f => ⟨.enter j info args, f.frame :: f.callers, rfl⟩) m.registers
    · obtain ⟨set, hsave, hworks, hkeeps, hlocals⟩ := hg.frames f hf
      refine ⟨_, getElem?_modified (getElem?_modified hf g) _, ?_⟩
      rw [hsave]
      exact .enters (congrArg (_ :: ·) hworks.callers) hworks.frame hkeeps hlocals (Frame.fits_enter ..)

theorem startFiber_stepped {kind : CallKind} (hcall : m.startsFiber index = true) (hasync : m.nextAsync? index = none)
    (hnext : m.nextCall? index = some (kind, p)) (args : List Number) :
    Outcome (Stepped index m) (m.Broken index) ((do
      startFiber p.b args kind
      return .next : Stepping Flow) { m with operands := {}, fibers := m.fibers.modify index g }) := by
  rw [bind_iff]
  refine (startFiber_requested ..).mono ?_ ?_
  · intro _ m' hrequested
    refine ⟨.starts hcall hasync hg.reframes hrequested hnext, fun f hf => ?_⟩
    obtain ⟨set, hsave, hworks, hkeeps, hlocals⟩ := hg.frames f hf
    obtain ⟨f', hf', hsame⟩ := hrequested.started.fiber (getElem?_modified hf g)
    have hregisters : m'.registers = m.registers := by cases hrequested <;> rfl
    refine ⟨f', hf', ?_⟩
    rw [hsave, hregisters]
    rcases hsame with rfl | rfl
    · exact .saves hworks hkeeps hlocals (by rintro ⟨⟩)
    · exact .saves ⟨hworks.callers, hworks.frame⟩ hkeeps hlocals (by rintro ⟨⟩)
  · rintro _ _ ⟨rfl, hflaw⟩
    exact ⟨hg.computed, hflaw⟩

end Saves

section Words

variable {m m' : Machine} {pc : Nat} {p : Operands} {word : Word}

theorem saveRegs_saved {mask : Nat} (hsave : m.nextSave? index = some ⟨mask % 65536⟩) :
    Outcome (fun _ m' => ∃ g, Saves index m g ∧ m' = { m with operands := {}, fibers := m.fibers.modify index g })
      (m.Broken index) (saveRegs index mask (m.past index pc)) := by
  rw [saveRegs]
  cases hf : m.fibers[index]? with
  | none =>
    simp only [past, bind_iff, get_iff, fiber, List.getElem?_modify_eq, hf]
    exact ⟨worked_past.toComputed, _, rfl⟩
  | some f =>
    rw [bind_iff, get_iff, bind_iff, fiber_iff (getElem?_modified hf _), bind_iff, modifyFrame_iff, ite_iff]
    refine ⟨fun _ => ?_, fun hroom => ?_⟩
    · exact ⟨(worked_past.trans (.of_frame (fun f => f.becomes_save _ _) fun _ => .empty)).toComputed, _, rfl⟩
    · rw [Bool.not_eq_true', Bool.not_eq_false] at hroom
      refine ⟨fun f => { f with frame := { f.frame with pc }.save ⟨mask % 65536⟩ m.registers },
        ⟨fun f => ⟨_, f.callers, rfl⟩, fun f' hf' => ?_⟩, ?_⟩
      · rw [hf, Option.some.injEq] at hf'
        subst hf'
        have hlocals := { f.frame with pc }.sameLocals_save ⟨mask % 65536⟩ m.registers
        exact ⟨_, hsave, ⟨rfl, (f.frame.becomes_moved pc).trans (Frame.becomes_save ..)⟩, Frame.keeps_save hroom,
          hlocals.numLocals, hlocals.slots⟩
      · simp only [past, List.modify_modify_eq]
        rfl

theorem asyncOp_stepped {op : AsyncOp} (hasync : m.nextAsync? index = some (op, p))
    (hsave : m.nextSave? index = some ⟨p.d % 65536⟩) :
    Outcome (Stepped index m) (m.Broken index) (asyncOp index op p (m.past index pc)) := by
  unfold asyncOp
  refine (saveRegs_saved hsave).bind ?_ fun _ _ h => h
  rintro _ _ ⟨g, hg, rfl⟩
  cases op with
  | pause =>
    have hpauses := hg.stepped (.pauses hasync (reframes_comp hg.reframes (reframes_self ({ · with
      wakeAt := if p.a = 0 then none else some (m.host.now + p.a) })) fun _ _ _ => rfl))
      rfl rfl (by rintro ⟨⟩) fun _ => ⟨rfl, rfl⟩
    rw [← List.modify_modify_eq] at hpauses
    exact hpauses
  | cloudUpload => exact upload_stepped hg hasync
  | sendCmd => exact sendCommand_stepped hg hasync
  | queryReg => exact queryRegister_stepped hg hasync

theorem call_stepped (hnext : m.nextWord? index = some (word, p)) (hclass : word.opClass? = some .call)
    (hasync : m.nextAsync? index = none) (hsave : m.nextSave? index = some ⟨p.d % 65536⟩) :
    Outcome (Stepped index m) (m.Broken index) (call index word p (m.past index pc)) := by
  rw [call, bind_iff]
  cases hkind : CallKind.ofCode? word.kind2 with
  | none => exact ⟨worked_past.toComputed, _, rfl⟩
  | some kind =>
    have hnextCall : m.nextCall? index = some (kind, p) := by
      rw [nextCall?, hnext, Option.bind_some, if_pos hclass, hkind, Option.map_some]
    have hcall : m.startsFiber index = (kind != .sync) := by rw [startsFiber, hnextCall, Option.any_some]
    rw [known_iff rfl, bind_iff]
    refine (saveRegs_saved hsave).mono ?_ fun _ _ h => h
    rintro _ _ ⟨g, hg, rfl⟩
    rw [bind_iff, firstRegs_iff, ite_iff]
    constructor
    · rintro rfl
      exact enter_stepped hg hcall hasync p.b _
    · intro hsync
      rw [bne_iff_ne.2 hsync] at hcall
      exact startFiber_stepped hg hcall hasync hnextCall _

section Computes

variable (hcall : m.startsFiber index = false) (hasync : m.nextAsync? index = none) (hsave : m.nextSave? index = none)
include hcall hasync hsave

theorem stepped_of_worked {flow : Flow} (h : m.Worked index m') (hpark : flow ≠ .park)
    (hlast : flow = .finish → ∀ f, m.fibers[index]? = some f → f.callers = []) : Stepped index m flow m' := by
  refine ⟨.computes hcall hasync hpark h.toComputed, fun f hf => ?_⟩
  obtain ⟨f', hf', hworks⟩ := h.works f hf
  refine ⟨f', hf', ?_⟩
  rw [hsave]
  exact .works hworks fun hflow => hlast hflow f hf

theorem Advancing.stepped {act : Stepping Flow} (h : Advancing index act) :
    Outcome (Stepped index m) (m.Broken index) (act (m.past index pc)) := by
  refine (h.ends _).mono ?_ fun _ _ h => worked_past.broken h
  exact fun _ _ h => stepped_of_worked hcall hasync hsave (worked_past.trans h.1) h.2.1 fun hflow => (h.2.2 hflow).elim

theorem ret_stepped : Outcome (Stepped index m) (m.Broken index) (ret index (m.past index pc)) := by
  rw [ret, bind_iff]
  cases hf : m.fibers[index]? with
  | none =>
    simp only [past, bind_iff, get_iff, fiber, List.getElem?_modify_eq, hf]
    exact ⟨worked_past.toComputed, _, rfl⟩
  | some f =>
    rw [fiber_iff (getElem?_modified hf _)]
    cases hcallers : f.callers with
    | nil =>
      refine stepped_of_worked hcall hasync hsave worked_past (by rintro ⟨⟩) fun _ f' hf' => ?_
      rw [hf, Option.some.injEq] at hf'
      exact hf' ▸ hcallers
    | cons caller rest =>
      have hpopped := getElem?_modified (getElem?_modified hf fun f => { f with frame := { f.frame with pc } })
        ({ · with frame := caller, callers := rest })
      simp only
      rw [bind_iff, modifyFiber_iff, bind_iff, restoreRegs, bind_iff, fiber_iff hpopped]
      refine ⟨.computes hcall hasync (by rintro ⟨⟩) ?_, fun f' hf' => ?_⟩
      · exact worked_past.toComputed.trans ((Computed.of_modify (fun _ => ⟨caller, rest, rfl⟩) m.registers).trans
          (.of_modify (fun f => ⟨f.frame.restored, f.callers, rfl⟩) _))
      · rw [hf, Option.some.injEq] at hf'
        subst hf'
        refine ⟨_, getElem?_modified hpopped _, ?_⟩
        rw [hsave]
        exact .returns hcallers rfl

theorem syncOp_stepped (op : SyncOp) : Outcome (Stepped index m) (m.Broken index) (syncOp index op p (m.past index pc)) := by
  by_cases hret : op = .ret
  · subst hret
    exact ret_stepped hcall hasync hsave
  by_cases hobserve : op = .observeRole
  · subst hobserve
    rw [syncOp]
    cases hrole : m.roles[p.a]? with
    | none =>
      simp only [past, bind_iff, role, get_iff, hrole]
      exact ⟨worked_past.toComputed, _, rfl⟩
    | some r =>
      simp only [past, bind_iff, role, get_iff, hrole, pure_iff, modifyFiber_iff]
      rw [List.modify_modify_eq]
      refine ⟨.observes hcall hasync fun f => ⟨_, f.callers, rfl⟩, fun f hf => ⟨_, getElem?_modified hf _, ?_⟩⟩
      rw [hsave]
      exact .works ⟨rfl, f.frame.becomes_moved pc⟩ (by rintro ⟨⟩)
  · exact (advancing_syncOp p hret hobserve).stepped hcall hasync hsave

end Computes

theorem execute_stepped (hnext : m.nextWord? index = some (word, p)) :
    Outcome (Stepped index m) (m.Broken index) (execute index word p (m.past index pc)) := by
  have hasync (hclass : word.opClass? ≠ some .async) : m.nextAsync? index = none := by
    rw [nextAsync?, hnext, Option.bind_some, if_neg hclass]
  have hcall (hclass : word.opClass? ≠ some .call) : m.startsFiber index = false := by
    rw [startsFiber, nextCall?, hnext, Option.bind_some, if_neg hclass, Option.any_none]
  have hsave : m.nextSave? index =
      if word.opClass? = some .call ∨ word.opClass? = some .async then some ⟨p.d % 65536⟩ else none := by
    rw [nextSave?, hnext, Option.bind_some]
  rw [execute, bind_iff]
  cases hclass : word.opClass? with
  | none => exact ⟨worked_past.toComputed, _, rfl⟩
  | some cls =>
    rw [known_iff rfl]
    rw [hclass] at hasync hcall hsave
    -- words of most classes only compute
    have hother {act : Stepping Flow} (hact : Advancing index act)
        (hno : ¬ (some cls = some .call ∨ some cls = some .async)) :
        Outcome (Stepped index m) (m.Broken index) (act (m.past index pc)) := by
      rw [if_neg hno] at hsave
      exact hact.stepped (hcall fun h => hno (.inl h)) (hasync fun h => hno (.inr h)) hsave
    cases cls with
    | unary =>
      exact hother (.bind (reading_known _ _).computing fun _ => .bind (reading_readReg _).computing fun _ =>
        .bind (computing_writeReg ..) fun _ => .next) (by decide)
    | binary =>
      exact hother (.bind (reading_known _ _).computing fun _ => .bind (reading_readReg _).computing fun _ =>
        .bind (reading_readReg _).computing fun _ => .bind (computing_writeReg ..) fun _ => .next) (by decide)
    | loadCell =>
      exact hother (.bind (reading_loadCell ..).computing fun _ => .bind (computing_writeReg ..) fun _ => .next)
        (by decide)
    | storeCell =>
      exact hother (.bind (reading_readReg _).computing fun _ => .bind (computing_storeCell ..) fun _ => .next)
        (by decide)
    | jump => exact hother (.bind (computing_jump ..) fun _ => .next) (by decide)
    | call => exact call_stepped hnext hclass (hasync (by decide)) hsave
    | sync =>
      rw [bind_iff]
      cases SyncOp.ofCode? word.arg8 with
      | none => exact ⟨worked_past.toComputed, _, rfl⟩
      | some op => exact (known_iff rfl).2 (syncOp_stepped (hcall (by decide)) (hasync (by decide)) hsave op)
    | async =>
      rw [bind_iff]
      cases hop : AsyncOp.ofCode? word.arg8 with
      | none => exact ⟨worked_past.toComputed, _, rfl⟩
      | some op =>
        refine (known_iff rfl).2 (asyncOp_stepped ?_ hsave)
        rw [nextAsync?, hnext, Option.bind_some, if_pos hclass, hop, Option.map_some]
    | _ => exact ⟨worked_past.toComputed, _, rfl⟩

end Words

theorem step_stepped (index : Nat) (m : Machine) : Outcome (Stepped index m) (m.Broken index) (step index m) := by
  rw [step]
  cases hfiber : m.fibers[index]? with
  | none =>
    simp only [bind_iff, fiber, get_iff, hfiber]
    exact ⟨(Worked.refl m).toComputed, _, rfl⟩
  | some f =>
    simp only [bind_iff, fiber_iff hfiber, modifyFrame_iff, get_iff]
    have hmoved {operands : Operands} (h : m.operands.Collected → operands.Collected) : m.Worked index { m with
        operands
        fibers := m.fibers.modify index fun fiber => { fiber with frame := { fiber.frame with pc := f.frame.pc + 1 } } } :=
      .of_frame (fun frame => frame.becomes_moved (f.frame.pc + 1)) h
    cases hword : m.image.words[f.frame.pc]? with
    | none => exact ⟨(hmoved id).toComputed, _, rfl⟩
    | some word =>
      have hnext : m.nextWord? index = if (m.operands.absorb? word).isSome then none
          else some (word, m.operands.resolve word) := by
        rw [nextWord?, hfiber, Option.bind_some, hword, Option.bind_some]
      cases habsorb : m.operands.absorb? word with
      | some operands =>
        rw [habsorb, Option.isSome_some, if_pos rfl] at hnext
        simp only [habsorb, bind_iff, set_iff, pure_iff]
        refine stepped_of_worked ?_ ?_ ?_ (hmoved (·.absorb? habsorb)) (by rintro ⟨⟩) (by rintro ⟨⟩)
        · rw [startsFiber, nextCall?, hnext, Option.bind_none, Option.any_none]
        · rw [nextAsync?, hnext, Option.bind_none]
        · rw [nextSave?, hnext, Option.bind_none]
      | none =>
        rw [habsorb, Option.isSome_none, if_neg (by decide)] at hnext
        simp only [habsorb, bind_iff, set_iff]
        exact execute_stepped hnext

theorem step_did (index : Nat) (m : Machine) : Outcome (Did index m) (m.Broken index) (step index m) :=
  (step_stepped index m).imp fun _ _ h => h.did

theorem stepped_of_step {flow : Flow} (h : step index m = .ok flow m') : Stepped index m flow m' := by
  have hstepped := step_stepped index m
  rwa [h] at hstepped

theorem did_of_step {flow : Flow} (h : step index m = .ok flow m') : Did index m flow m' := (stepped_of_step h).did

/-! ### Going on and ending -/

/-- What the frame has saved is brought back from it. -/
def Fiber.Restores (g : Fiber → Fiber) : Prop := ∀ f, (g f).callers = f.callers ∧ (g f).frame = f.frame.restored

/-- What is left when the fiber at `index` comes up, and whether it goes on. -/
inductive Resumed (index : Nat) (m : Machine) : Bool → Machine → Prop
  /-- It has no request. -/
  | free {f : Fiber} {g : Fiber → Fiber} (hfiber : m.fibers[index]? = some f) (hrequest : f.request = none)
      (hg : Fiber.Reframes ({ · with wakeAt := none, observed := none }) g) (hback : Fiber.Restores g) :
      Resumed index m true { m with
        registers := f.frame.restoredRegs m.registers
        fibers := m.fibers.modify index g }
  /-- The role of its request has to be bound first. -/
  | unbound {f : Fiber} {request : Request} {r : Role}
      (hfiber : m.fibers[index]? = some f) (hrequest : f.request = some request)
      (hrole : m.roles[request.role]? = some r) (hbinding : r.binding = none) :
      Resumed index m false { m with fibers := m.fibers.modify index ({ · with wakeAt := none }) }
  /-- Its command is sent. -/
  | sends {f : Fiber} {role : Nat} {code : CommandCode} {payload : Bytes} {r : Role} {b : Binding}
      {host : Host} {g : Fiber → Fiber}
      (hfiber : m.fibers[index]? = some f) (hrequest : f.request = some (.send role code payload))
      (hrole : m.roles[role]? = some r) (hbinding : r.binding = some b)
      (hsend : m.host.send? (.command b.device b.service code payload) = some host)
      (hg : Fiber.Reframes ({ · with wakeAt := none, observed := none, request := none }) g)
      (hback : Fiber.Restores g) :
      Resumed index m true { m with
        host
        registers := f.frame.restoredRegs m.registers
        fibers := m.fibers.modify index g }
  /-- The packet at hand is a report of the register that it asks for. -/
  | answered {f : Fiber} {role resend : Nat} {code : CommandCode} {r : Role} {g : Fiber → Fiber}
      (hfiber : m.fibers[index]? = some f) (hrequest : f.request = some (.query role code resend))
      (hrole : m.roles[role]? = some r) (hreceives : r.receives m.packet = true)
      (hreport : m.packet.isReport = true) (hcode : m.packet.code = code)
      (hg : Fiber.Reframes ({ · with wakeAt := none, observed := none, request := none }) g)
      (hback : Fiber.Restores g) :
      Resumed index m true { m with
        cache := m.cache.add { role, code, value := m.packet.data, lastRefresh := m.host.now }
        registers := f.frame.restoredRegs m.registers
        fibers := m.fibers.modify index g }
  /-- The register is asked for, because its time has come. -/
  | asks {f : Fiber} {role resend : Nat} {code : CommandCode} {r : Role} {b : Binding} {host : Host}
      (hfiber : m.fibers[index]? = some f) (hrequest : f.request = some (.query role code resend))
      (hrole : m.roles[role]? = some r) (hbinding : r.binding = some b)
      (hdue : f.wakeAt.all (· ≤ m.host.now) = true)
      (hsend : m.host.send? (.command b.device b.service code #[]) = some host) :
      Resumed index m false { m with
        host
        fibers := m.fibers.modify index ({ · with
          request := some (.query role code (min (2 * resend) m.config.resendMax))
          wakeAt := some (m.host.now + resend) }) }
  | waits {f : Fiber} {role resend : Nat} {code : CommandCode} {r : Role} {b : Binding}
      (hfiber : m.fibers[index]? = some f) (hrequest : f.request = some (.query role code resend))
      (hrole : m.roles[role]? = some r) (hbinding : r.binding = some b)
      (hdue : f.wakeAt.all (· ≤ m.host.now) = false) : Resumed index m false m

def goOn (index : Nat) : Stepping Bool := do
  modifyFiber index ({ · with wakeAt := none, observed := none })
  restoreRegs index
  return true

theorem resume_eq (index : Nat) : resume index = (do if ← serveRequest index then return false else goOn index) := rfl

theorem goOn_reframes {f : Fiber} (hfiber : m.fibers[index]? = some f)
    {h : Fiber → Fiber} {Q : Bool → Machine → Prop} {E : Fault → Machine → Prop}
    (hh : ∀ f, (h f).callers = f.callers ∧ (h f).frame = f.frame)
    (hQ : ∀ g, Fiber.Reframes (fun f => { h f with wakeAt := none, observed := none }) g → Fiber.Restores g →
      Q true { m with registers := f.frame.restoredRegs m.registers, fibers := m.fibers.modify index g }) :
    Outcome Q E (goOn index { m with fibers := m.fibers.modify index h }) := by
  have hfiber' : ((m.fibers.modify index h).modify index ({ · with wakeAt := none, observed := none }))[index]? =
        some { h f with wakeAt := none, observed := none } := by simp_all
  rw [goOn, bind_iff, modifyFiber_iff, bind_iff, restoreRegs, bind_iff,
    fiber_iff hfiber', bind_iff, Outcome.modify_iff, modifyFrame_iff]
  simp only [List.modify_modify_eq]
  rw [(hh f).2]
  refine hQ _ (fun f => ⟨(h f).frame.restored, (h f).callers, rfl⟩) fun f => ⟨(hh f).1, ?_⟩
  exact congrArg Frame.restored (hh f).2

theorem now_of_send? {h h' : Host} {p : Packet} (hsend : h.send? p = some h') : h'.now = h.now := by
  unfold Host.send? at hsend
  split at hsend <;> cases hsend <;> rfl

theorem send_sends (p : Packet) : Outcome (fun _ m' => ∃ host, m.host.send? p = some host ∧ m' = { m with host })
      (fun fault m' => m' = m ∧ ∀ function steps, fault ≠ .timeout function steps) (send p m) := by
  rw [send, bind_iff, get_iff]
  cases m.host.send? p with
  | none => exact ⟨rfl, by rintro _ _ ⟨⟩⟩
  | some host => exact ⟨host, rfl, rfl⟩

theorem resume_resumed (index : Nat) (m : Machine) : Outcome (Resumed index m)
      (fun fault m' => m' = { m with fibers := m'.fibers } ∧ (∀ function steps, fault ≠ .timeout function steps) ∧
        ∀ role code, m'.asking role code ≤ m.asking role code)
      (resume index m) := by
  rw [resume_eq, bind_iff, serveRequest]
  cases hfiber : m.fibers[index]? with
  | none =>
    simp only [bind_iff, fiber, get_iff, hfiber]
    exact ⟨rfl, by rintro _ _ ⟨⟩, fun _ _ => Nat.le_refl _⟩
  | some f =>
    simp only [bind_iff, fiber_iff hfiber]
    cases hrequest : f.request with
    | none =>
      have hgoes (E : Fault → Machine → Prop) := goOn_reframes (h := id) (Q := Resumed index m) (E := E)
        hfiber (fun _ => ⟨rfl, rfl⟩) fun _ hg hback => .free hfiber hrequest hg hback
      simp only [List.modify_id] at hgoes
      exact hgoes _
    | some request =>
      cases hrole : m.roles[request.role]? with
      | none =>
        simp only [bind_iff, get_iff, role, hrole]
        exact ⟨rfl, by rintro _ _ ⟨⟩, fun _ _ => Nat.le_refl _⟩
      | some r =>
        simp only [bind_iff, get_iff, role_iff hrole]
        cases hbinding : r.binding with
        | none => exact .unbound hfiber hrequest hrole hbinding
        | some b =>
          cases request with
          | send role code payload =>
            simp only [bind_iff]
            refine (send_sends _).mono ?_ ?_
            · rintro _ _ ⟨host, hsend, rfl⟩
              exact goOn_reframes (m := { m with host }) hfiber (fun _ => ⟨rfl, rfl⟩)
                fun _ hg hback => .sends hfiber hrequest hrole hbinding hsend hg hback
            · simp_all
          | query role code resend =>
            simp only
            cases hentry : (if r.receives m.packet = true then
                CachedRegister.update? { role, code } role m.packet m.host.now else none) with
            | some entry =>
              obtain ⟨hreceives, hentry⟩ := Option.ite_none_right_eq_some.1 hentry
              obtain ⟨-, hcode, hreport, rfl⟩ := CachedRegister.eq_of_update? rfl hentry
              exact goOn_reframes (m := { m with cache := m.cache.add _ }) hfiber (fun _ => ⟨rfl, rfl⟩)
                fun _ hg hback => .answered hfiber hrequest hrole hreceives hreport hcode.symm hg hback
            | none =>
              rw [ite_iff]
              refine ⟨fun hdue => ?_, fun hdue => ?_⟩
              · rw [bind_iff, modifyFiber_iff, bind_iff]
                refine (send_sends _).mono ?_ ?_
                · rintro _ _ ⟨host, hsend, rfl⟩
                  exact .asks hfiber hrequest hrole hbinding hdue hsend
                · rintro _ _ ⟨rfl, hfault⟩
                  exact ⟨rfl, hfault, asking_asked_le hfiber hrequest⟩
              · exact .waits hfiber hrequest hrole hbinding (Bool.not_eq_true _ ▸ hdue)

theorem resumed_of_resume {goesOn : Bool} (h : resume index m = .ok goesOn m') :
    Resumed index m goesOn m' := by
  have hresumed := resume_resumed index m
  rwa [h] at hresumed

theorem Resumed.unparks {goesOn : Bool} (h : Resumed index m goesOn m') {f : Fiber} (hf : m.fibers[index]? = some f) :
    ∃ f', m'.fibers[index]? = some f' ∧ Unparks m.registers f m'.registers f' goesOn := by
  have hsame {f' : Fiber} (hf' : m.fibers[index]? = some f') : f' = f := by simp_all
  cases h with
  | free hfiber _ _ hback | sends hfiber _ _ _ _ _ hback | answered hfiber _ _ _ _ _ _ hback =>
    obtain rfl := hsame hfiber
    exact ⟨_, getElem?_modified hf _, .goesOn (hback _).1 (hback _).2 rfl⟩
  | unbound | asks => exact ⟨_, getElem?_modified hf _, .stays rfl rfl⟩
  | waits => exact ⟨f, hf, .stays rfl rfl⟩

/-- What is left when the fiber at `index` has finished, and whether it runs on. -/
inductive Finished (index : Nat) (m : Machine) : Bool → Machine → Prop
  | again : Finished index m true { m with
      fibers := m.fibers.modify index fun f => { f with isPending := false, frame := f.frame.restart } }
  | gone : Finished index m false { m with fibers := m.fibers.eraseIdx index }

theorem finish_finished (index : Nat) (m : Machine) :
    Outcome (Finished index m) (fun fault m' => m' = m ∧ ∃ flaw, fault = .invalid flaw) (finish index m) := by
  rw [finish, bind_iff]
  cases hfiber : m.fibers[index]? with
  | none =>
    simp only [fiber, bind_iff, get_iff, hfiber]
    exact ⟨rfl, _, rfl⟩
  | some f =>
    rw [fiber_iff hfiber, ite_iff]
    exact ⟨fun _ => .again, fun _ => .gone⟩

end Stepping

/-! ### What fibers leave alone -/

/-- What neither fibers change nor passes over them. -/
structure Machine.Abides (m m' : Machine) : Prop where
  image : m'.image = m.image
  config : m'.config = m.config
  roles : m'.roles = m.roles
  panic : m'.panic = m.panic
  nextAutobind : m'.nextAutobind = m.nextAutobind
  now : m'.host.now = m.host.now
  globals : m'.globals.size = m.globals.size

structure Machine.Stays (m m' : Machine) : Prop extends m.Abides m' where
  wokenBy : m'.wokenBy = m.wokenBy
  overrun : m'.overrun = m.overrun

namespace Machine

variable {m m' m'' : Machine} {index : Nat}

theorem Abides.trans (h : m.Abides m') (h' : m'.Abides m'') : m.Abides m'' :=
  ⟨h'.image.trans h.image, h'.config.trans h.config, h'.roles.trans h.roles, h'.panic.trans h.panic,
    h'.nextAutobind.trans h.nextAutobind, h'.now.trans h.now, h'.globals.trans h.globals⟩

theorem Stays.trans (h : m.Stays m') (h' : m'.Stays m'') : m.Stays m'' :=
  ⟨h.toAbides.trans h'.toAbides, h'.wokenBy.trans h.wokenBy, h'.overrun.trans h.overrun⟩

theorem Started.stays (h : m.Started m') : m.Stays m' := by
  cases h <;> exact ⟨⟨rfl, rfl, rfl, rfl, rfl, rfl, rfl⟩, rfl, rfl⟩

theorem Computed.stays (h : m.Computed index m') : m.Stays m' := by
  have hglobals := h.globals
  rw [h.rest]
  exact ⟨⟨rfl, rfl, rfl, rfl, rfl, rfl, hglobals⟩, rfl, rfl⟩

end Machine

namespace Stepping

open Machine

variable {m m' : Machine} {index : Nat}

theorem Did.stays {flow : Flow} (h : Did index m flow m') : m.Stays m' := by
  cases h with
  | computes hcall hasync hflow h => exact h.stays
  | starts hcall hasync hg hstart => exact (Computed.of_modify hg m.registers).stays.trans hstart.started.stays
  | _ => exact ⟨⟨rfl, rfl, rfl, rfl, rfl, rfl, rfl⟩, rfl, rfl⟩

theorem Resumed.stays {goesOn : Bool} (h : Resumed index m goesOn m') : m.Stays m' := by
  cases h with
  | sends _ _ _ _ hsend | asks _ _ _ _ _ hsend => exact ⟨⟨rfl, rfl, rfl, rfl, rfl, now_of_send? hsend, rfl⟩, rfl, rfl⟩
  | _ => exact ⟨⟨rfl, rfl, rfl, rfl, rfl, rfl, rfl⟩, rfl, rfl⟩

theorem Finished.stays {goesOn : Bool} (h : Finished index m goesOn m') : m.Stays m' := by
  cases h <;> exact ⟨⟨rfl, rfl, rfl, rfl, rfl, rfl, rfl⟩, rfl, rfl⟩

end Stepping

end BusScript
