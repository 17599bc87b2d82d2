import BusScript.Proofs.LoweringProcedures

namespace BusScript

open CodeWriter Draft

def CallSite.Sound (P : Prop) (call : CallSite) : Prop := ∀ p ∈ call.args, p.Sound P

namespace Lowering

open Run

variable {P : Prop} {d : Draft}

/-- A step that only looks at the arguments of a call. -/
def Looks {α : Type} (d : Draft) (Q : α → Prop) (x : Lowering α) : Prop :=
  Outcome (fun a d' => d' = d ∧ Q a) (fun stop d' => d' = d ∧ ∃ p, stop = .reject p) (x d)

theorem requireArgs_looks (name : String) (call : CallSite) (expected : Nat) :
    Looks d (fun _ => call.args.length = expected) (requireArgs name call expected) := by
  rw [Looks, requireArgs]
  by_cases hlen : call.args.length = expected
  · simp_all
  · rw [if_pos hlen]
    exact ⟨rfl, _, rfl⟩

variable {role : Nat} {call : CallSite} {d0 : Draft} {packet : PacketSpec} {β : Type} {labels labels' : List Nat}

theorem oneArg_looks (name : String) (hcall : call.Sound P) :
    Looks d (fun p => call.args = [p] ∧ p.Sound P) (oneArg name call) := by
  rw [Looks, oneArg]
  rcases hargs : call.args with _ | ⟨p, _ | ⟨q, rest⟩⟩
  · exact ⟨rfl, _, rfl⟩
  · exact ⟨rfl, rfl, hcall p (by simp [hargs])⟩
  · exact ⟨rfl, _, rfl⟩

theorem twoArgs_looks (name : String) (hcall : call.Sound P) :
    Looks d (fun (p, q) => call.args = [p, q] ∧ p.Sound P ∧ q.Sound P) (twoArgs name call) := by
  rw [Looks, twoArgs]
  rcases hargs : call.args with _ | ⟨p, _ | ⟨q, _ | ⟨r, rest⟩⟩⟩
  · exact ⟨rfl, _, rfl⟩
  · exact ⟨rfl, _, rfl⟩
  · exact ⟨rfl, rfl, hcall p (by simp [hargs]), hcall q (by simp [hargs])⟩
  · exact ⟨rfl, _, rfl⟩

theorem literalNumber_looks (p : Part) : Looks d (fun x => p.expr.signedNumber? = some x) (literalNumber p) := by
  rw [Looks, literalNumber]
  cases h : p.expr.signedNumber? with
  | some x => exact ⟨rfl, rfl⟩
  | none => exact ⟨rfl, _, rfl⟩

theorem literalString_looks (p : Part) : Looks d (fun _ => True) (literalString p) := by
  rw [Looks, literalString]
  cases p.expr.string? with
  | some s => exact ⟨rfl, trivial⟩
  | none => exact ⟨rfl, _, rfl⟩

theorem requireTopLevel_looks (construct : String) :
    Looks d (fun _ => d.atTopLevel = true) (requireTopLevel construct) := by
  change Outcome _ _ ((if !d.atTopLevel then reject (.topLevelOnly construct) else pure () : Lowering Unit) d)
  cases d.atTopLevel with
  | false => exact ⟨rfl, _, rfl⟩
  | true => exact ⟨rfl, rfl⟩

theorem roleEntry_looks (role : Nat) : Looks d (fun entry => d.roles[role]? = some entry) (roleEntry role) := by
  rw [Looks, roleEntry, Outcome.bind_iff, Outcome.get_iff]
  cases d.roles[role]? with
  | some entry => exact ⟨rfl, rfl⟩
  | none => exact ⟨rfl, _, rfl⟩

theorem packetNamed_looks (h : d.Sound) (role : Nat) (member : Ident) :
    Looks d (fun packet => role < d.roles.size ∧ (d.catalog.Fits → packet.Fits)) (packetNamed role member) := by
  refine Outcome.bind (roleEntry_looks role) ?_ fun _ _ => id
  rintro entry d' ⟨rfl, hentry⟩
  rw [Outcome.bind_iff, Outcome.get_iff]
  cases hfound : d'.catalog.member? entry.service member.name with
  | none => exact ⟨rfl, _, rfl⟩
  | some packet =>
    refine ⟨rfl, (Array.getElem?_eq_some_iff.1 hentry).1, fun hfits => ?_⟩
    exact hfits _ (h.services role entry hentry) _ (Catalog.mem_of_member? hfound)

theorem roleMember_looks (h : d.Sound) (role : Nat) (member : Ident) :
    Looks d (fun v => v.Sound d) (roleMember role member) := by
  refine Outcome.bind (packetNamed_looks h role member) ?_ fun _ _ => id
  rintro packet d' ⟨rfl, hpacket⟩
  dsimp only
  cases packet.kind <;> exact ⟨rfl, hpacket⟩

theorem emitPause_run (h : d.Ready) {ms : UInt32} (hms : P → ms.toNat + 1 ≤ maxOperand) :
    Run P d [] 0 (fun _ d' => d.writer.location < d'.writer.location) (emitPause ms d) := by
  rw [emitPause]
  dsimp only
  split
  · next hmax =>
    refine Run.abort_bind trivial fun hp => ?_
    have := hms hp
    rw [hmax] at this
    exact absurd this (by decide)
  · refine Run.tail (async_bind h.inside (by simp) ?_ ?_)
    · exact fun hp _ => ⟨hms hp, Nat.zero_le _, Nat.zero_le _⟩
    · exact fun d1 hd1 _ hlt => Run.pure hd1 hlt

theorem role_le_maxOperand (hrole : role < d.roles.size) (hfits : d.Fits) : role ≤ maxOperand :=
  Nat.le_of_lt (Nat.lt_of_lt_of_le hrole hfits.roles)

theorem code_le_maxOperand (code : UInt16) : code.toNat ≤ maxOperand :=
  Nat.le_trans (Nat.le_of_lt code.toNat_lt) (by decide)

theorem emitQuery_run (h : d.Ready) (hrole : role < d.roles.size) (packet : PacketSpec) :
    Passes P d (emitQuery role packet) := by
  refine Run.tail (async_bind h.inside (fun _ => hrole) (fun _ hfits => ?_) ?_)
  · refine ⟨role_le_maxOperand hrole hfits, code_le_maxOperand _, ?_⟩
    split <;> decide
  · exact fun d1 hd1 _ _ => Run.pure hd1 trivial

variable {field : FieldSpec} {offset j k dst index : Nat} {d' : Draft} {q : Procedure}

theorem readField_run (h : d.Ready) (hne : d.writer.scopes ≠ []) (hrole : role < d.roles.size) (packet : PacketSpec)
    (hfield : d.catalog.Fits → field.FitsAt offset) :
    Run P d [] 0 (fun v d' => v.Sound d') (readField role packet field offset d) := by
  refine push_bind h.inside fun d1 hd1 hext1 => ?_
  refine allocBuffer_bind hd1 hd1.scopes_ne_of_pushed fun d2 hd2 hext2 => ?_
  have hrole2 : role < d2.roles.size := (hext1.trans hext2).roles.1 ▸ hrole
  refine Run.bind hd2 (emitQuery_run hd2.ready hrole2 packet) fun _ d3 hd3 _ _ => ?_
  refine allocReg_bind hd3 hd3.scopes_ne_of_pushed fun r d4 hd4 hext4 hr => ?_
  have hfield4 : d4.catalog.Fits → field.FitsAt offset := fun hfits => hfield (hd4.grown.catalog ▸ hfits)
  refine Run.bind hd4 (loadField_run hd4.ready hr hfield4) fun _ d5 hd5 _ _ => ?_
  exact popExcept_bind hd5 hne fun d6 hd6 _ => Run.pure hd6 hr

theorem fits_first {rest : List FieldSpec} (hfits : packet.Fits)
    (hfields : packet.fields = field :: rest) : field.FitsAt 0 := by
  have hfrom := hfits.fields
  rw [hfields] at hfrom
  exact hfrom.1

theorem readRegister_run (h : d.Ready) (hne : d.writer.scopes ≠ [])
    (hrole : role < d.roles.size) (hpacket : d.catalog.Fits → packet.Fits)
    (span : Span) : Run P d [] 0 (fun v d' => v.Sound d') (readRegister role packet span d) := by
  rw [readRegister]
  rcases hfields : packet.fields with _ | ⟨field, _ | ⟨second, rest⟩⟩
  · exact Run.reject h.inside.toWithin
  · exact readField_run h hne hrole packet fun hfits => fits_first (hpacket hfits) hfields
  · refine allocBuffer_bind h.inside hne fun d1 hd1 hext1 => ?_
    have hrole1 : role < d1.roles.size := hext1.roles.1 ▸ hrole
    refine Run.bind hd1 (emitQuery_run hd1.ready hrole1 packet) fun _ d2 hd2 _ _ => ?_
    exact Run.pure hd2 ⟨hd2.grown.roles.1 ▸ hrole, hd2.grown.catalog ▸ hpacket⟩

theorem fitsAt_of_fieldNamed? {member : String} {fields : List FieldSpec} {at' : Nat} (hfits : FieldSpec.FitFrom offset fields)
    (hfound : fieldNamed? member offset fields = some (field, at')) : field.FitsAt at' := by
  induction fields generalizing offset with
  | nil => cases hfound
  | cons first rest ih =>
    rw [fieldNamed?] at hfound
    split at hfound
    · cases hfound
      exact hfits.1
    · exact ih hfits.2 hfound

theorem readMember_run (h : d.Ready) (hne : d.writer.scopes ≠ [])
    (hrole : role < d.roles.size) (hpacket : d.catalog.Fits → packet.Fits)
    (member : Ident) : Run P d [] 0 (fun v d' => v.Sound d') (readMember role packet member d) := by
  rw [readMember]
  cases hfound : fieldNamed? member.name 0 packet.fields with
  | none => exact Run.reject h.inside.toWithin
  | some found =>
    exact readField_run h hne hrole packet fun hfits => fitsAt_of_fieldNamed? (hpacket hfits).fields hfound

theorem storeFields_run {pairs : List (Value × FieldSpec)} (h : d.Ready) (hvalues : ∀ pair ∈ pairs, pair.1.Sound d)
    (hfields : d.catalog.Fits → FieldSpec.FitFrom offset (pairs.map (·.2))) :
    Passes P d (storeFields offset pairs) := by
  induction pairs generalizing d offset with
  | nil => exact Run.pure h.inside trivial
  | cons pair rest ih =>
    refine push_bind h.inside fun d1 hd1 hext1 => ?_
    have hvalue := (hvalues pair (by simp)).mono hext1
    refine Run.bind hd1 (forceReg_run hd1.ready hd1.scopes_ne_of_pushed hvalue) fun r d2 hd2 _ hr => ?_
    have hfield : d2.catalog.Fits → pair.2.FitsAt offset := fun hfits =>
      (hfields (hd2.grown.catalog ▸ hfits)).1
    refine Run.bind hd2 (storeField_run hd2.ready hr hfield) fun _ d3 hd3 _ _ => ?_
    refine pop_bind hd3 fun d4 hd4 _ => Run.within hd4 (ih hd4.ready (fun q hq => ?_) fun hfits => ?_)
    · exact (hvalues q (by simp [hq])).mono hd4.grown
    · exact (hfields (hd4.grown.catalog ▸ hfits)).2

variable {Q : β → Draft → Prop} {f : Unit → Lowering β}

theorem setupBuffer_bind {size : Nat} (h : d0.Inside labels j d) (hsize : size ≤ maxPayload)
    (hf : ∀ d', d0.Inside labels j d' → d.Extends d' → Run P d0 labels' k Q (f () d')) :
    Run P d0 labels' k Q ((write (emitSync .setupBuffer size 0 0 0) >>= f) d) := by
  refine emit_bind h (fun _ => ⟨rfl, nofun, fun _ => hsize⟩) (fun _ _ _ => ?_) fun d' hd' hext _ => hf d' hd' hext
  refine Instr.encodable_sync _ ?_ (Nat.zero_le _) (Nat.zero_le _) (Nat.zero_le _)
  exact Nat.le_trans (Nat.div_le_self _ _) (Nat.le_trans hsize (by decide))

theorem send_run (hcall : call.Sound P) (h : d.Ready)
    (hrole : role < d.roles.size) (hpacket : d.catalog.Fits → packet.Fits)
    (code : UInt16) : Passes P d (send role packet code call) := by
  refine Run.look h.inside.toWithin (requireArgs_looks packet.name call _) fun _ _ => ?_
  dsimp only
  split
  · exact Run.reject_bind h.inside.toWithin
  · next hsize =>
    refine push_bind h.inside fun d1 hd1 hext1 => ?_
    refine Run.bind hd1 (numbers_run hcall hd1.ready hd1.scopes_ne_of_pushed) ?_
    intro values d2 hd2 hstep2 ⟨_, hvalues⟩
    refine allocBuffer_bind hd2 hd2.scopes_ne_of_pushed fun d3 hd3 hext3 => ?_
    refine setupBuffer_bind hd3 (Nat.not_lt.1 hsize) fun d4 hd4 hext4 => ?_
    have hstore : Passes P d4 (storeFields 0 (values.zip packet.fields)) := by
      refine storeFields_run hd4.ready (fun pair hpair => ?_) fun hfits => ?_
      · exact ((hvalues _ (List.of_mem_zip hpair).1).mono hext3).mono hext4
      · exact (hpacket (hd4.grown.catalog ▸ hfits)).fields.zip values
    refine Run.bind hd4 hstore fun _ d5 hd5 _ _ => ?_
    have hrole5 : role < d5.roles.size := hd5.grown.roles.1 ▸ hrole
    refine async_bind hd5 (fun _ => hrole5) (fun _ hfits => ?_) fun d6 hd6 _ _ => ?_
    · exact ⟨role_le_maxOperand hrole5 hfits, code_le_maxOperand code, Nat.zero_le _⟩
    · exact Run.tail (pop_bind hd6 fun d7 hd7 _ => Run.pure hd7 trivial)

theorem loadConnected_run (h : d.Ready) (hne : d.writer.scopes ≠ [])
    (hrole : role < d.roles.size) : Run P d [] 0 (fun r _ => r < 16) (loadConnected role d) := by
  refine allocReg_bind h.inside hne fun r d1 hd1 hext hr => ?_
  have hrole1 : role < d1.roles.size := hext.roles.1 ▸ hrole
  refine emit_bind hd1 (fun _ => ⟨rfl, nofun, fun _ => ⟨hrole1, by decide, rfl⟩⟩) (fun _ _ hfits => ?_) ?_
  · exact Instr.encodable_load _ hr (div_le_maxOperand hrole1 hfits.roles 64) (by decide)
  · exact fun d2 hd2 _ _ => Run.pure hd2 hr

theorem special_bind (h : d0.Inside labels j d) (hdst : dst < 16)
    (special : SpecialValue) (hf : ∀ d', d0.Inside labels j d' → d.Extends d' → Run P d0 labels' k Q (f () d')) :
    Run P d0 labels' k Q ((write (emitLoad dst .special special.code 0) >>= f) d) := by
  have hcode : special.code ≤ 0xff ∧ (SpecialValue.ofCode? special.code).isSome = true := by
    cases special <;> decide
  refine emit_bind h (fun _ => ⟨rfl, nofun, fun _ => hcode⟩) (fun _ _ _ => ?_) fun d' hd' hext _ => hf d' hd' hext
  refine Instr.encodable_load _ hdst ?_ (Nat.zero_le _)
  exact Nat.le_trans (Nat.div_le_self _ _) (Nat.le_trans hcode.1 (by decide))

theorem binary_bind {src : Nat} (h : d0.Inside labels j d) (op : BinaryOp) (hdst : dst < 16) (hsrc : src < 16)
    (hf : ∀ d', d0.Inside labels j d' → d.Extends d' → Run P d0 labels' k Q (f () d')) :
    Run P d0 labels' k Q ((write (emitBinary op dst src) >>= f) d) :=
  emit_bind h (fun _ => ⟨rfl, nofun, fun _ => ⟨hdst, hsrc⟩⟩)
    (fun _ _ _ => Instr.encodable_binary op hdst hsrc) fun d' hd' hext _ => hf d' hd' hext

theorem unary_bind {src : Nat} (h : d0.Inside labels j d) (op : UnaryOp) (hdst : dst < 16) (hsrc : src < 16)
    (hf : ∀ d', d0.Inside labels j d' → d.Extends d' → Run P d0 labels' k Q (f () d')) :
    Run P d0 labels' k Q ((write (emitUnary op dst src) >>= f) d) :=
  emit_bind h (fun _ => ⟨rfl, nofun, fun _ => ⟨hsrc, .inl hdst⟩⟩)
    (fun _ _ _ => Instr.encodable_unary op hdst hsrc) fun d' hd' hext _ => hf d' hd' hext

theorem checkCode_run (h : d.Ready) (hne : d.writer.scopes ≠ []) (special : SpecialValue)
    (code : UInt16) : Run P d [] 0 (fun r _ => r < 16) (checkCode special code d) := by
  refine push_bind h.inside fun d1 hd1 _ => ?_
  refine allocReg_bind hd1 hd1.scopes_ne_of_pushed fun r d2 hd2 _ hr => ?_
  refine special_bind hd2 hr special fun d3 hd3 _ => ?_
  refine allocReg_bind hd3 hd3.scopes_ne_of_pushed fun t d4 hd4 _ ht => ?_
  refine Run.bind hd4 (loadFloat_run hd4.ready (fun _ => ht) _) fun _ d5 hd5 _ _ => ?_
  refine binary_bind hd5 .eq hr ht fun d6 hd6 _ => ?_
  exact popExcept_bind hd6 hne fun d7 hd7 _ => Run.pure hd7 hr

theorem observe_bind {rest : Lowering β} (h : d0.Inside labels j d) (hrole : role < d.roles.size)
    (hf : ∀ d', d0.Inside labels j d' → d.Extends d' → d.writer.location < d'.writer.location →
      Run P d0 labels' k Q (rest d')) : Run P d0 labels' k Q ((do
      write (emitSync .observeRole role 0 0 0)
      write (emitAsync .pause 0 0 0)
      rest : Lowering β) d) := by
  refine emit_bind h (fun _ => ⟨rfl, nofun, fun _ => hrole⟩) (fun _ _ hfits => ?_) fun d1 hd1 hext1 hlt1 => ?_
  · exact Instr.encodable_sync _ (div_le_maxOperand hrole hfits.roles 16) (Nat.zero_le _) (Nat.zero_le _)
      (Nat.zero_le _)
  · refine async_bind hd1 (by simp) (fun _ _ => ⟨Nat.zero_le _, Nat.zero_le _, Nat.zero_le _⟩) ?_
    exact fun d2 hd2 hext2 hlt2 => hf d2 hd2 (hext1.trans hext2) (Nat.lt_trans hlt1 hlt2)

theorem jump_back {w : CodeWriter} {l o : Nat} (hoffset : w.offset? l = some o) (hlt : o < w.location) :
    l < w.labels.size ∧ w.offset? l ≠ some w.location := by
  obtain ⟨label, hlabel, -⟩ := Option.bind_eq_some_iff.1 hoffset
  grind

theorem loopTop_run (h : d0.Inside [] 0 d) (hpos : 0 < d.writer.location) :
    Passes P d (write (emitJump topLabel none)) := by
  obtain ⟨hlabel, hapart⟩ := jump_back h.ready.sound.procedure.top hpos
  exact Run.tail (emitJump_bind h.ready.inside hlabel hapart nofun fun d1 hd1 _ => Run.pure hd1 trivial)

theorem waitEvent_run (h : d.Ready) (hrole : role < d.roles.size) (code : UInt16) :
    Passes P d (waitEvent role code) := by
  refine newLabel_bind h.inside fun again d1 hd1 hext1 => ?_
  refine bindLabel_bind hd1 fun d2 hd2 hext2 hagain => ?_
  have hrole2 : role < d2.roles.size := (hext1.trans hext2).roles.1 ▸ hrole
  refine observe_bind hd2 hrole2 fun d3 hd3 hext3 hlt => ?_
  refine push_bind hd3 fun d4 hd4 hext4 => ?_
  refine Run.bind hd4 (checkCode_run hd4.ready hd4.scopes_ne_of_pushed _ code) fun hit d5 hd5 hstep5 hhit => ?_
  -- the loop begins in front of what was emitted since
  have hext5 := (hext3.trans hext4).trans hstep5.grown
  have hbefore := Nat.lt_of_lt_of_le hlt (hext4.trans hstep5.grown).location
  obtain ⟨hlabel, hapart⟩ := jump_back (hext5.bound again _ hagain) hbefore
  refine emitJump_bind hd5 hlabel hapart (by rintro r ⟨⟩; exact hhit) fun d6 hd6 _ => ?_
  exact Run.tail (pop_bind hd6 fun d7 hd7 _ => Run.pure hd7 trivial)

theorem handler_run {p : Part} (hp : p.Sound P) (h : d.Ready) (htop : d.atTopLevel = true) {name : String}
    {every : Option UInt32} (hms : ∀ ms, every = some ms → P → ms.toNat + 1 ≤ maxOperand) :
    Run P d [] 0 (fun index d' => ∃ q, d'.procedures[index]? = some q) (handler name every p d) := by
  rw [handler]
  rcases p.expr.arrowParams? with _ | ⟨_ | ⟨param, params⟩⟩
  · exact Run.reject h.inside.toWithin
  · have hfresh : ({ name, numParams := 0 } : Procedure).Fresh := ⟨rfl, rfl, Nat.zero_le _⟩
    refine Visits.bind h htop hfresh ?_ fun d' hd' hindex => Run.pure hd' hindex
    refine nested_inProcedure_visits (h.sound.added hfresh) (getElem?_added_size d _) hfresh
      (Nat.ne_of_gt (mainIndex_lt h.sound)) fun d1 hd1 hne hlevel _ hnum => ?_
    have hparams : ∀ d2, d1.Inside [] 0 d2 → d2.findings.count = 0 → d2.procedure.numParams ≤ d2.procedure.locals.size := by
      intro d2 hd2 _
      rw [hd2.grown.numParams hd1.sound hd2.ready.sound, hnum]
      exact Nat.zero_le _
    cases every with
    | none =>
      refine Finishes.bind hd1.inside (hp.body d1 hd1 hlevel) fun _ d2 hd2 _ _ => ?_
      exact finishes_emitReturn hd2 (hparams d2 hd2)
    | some ms =>
      refine Finishes.bind hd1.inside (emitPause_run hd1 (hms ms rfl)) fun _ d2 hd2 _ hlt => ?_
      have hlevel2 := hd2.grown.atTopLevel.trans hlevel
      refine Finishes.bind hd2 (hp.body d2 hd2.ready hlevel2) fun _ d3 hd3 hstep3 _ => ?_
      have hpos := Nat.lt_of_lt_of_le (Nat.lt_of_le_of_lt (Nat.zero_le _) hlt) hstep3.grown.location
      refine Finishes.bind hd3 (loopTop_run hd3 hpos) fun _ d4 hd4 _ _ => ?_
      exact finishes_emitReturn hd4 (hparams d4 hd4)
  · exact Run.reject h.inside.toWithin

theorem dispatcherOf_run (h : d.Ready) (htop : d.atTopLevel = true) (role : Nat) :
    Run P d [] 0 (fun index d' => ∃ q, d'.procedures[index]? = some q) (dispatcherOf role d) := by
  refine Run.look h.inside.toWithin (roleEntry_looks role) fun entry he => ?_
  cases hdisp : entry.dispatcher with
  | some disp =>
    obtain ⟨p, hp, -⟩ := (h.sound.dispatchers role entry disp he hdisp).procedure
    exact Run.pure h.inside ⟨p, hp⟩
  | none =>
    have hfresh : ({ name := s!"{entry.name}_disp", numParams := 0 } : Procedure).Fresh := ⟨rfl, rfl, Nat.zero_le _⟩
    exact Run.pure (h.inside.dispatched htop he hdisp hfresh rfl) ⟨_, getElem?_added_size d _⟩

/-- Additions to a dispatcher that name handlers which there are. -/
structure Adds (d : Draft) (add : Dispatcher → Dispatcher) : Prop where
  procedure : ∀ disp, (add disp).procedure = disp.procedure
  sound : ∀ d' : Draft, d.Grows d' → ∀ disp, d'.DispatcherSound disp → d'.DispatcherSound (add disp)

theorem subscribe_run (h : d.Ready) (htop : d.atTopLevel = true) (role : Nat)
    {add : Dispatcher → Dispatcher} (hadd : Adds d add) :
    Passes P d (subscribe role add) := by
  refine Run.bind h.inside (dispatcherOf_run h htop role) fun index d1 hd1 _ hindex => ?_
  obtain ⟨q, hq⟩ := hindex
  have hretuned : Retuned fun entry => { entry with dispatcher := entry.dispatcher.map add } :=
    ⟨fun _ => rfl, fun _ => rfl⟩
  have hd2 := hd1.retuned htop hretuned role (fun entry => ?_) fun entry disp he hdisp => ?_
  · exact Run.tail (call_bind hd2 (by decide) hq (Nat.zero_le _) fun d3 hd3 _ => Run.pure hd3 trivial)
  · cases entry.dispatcher with
    | none => rfl
    | some disp => exact congrArg some (hadd.procedure disp)
  · obtain ⟨old, hold, rfl⟩ := Option.map_eq_some_iff.1 hdisp
    exact hadd.sound d1 hd1.grown.toGrows old (hd1.ready.sound.dispatchers role entry old he hold)

theorem mem_append_single {α : Type} {p : α → Prop} {xs : List α} {y : α} (hxs : ∀ x ∈ xs, p x)
    (hy : p y) : ∀ x ∈ xs ++ [y], p x := by
  simpa only [List.mem_append, List.mem_singleton, or_imp, forall_and, forall_eq] using ⟨hxs, hy⟩

theorem procedure_lt (hq : d.procedures[index]? = some q) (hgrows : d.Grows d') : index < d'.procedures.size :=
  Nat.lt_of_lt_of_le (Array.getElem?_eq_some_iff.1 hq).1 hgrows.procedures_le

theorem onEvent_run (hcall : call.Sound P) (h : d.Ready) (role : Nat)
    (packet : PacketSpec) : Passes P d (onEvent role packet call) := by
  refine Run.look h.inside.toWithin (requireTopLevel_looks _) fun _ htop => ?_
  refine Run.look h.inside.toWithin (oneArg_looks _ hcall) fun p ⟨_, hp⟩ => ?_
  refine Run.bind (x := handler s!"{d.roleName role}_{packet.name}" none p) h.inside
    (handler_run hp h htop nofun) fun index d1 hd1 _ hindex => ?_
  obtain ⟨q, hq⟩ := hindex
  refine Run.within hd1 (subscribe_run hd1.ready (hd1.grown.atTopLevel.trans htop) role
    ⟨fun _ => rfl, fun d' hgrows disp hdisp => ?_⟩)
  exact { hdisp with events := mem_append_single hdisp.events (procedure_lt hq hgrows) }

theorem onConnection_run (hcall : call.Sound P) (h : d.Ready) (role : Nat)
    (member : Ident) {add : Nat → Dispatcher → Dispatcher}
    (hadd : ∀ (d' : Draft) (index : Nat) (q : Procedure), d'.procedures[index]? = some q → Adds d' (add index)) :
    Passes P d (onConnection role member call add) := by
  refine Run.look h.inside.toWithin (requireTopLevel_looks _) fun _ htop => ?_
  refine Run.look h.inside.toWithin (oneArg_looks _ hcall) fun p ⟨_, hp⟩ => ?_
  refine Run.bind (x := handler s!"{d.roleName role}_{member.name}" none p) h.inside
    (handler_run hp h htop nofun) fun index d1 hd1 _ hindex => ?_
  obtain ⟨q, hq⟩ := hindex
  exact Run.within hd1 (subscribe_run hd1.ready (hd1.grown.atTopLevel.trans htop) role (hadd d1 index q hq))

theorem onChange_run (hcall : call.Sound P) (h : d.Ready) (role : Nat) (hpacket : d.catalog.Fits → packet.Fits) :
    Passes P d (onChange role packet call) := by
  refine Run.look h.inside.toWithin (requireTopLevel_looks _) fun _ htop => ?_
  refine Run.look h.inside.toWithin (twoArgs_looks _ hcall) fun (limit, p) ⟨_, _, hp⟩ => ?_
  dsimp only
  split
  · exact Run.reject_bind h.inside.toWithin
  · refine Run.look h.inside.toWithin (literalNumber_looks limit) fun threshold _ => ?_
    refine Run.bind (x := handler s!"{d.roleName role}_{packet.name}_change" none p) h.inside
      (handler_run hp h htop nofun) fun index d1 hd1 _ hindex => ?_
    obtain ⟨q, hq⟩ := hindex
    have hretuned : Retuned (·.refresh packet) := by
      constructor <;> intro entry <;> rw [RoleEntry.refresh] <;> split <;> rfl
    have hsame : ∀ entry : RoleEntry, (entry.refresh packet).dispatcher = entry.dispatcher := by
      intro entry
      rw [RoleEntry.refresh]
      split <;> rfl
    have hd2 := hd1.retuned htop hretuned role (fun entry => by rw [hsame])
      fun entry disp he hdisp => hd1.ready.sound.dispatchers role entry disp he (hsame entry ▸ hdisp)
    change Run P d [] 0 _ (subscribe role _ (d1.modifyRole role (·.refresh packet)))
    refine Run.within hd2 (subscribe_run hd2.ready (hd2.grown.atTopLevel.trans htop) role
      ⟨fun _ => rfl, fun d' hgrows disp hdisp => ?_⟩)
    refine { hdisp with watches := mem_append_single hdisp.watches ⟨procedure_lt hq ((hretuned.grows d1 role).trans hgrows), ?_⟩ }
    exact fun hfits => hpacket (hd2.grown.catalog ▸ hgrows.catalog ▸ hfits)

theorem noResult_run {act : Lowering Unit} (hact : Passes P d act)
    (h : d.Ready) : Run P d [] 0 (fun v d' => v.Sound d') (noResult act d) :=
  Run.bind h.inside hact fun _ _ hd' _ _ => Run.pure hd' trivial

theorem adds_connected (hq : d'.procedures[index]? = some q) :
    Adds d' fun disp => { disp with connected := disp.connected ++ [index] } :=
  ⟨fun _ => rfl, fun _ hgrows _ hdisp =>
    { hdisp with connected := mem_append_single hdisp.connected (procedure_lt hq hgrows) }⟩

theorem adds_disconnected (hq : d'.procedures[index]? = some q) :
    Adds d' fun disp => { disp with disconnected := disp.disconnected ++ [index] } :=
  ⟨fun _ => rfl, fun _ hgrows _ hdisp =>
    { hdisp with disconnected := mem_append_single hdisp.disconnected (procedure_lt hq hgrows) }⟩

theorem callRoleMethod_run (hcall : call.Sound P) (h : d.Ready)
    (hne : d.writer.scopes ≠ []) (role : Nat) (member : Ident) :
    Run P d [] 0 (fun v d' => v.Sound d') (callRoleMethod role member call d) := by
  refine Run.look h.inside.toWithin (roleEntry_looks role) fun entry he => ?_
  have hrole : role < d.roles.size := (Array.getElem?_eq_some_iff.1 he).1
  change Runs P d _ _
  split
  · refine Run.look h.inside.toWithin (requireArgs_looks _ call 0) fun _ _ => ?_
    refine Run.bind h.inside (loadConnected_run h hne hrole) fun r d1 hd1 _ hr => ?_
    exact Run.pure hd1 hr
  · exact noResult_run (onConnection_run hcall h role member fun _ _ _ => adds_connected) h
  · exact noResult_run (onConnection_run hcall h role member fun _ _ _ => adds_disconnected) h
  · split
    · refine Run.look h.inside.toWithin (requireArgs_looks _ call 0) fun _ _ => ?_
      refine Run.get_bind ?_
      change Runs P d _ _
      split
      · exact noResult_run (waitEvent_run h hrole _) h
      · exact Run.reject h.inside.toWithin
    · refine Run.look h.inside.toWithin (roleMember_looks h.sound role member) fun v hv => ?_
      change Runs P d _ _
      split
      · exact noResult_run (send_run hcall h hrole hv.2 _) h
      · exact Run.reject h.inside.toWithin

theorem callMethod_run {object : Value} (hobject : object.Sound d)
    (hcall : call.Sound P) (h : d.Ready) (hne : d.writer.scopes ≠ []) (member : Ident) :
    Run P d [] 0 (fun v d' => v.Sound d') (callMethod object member call d) := by
  change Runs P d _ _
  rw [callMethod.eq_def]
  cases object with
  | role role => exact callRoleMethod_run hcall h hne role member
  | event role packet | command role packet =>
    dsimp only
    split
    · exact noResult_run (onEvent_run hcall h role packet) h
    · refine Run.look h.inside.toWithin (requireArgs_looks _ call 0) fun _ _ => ?_
      exact noResult_run (waitEvent_run h hobject.1 _) h
    · exact Run.reject h.inside.toWithin
  | register role packet =>
    dsimp only
    split
    · refine Run.look h.inside.toWithin (requireArgs_looks _ call 0) fun _ _ => ?_
      exact readRegister_run h hne hobject.1 hobject.2 call.span
    · split
      · exact noResult_run (send_run hcall h hobject.1 hobject.2 _) h
      · exact Run.reject h.inside.toWithin
    · exact noResult_run (onChange_run hcall h role hobject.2) h
    · exact Run.reject h.inside.toWithin
  | _ => exact Run.reject h.inside.toWithin

end Lowering

end BusScript
