import BusScript.Proofs.LoweredBus

namespace BusScript

open CodeWriter Draft

namespace Lowering

open Run

variable {P : Prop} {d : Draft}

theorem applyUnary_run {p : Part} (hp : p.Sound P) (h : d.Ready) (hne : d.writer.scopes ≠ [])
    (op : UnaryOp) : Run P d [] 0 (fun r _ => r < 16) (applyUnary op p d) := by
  refine push_bind h.inside fun d1 hd1 _ => ?_
  refine Run.bind hd1 (inReg_run hp hd1.ready hd1.scopes_ne_of_pushed) fun r d2 hd2 _ hr => ?_
  refine unary_bind hd2 op hr hr fun d3 hd3 _ => ?_
  exact popExcept_bind hd3 hne fun d4 hd4 _ => Run.pure hd4 hr

variable {args : List Part}

/-- Operands stand in the argument registers when a function of the machine is applied. -/
theorem applyMath_run (hargs : ∀ p ∈ args, p.Sound P) (h : d.Ready)
    (hne : d.writer.scopes ≠ []) {op : SyncOp} {code : Nat} {first last : Option Number}
    (hcount : P → args.length + 2 ≤ 16)
    (hop : op = .math1 ∧ (∃ f : Math1, code = f.code) ∨ op = .math2 ∧ ∃ f : Math2, code = f.code) :
    Run P d [] 0 (fun r _ => r < 16) (applyMath op code first args last d) := by
  refine push_bind h.inside fun d1 hd1 _ => ?_
  refine Run.bind hd1 (numbers_run hargs hd1.ready hd1.scopes_ne_of_pushed) ?_
  intro values d2 hd2 _ ⟨hlen, hvalues⟩
  have hpass : Passes P d2 (passValues (first.toList.map .float ++ values ++ last.toList.map .float)) := by
    refine passValues_run hd2.ready hd2.scopes_ne_of_pushed (fun hp => ?_) fun v hv => ?_
    · grind
    · simp only [List.mem_append, List.mem_map] at hv
      rcases hv with (⟨x, -, rfl⟩ | hv) | ⟨x, -, rfl⟩
      · trivial
      · exact hvalues v hv
      · trivial
  refine Run.bind hd2 hpass fun _ d3 hd3 _ _ => ?_
  refine emit_bind hd3 (fun _ => ?_) (fun _ _ _ => ?_) fun d4 hd4 _ _ => ?_
  · rcases hop with ⟨rfl, f, rfl⟩ | ⟨rfl, f, rfl⟩
    · exact ⟨by cases f <;> rfl, nofun, fun _ => ⟨f, rfl⟩⟩
    · exact ⟨by cases f <;> rfl, nofun, fun _ => ⟨f, rfl⟩⟩
  · have hcode : code ≤ 16 := by
      rcases hop with ⟨-, f, rfl⟩ | ⟨-, f, rfl⟩ <;> cases f <;> decide
    exact Instr.encodable_sync op (Nat.le_trans (Nat.div_le_self _ _) (Nat.le_trans hcode (by decide)))
      (Nat.zero_le _) (Nat.zero_le _) (Nat.zero_le _)
  · refine pop_bind hd4 fun d5 hd5 _ => ?_
    refine allocReg_bind hd5 (hd5.scopes_ne hne) fun r d6 hd6 _ hr => ?_
    exact unary_bind hd6 .id hr (by decide) fun d7 hd7 _ => Run.pure hd7 hr

theorem applyPrimitive_run (hargs : ∀ p ∈ args, p.Sound P) (h : d.Ready)
    (hne : d.writer.scopes ≠ []) (f : Math.Function) (hcount : P → args.length + 2 ≤ 16) :
    Run P d [] 0 (fun r _ => r < 16) (applyPrimitive f args d) := by
  change Runs P d _ _
  rw [applyPrimitive]
  split
  · split
    · exact applyUnary_run (hargs _ (by simp)) h hne _
    · exact Run.reject h.inside.toWithin
  · exact applyMath_run hargs h hne hcount (.inl ⟨rfl, _, rfl⟩)
  · exact applyMath_run hargs h hne hcount (.inr ⟨rfl, _, rfl⟩)

theorem applyFunction_run (hargs : ∀ p ∈ args, p.Sound P) (h : d.Ready)
    (hne : d.writer.scopes ≠ []) (f : Math.Function) (hcount : P → args.length + 2 ≤ 16) :
    Run P d [] 0 (fun r _ => r < 16) (applyFunction f args d) := by
  refine Run.bind h.inside (applyPrimitive_run hargs h hne f hcount) fun r d1 hd1 _ hr => ?_
  cases f.scale with
  | none => exact Run.pure hd1 hr
  | some factor =>
    refine push_bind hd1 fun d2 hd2 _ => ?_
    refine allocReg_bind hd2 hd2.scopes_ne_of_pushed fun t d3 hd3 _ ht => ?_
    refine Run.bind hd3 (loadFloat_run hd3.ready (fun _ => ht) factor) fun _ d4 hd4 _ _ => ?_
    refine binary_bind hd4 .mul hr ht fun d5 hd5 _ => ?_
    exact pop_bind hd5 fun d6 hd6 _ => Run.pure hd6 hr

theorem numArgs_le {name : String} {f : Math.Function} (h : Math.function? name = some f) : f.numArgs ≤ 2 := by
  rw [Math.function?.eq_def] at h
  split at h <;> cases h <;> decide

variable {call : CallSite}

theorem callMath_run (hcall : call.Sound P) (h : d.Ready) (hne : d.writer.scopes ≠ []) (name : String) :
    Run P d [] 0 (fun v d' => v.Sound d') (callMath name call d) := by
  rw [callMath]
  cases hf : Math.function? name with
  | none => exact Run.reject h.inside.toWithin
  | some f =>
    refine Run.look h.inside.toWithin (requireArgs_looks _ call f.numArgs) fun _ hlen => ?_
    have hroom : P → call.args.length + 2 ≤ 16 := fun _ => by
      have := numArgs_le hf
      omega
    refine Run.bind h.inside (applyFunction_run hcall h hne f hroom) fun r d1 hd1 _ hr => ?_
    exact Run.pure hd1 hr

/-- The milliseconds of `wait(seconds)`; the machine pauses for one more. -/
def waitMillis (seconds : Number) : UInt32 :=
  let ms := seconds * 1000
  (if 0 < ms then ms else 0).toUInt32

/-- The milliseconds between two runs of `every(seconds, …)`. -/
def everyMillis (seconds : Number) : UInt32 := ((seconds * 1000).round .nearestAway).toUInt32

theorem callWait_run (h : d.Ready) (hcall : call.Sound P)
    (hlimit : P → ∀ p x, call.args = [p] → p.expr.signedNumber? = some x →
      (waitMillis x).toNat + 1 ≤ maxOperand) : Passes P d (callWait call) := by
  refine Run.look h.inside.toWithin (oneArg_looks _ hcall) fun p ⟨hargs, _⟩ => ?_
  refine Run.look h.inside.toWithin (literalNumber_looks p) fun x hx => ?_
  exact (emitPause_run h fun hp => hlimit hp p x hargs hx).mono fun _ _ _ _ => trivial

theorem callEvery_run (h : d.Ready) (hcall : call.Sound P)
    (hlimit : P → ∀ p q x, call.args = [p, q] → p.expr.signedNumber? = some x →
      (everyMillis x).toNat + 1 ≤ maxOperand) : Passes P d (callEvery call) := by
  refine Run.look h.inside.toWithin (requireTopLevel_looks _) fun _ htop => ?_
  refine Run.look h.inside.toWithin (twoArgs_looks _ hcall) fun (period, p) ⟨hargs, _, hp⟩ => ?_
  refine Run.look h.inside.toWithin (literalNumber_looks period) fun x hx => ?_
  dsimp only
  split
  · exact Run.reject_bind h.inside.toWithin
  · have hms : ∀ ms, some (everyMillis x) = some ms → P → ms.toNat + 1 ≤ maxOperand := by simp_all
    refine Run.bind h.inside (handler_run hp h htop hms) fun index d1 hd1 _ hindex => ?_
    obtain ⟨q, hq⟩ := hindex
    exact Run.tail (call_bind hd1 (by decide) hq (Nat.zero_le _) fun d2 hd2 _ => Run.pure hd2 trivial)

theorem callUpload_run (h : d.Ready) (hcall : call.Sound P)
    (hlimit : P → call.args.length ≤ 17) : Passes P d (callUpload call) := by
  rw [callUpload]
  rcases hargs : call.args with _ | ⟨label, rest⟩
  · exact Run.reject h.inside.toWithin
  · rw [hargs, List.length_cons] at hlimit
    refine Run.look h.inside.toWithin (literalString_looks label) fun text _ => ?_
    refine push_bind h.inside fun d1 hd1 _ => ?_
    have hrest : ∀ p ∈ rest, p.Sound P := fun p hp => hcall p (by simp [hargs, hp])
    have hpass := passArgs_run hrest hd1.ready hd1.scopes_ne_of_pushed fun hp => Nat.le_of_succ_le_succ (hlimit hp)
    refine Run.bind hd1 hpass fun _ d2 hd2 _ _ => ?_
    refine Run.bind hd2 (loadText_run hd2.ready hd2.scopes_ne_of_pushed text) fun _ d3 hd3 _ _ => ?_
    refine pop_bind hd3 fun d4 hd4 _ => Run.tail (async_bind hd4 (by simp) (fun hp _ => ?_) ?_)
    · have hle := hlimit hp
      simp only [maxOperand]
      omega
    · exact fun d5 hd5 _ _ => Run.pure hd5 trivial

theorem passTemplate_run (h : d.Ready) (hcall : call.Sound P) (name : String) (hlimit : P → call.args.length ≤ 17) :
    Run P d [] 0 (fun r d' => r.1 < d'.strings.size ∧ (P → r.2 ≤ 16)) (passTemplate name call d) := by
  rw [passTemplate]
  rcases hargs : call.args with _ | ⟨template, rest⟩
  · exact Run.reject h.inside.toWithin
  · rw [hargs, List.length_cons] at hlimit
    refine Run.look h.inside.toWithin (literalString_looks template) fun text _ => ?_
    refine Run.bind h.inside (stringLiteral_run h text) fun index d1 hd1 _ hindex => ?_
    refine push_bind hd1 fun d2 hd2 hext2 => ?_
    have hrest : ∀ p ∈ rest, p.Sound P := fun p hp => hcall p (by simp [hargs, hp])
    have hpass := passArgs_run hrest hd2.ready hd2.scopes_ne_of_pushed fun hp => Nat.le_of_succ_le_succ (hlimit hp)
    refine Run.bind hd2 hpass fun _ d3 hd3 hstep3 _ => ?_
    refine pop_bind hd3 fun d4 hd4 hext4 => Run.pure hd4 ⟨?_, fun hp => Nat.le_of_succ_le_succ (hlimit hp)⟩
    exact Nat.lt_of_lt_of_le hindex ((hext2.trans hstep3.grown).trans hext4).strings_le

theorem template_encodable {op : SyncOp} {index count : Nat} (hindex : index < d.strings.size)
    (hcount : count ≤ 16) (hfits : d.Fits) : (Instr.sync op index count 0 0).Encodable :=
  Instr.encodable_sync op (div_le_maxOperand hindex hfits.strings 16) (Nat.le_trans hcount (by decide))
    (Nat.zero_le _) (Nat.zero_le _)

theorem callPrint_run (h : d.Ready) (hcall : call.Sound P)
    (hlimit : P → call.args.length ≤ 17) : Passes P d (callPrint call) := by
  refine Run.bind h.inside (passTemplate_run h hcall "print" hlimit) ?_
  rintro ⟨index, count⟩ d1 hd1 _ ⟨hindex, hcount⟩
  exact emit_run hd1 (fun _ => ⟨rfl, nofun, fun _ => hindex⟩)
    fun hp _ hfits => template_encodable hindex (hcount hp) hfits

theorem callFormat_run (h : d.Ready) (hne : d.writer.scopes ≠ [])
    (hcall : call.Sound P) (hlimit : P → call.args.length ≤ 17) :
    Run P d [] 0 (fun v d' => v.Sound d') (callFormat call d) := by
  refine Run.bind h.inside (passTemplate_run h hcall "format" hlimit) ?_
  rintro ⟨index, count⟩ d1 hd1 _ ⟨hindex, hcount⟩
  refine allocBuffer_bind hd1 (hd1.scopes_ne hne) fun d2 hd2 hext2 => ?_
  refine setupBuffer_bind hd2 (Nat.zero_le _) fun d3 hd3 hext3 => ?_
  have hindex3 := Nat.lt_of_lt_of_le hindex (hext2.trans hext3).strings_le
  refine emit_bind hd3 (fun _ => ⟨rfl, nofun, fun _ => ⟨hindex3, Nat.zero_le _⟩⟩)
    (fun hp _ hfits => template_encodable hindex3 (hcount hp) hfits) ?_
  exact fun d4 hd4 _ _ => Run.pure hd4 trivial

theorem panic_run (h : d.Ready) {code : Nat} (hcode : code ≤ 9999) :
    Passes P d (write (emitSync .panic code 0 0 0)) := by
  refine emit_run h.inside (fun _ => ⟨rfl, ?_, fun _ => trivial⟩) fun _ _ _ => ?_
  · rintro a x y z ⟨⟩
    exact hcode
  · exact Instr.encodable_sync _ (Nat.le_trans (Nat.div_le_self _ _) (Nat.le_trans hcode (by decide)))
      (Nat.zero_le _) (Nat.zero_le _) (Nat.zero_le _)

theorem callPanic_run (h : d.Ready) (hcall : call.Sound P) : Passes P d (callPanic call) := by
  refine Run.look h.inside.toWithin (oneArg_looks _ hcall) fun p _ => ?_
  refine Run.look h.inside.toWithin (literalNumber_looks p) fun code _ => ?_
  change Runs P d _ _
  split
  · next hrange =>
    simp only [Bool.and_eq_true, decide_eq_true_eq] at hrange
    exact panic_run h (Number.toUInt32_le_9999 hrange.2)
  · exact Run.reject h.inside.toWithin

theorem callReboot_run (h : d.Ready) : Passes P d (callReboot call) := by
  refine Run.look h.inside.toWithin (requireArgs_looks _ call 0) fun _ _ => ?_
  exact panic_run h (by decide)

theorem callDeclared_run (h : d.Ready) (hne : d.writer.scopes ≠ []) (hcall : call.Sound P) (index : Nat) :
    Run P d [] 0 (fun v d' => v.Sound d') (callDeclared index call d) := by
  refine Run.get_bind ?_
  cases hf : d.functions[index]? with
  | none => exact Run.reject h.inside.toWithin
  | some f =>
    obtain ⟨hparams, q, hq, hnum⟩ := h.sound.functions index f hf
    refine Run.look h.inside.toWithin (requireArgs_looks _ call _) fun _ hlen => ?_
    refine push_bind h.inside fun d1 hd1 hext1 => ?_
    have hcount : P → call.args.length ≤ 16 := fun _ => hlen ▸ Nat.le_trans hparams (by decide)
    refine Run.bind hd1 (passArgs_run hcall hd1.ready hd1.scopes_ne_of_pushed hcount) fun _ d2 hd2 hstep2 _ => ?_
    refine pop_bind hd2 fun d3 hd3 hext3 => ?_
    obtain ⟨q', hq', hnum', -⟩ := hd3.grown.procedures f.procedure q hq
    have hargs : f.numParams < 16 := Nat.lt_of_le_of_lt hparams (by decide)
    refine call_bind hd3 hargs hq' (Nat.le_of_eq (hnum'.trans hnum).symm) fun d4 hd4 _ => ?_
    refine allocReg_bind hd4 (hd4.scopes_ne hne) fun r d5 hd5 _ hr => ?_
    exact unary_bind hd5 .id hr (by decide) fun d6 hd6 _ => Run.pure hd6 hr

theorem callNamed_run (h : d.Ready) (hne : d.writer.scopes ≠ []) (hcall : call.Sound P) (id : Ident) :
    Run P d [] 0 (fun v d' => v.Sound d') (callNamed id call d) := by
  rw [callNamed]
  refine Run.get_bind ?_
  change Runs P d _ _
  split
  · exact callDeclared_run h hne hcall _
  · exact Run.reject h.inside.toWithin
  · exact Run.reject h.inside.toWithin

/-- Whether a call asks no more than instructions can hold of the functions that every script has: of a
pause its milliseconds, and of texts a register for each argument behind the text. -/
def callWithinLimits (name : String) (args : List Expr) : Bool :=
  match name with
  | "wait" => (args.head?.bind (·.signedNumber?)).all fun x => (waitMillis x).toNat < maxOperand
  | "every" => (args.head?.bind (·.signedNumber?)).all fun x => (everyMillis x).toNat < maxOperand
  | "print" => args.length ≤ 17
  | "format" => args.length ≤ 17
  | "upload" => args.length ≤ 17
  | _ => true

theorem callFunction_run (h : d.Ready) (hne : d.writer.scopes ≠ []) (hcall : call.Sound P) {id : Ident}
    (hlimits : P → callWithinLimits id.name (call.args.map (·.expr)) = true) :
    Run P d [] 0 (fun v d' => v.Sound d') (callFunction id call d) := by
  change Runs P d _ _
  rw [callFunction.eq_def]
  split
  · next hname =>
    refine noResult_run (callWait_run h hcall fun hp p x hargs hx => ?_) h
    exact Nat.succ_le_of_lt (by simpa [callWithinLimits, hname, hargs, hx] using hlimits hp)
  · next hname =>
    refine noResult_run (callEvery_run h hcall fun hp p q x hargs hx => ?_) h
    exact Nat.succ_le_of_lt (by simpa [callWithinLimits, hname, hargs, hx] using hlimits hp)
  · next hname =>
    refine noResult_run (callUpload_run h hcall fun hp => ?_) h
    simpa [callWithinLimits, hname] using hlimits hp
  · next hname =>
    refine noResult_run (callPrint_run h hcall fun hp => ?_) h
    simpa [callWithinLimits, hname] using hlimits hp
  · next hname =>
    refine callFormat_run h hne hcall fun hp => ?_
    simpa [callWithinLimits, hname] using hlimits hp
  · exact noResult_run (callPanic_run h hcall) h
  · exact noResult_run (callReboot_run h) h
  · refine Run.look h.inside.toWithin (oneArg_looks _ hcall) fun p hp => ?_
    refine Run.bind h.inside (applyUnary_run hp.2 h hne .isNan) fun r d1 hd1 _ hr => Run.pure hd1 hr
  · exact Run.reject h.inside.toWithin
  · exact callNamed_run h hne hcall id

theorem callMember_run {object : Part} (hobject : object.Sound P) (h : d.Ready)
    (hne : d.writer.scopes ≠ []) (hcall : call.Sound P) (member : Ident) :
    Run P d [] 0 (fun v d' => v.Sound d') (callMember object member call d) := by
  change Runs P d _ _
  rw [callMember]
  split
  · exact callMath_run hcall h hne member.name
  · change Runs P d _ (if object.expr.isNamed "roles" && (d.resolve? "roles").isNone then
        rejectAt call.span (.topLevelOnly "role declaration")
      else do
        let value ← object.value
        callMethod value member call)
    split
    · exact Run.reject h.inside.toWithin
    · refine Run.bind h.inside (hobject.value d h hne) fun v d1 hd1 _ hv => ?_
      exact Run.within hd1 (callMethod_run hv hcall hd1.ready (hd1.scopes_ne hne) member)

end Lowering

end BusScript
