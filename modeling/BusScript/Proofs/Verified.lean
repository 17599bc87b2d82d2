import BusScript.Proofs.Stream

namespace BusScript

theorem Except.bind_ok_iff {ε α β : Type} {x : Except ε α} {f : α → Except ε β} {b : β} :
    (x >>= f) = .ok b ↔ ∃ a, x = .ok a ∧ f a = .ok b := by
  cases x <;> simp [bind, Except.bind]

namespace Image

open Body

variable {image : Image} {f : FunctionInfo} {w : Word} {p : Operands}

@[simp] theorem ensure_iff {condition : Bool} {flaw : InstructionFlaw} {u : Unit} :
    ensure condition flaw = .ok u ↔ condition = true := by
  cases condition <;> simp [ensure]

theorem checkSaved_iff {mask : Nat} :
    checkSaved f mask = .ok () ↔ mask ≤ 0xffff ∧ (RegSet.mk mask).size ≤ f.numRegs := by
  simp [checkSaved, Except.bind_ok_iff]

theorem checkCell_iff {isStore : Bool} : checkCell image f p isStore = .ok () ↔
      ∃ kind, CellKind.ofCode? (p.a % 256) = some kind ∧ (isStore = true → CellKind.isStorable kind = true) ∧
        cellExists image f kind p = .ok true := by
  rw [checkCell]
  cases CellKind.ofCode? (p.a % 256) with
  | none => simp [throw, throwThe, MonadExceptOf.throw]
  | some kind =>
    have himp : (!isStore || CellKind.isStorable kind) = true ↔ (isStore = true → CellKind.isStorable kind = true) := by
      cases isStore <;> simp
    simp [Except.bind_ok_iff, himp]

theorem checkCall_iff : checkCall image f w p = .ok () ↔ ∃ kind callee, CallKind.ofCode? w.kind2 = some kind ∧
        image.functions[p.b]? = some callee ∧ w.high4 ≤ callee.numLocals ∧
        if kind = .sync then checkSaved f p.d = .ok () else p.d = 0 := by
  rw [checkCall]
  cases CallKind.ofCode? w.kind2 with
  | none => simp [throw, throwThe, MonadExceptOf.throw]
  | some kind =>
    cases image.functions[p.b]? with
    | none => simp [throw, throwThe, MonadExceptOf.throw]
    | some callee =>
      by_cases hsync : kind = .sync <;> simp [Except.bind_ok_iff, hsync]

structure Checked (image : Image) (f : FunctionInfo) (body : Array Word) : Prop where
  word : ∀ n w, body[n]? = some w → w.isOperandPrefix = false →
    checkWord image f body.size n w ((operandsAt body n).resolve w) = .ok ()
  closed : startsAt body body.size = true

theorem forall_from_iff {body : Array Word} {pc : Nat} {P : Nat → Word → Prop} (hw : body[pc]? = some w) :
    (∀ n v, pc ≤ n → body[n]? = some v → P n v) ↔ P pc w ∧ ∀ n v, pc + 1 ≤ n → body[n]? = some v → P n v := by grind

/-- The check from word `pc` on, if `collected` is what the words in front of `pc` leave. -/
theorem checkWords_iff {body : Array Word} {words : List Word}
    {pc length : Nat} {collected : Option Operands} (hwords : words = body.toList.drop pc)
    (hle : pc ≤ body.size) (hcollected : collected.getD {} = operandsAt body pc)
    (hstart : collected.isNone = startsAt body pc) : checkWords image f length pc collected words = .ok () ↔
      (∀ n w, pc ≤ n → body[n]? = some w → w.isOperandPrefix = false →
        checkWord image f length n w ((operandsAt body n).resolve w) = .ok ()) ∧
      startsAt body body.size = true := by
  induction words generalizing pc collected with
  | nil =>
    have hpc : pc = body.size := by
      have := List.drop_eq_nil_iff.1 hwords.symm
      simp at this
      omega
    subst hpc
    have hnone : ∀ n w, body.size ≤ n → body[n]? = some w → False := by simp_all
    cases collected with
    | none =>
      rw [← hstart]
      simp only [checkWords, pure, Except.pure, Option.isNone_none, and_true, true_iff]
      simp_all
    | some p =>
      rw [← hstart]
      simp [checkWords, throw, throwThe, MonadExceptOf.throw]
  | cons w rest ih =>
    have hw : body[pc]? = some w := by
      have hget : (body.toList.drop pc)[0]? = some w := by rw [← hwords]; rfl
      simpa using hget
    have hrest : rest = body.toList.drop (pc + 1) := by
      rw [← List.tail_drop, ← hwords]
      rfl
    have hlt : pc < body.size := by grind
    rw [checkWords, forall_from_iff hw]
    cases habsorb : (collected.getD {}).absorb? w with
    | some p =>
      have hpre : w.isOperandPrefix = true :=
        Operands.absorb?_isSome_iff.1 (by rw [habsorb]; rfl)
      simp only
      rw [ih hrest (by omega) (by rw [operandsAt_succ hw, ← hcollected, habsorb]) (by rw [startsAt_succ hw, hpre]; rfl)]
      simp [hpre]
    | none =>
      have hpre := Operands.absorb?_eq_none_iff.1 habsorb
      simp only [hcollected]
      cases hcheck : checkWord image f length pc w ((operandsAt body pc).resolve w) with
      | error flaw => simp [hpre, throw, throwThe, MonadExceptOf.throw]
      | ok _ =>
        simp only
        rw [ih hrest (by omega) (by rw [operandsAt_succ hw, ← hcollected, habsorb])
          (by rw [startsAt_succ hw, hpre]; rfl)]
        simp

variable {index : Nat}

theorem checkBody_iff : checkBody image index f = .ok () ↔ Checked image f (image.body f) := by
  have hiff : checkWords image f (image.body f).size 0 none (image.body f).toList = .ok () ↔ _ :=
    checkWords_iff rfl (Nat.zero_le _) rfl rfl
  rw [checkBody]
  constructor
  · intro h
    cases hwords : checkWords image f (image.body f).size 0 none (image.body f).toList with
    | ok _ =>
      obtain ⟨hword, hclosed⟩ := hiff.1 hwords
      exact ⟨fun n w => hword n w (by omega), hclosed⟩
    | error e =>
      simp [hwords] at h
  · intro h
    have hwords := hiff.2 ⟨fun n w _ => h.word n w, h.closed⟩
    simp [hwords]

theorem checkFunctions_cons_iff {rest : List FunctionInfo} {next stop : Nat} :
    checkFunctions image next index (f :: rest) = .ok stop ↔
      f.code.start = next ∧ f.code.len ≠ 0 ∧ f.numRegs ≤ 16 ∧ Checked image f (image.body f) ∧
        checkFunctions image f.code.stop (index + 1) rest = .ok stop := by
  have hbody : (∃ a, checkBody image index f = .ok a ∧ checkFunctions image f.code.stop (index + 1) rest = .ok stop) ↔
      Checked image f (image.body f) ∧ checkFunctions image f.code.stop (index + 1) rest = .ok stop := by
    rw [← checkBody_iff]
    exact ⟨fun ⟨_, h⟩ => h, fun h => ⟨(), h⟩⟩
  rw [checkFunctions]
  by_cases hstart : f.code.start = next <;> by_cases hlen : f.code.len = 0 <;>
    by_cases hregs : f.numRegs ≤ 16 <;>
    simp [hstart, hlen, hregs, Nat.not_lt.2, Nat.lt_of_not_le, Except.bind_ok_iff, hbody, throw,
      throwThe, MonadExceptOf.throw]

theorem checked_of_checkFunctions {functions : List FunctionInfo}
    {next stop : Nat} (h : checkFunctions image next index functions = .ok stop) :
    ∀ f ∈ functions, Checked image f (image.body f) := by
  induction functions generalizing next index with
  | nil => simp
  | cons f rest ih =>
    obtain ⟨-, -, -, hbody, hrest⟩ := checkFunctions_cons_iff.1 h
    grind

theorem checked_of_verify (h : image.verify = .ok ()) (hf : image.functions[index]? = some f) :
    Checked image f (image.body f) := by
  rw [verify] at h
  simp only [Except.bind_ok_iff] at h
  obtain ⟨_, _, stop, hfunctions, _⟩ := h
  refine checked_of_checkFunctions hfunctions f ?_
  grind

end Image

end BusScript
