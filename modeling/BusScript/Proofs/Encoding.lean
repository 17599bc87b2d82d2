import Mathlib.Algebra.Ring.Nat
import BusScript.Code.Instr
import BusScript.Proofs.Stream

namespace BusScript

/-- Whether a defect is one of size: something is larger than its place in the code. A field shifted past its
width is one of a catalog that does not fit. -/
def Defect.IsLimit (fits : Prop) : Defect → Prop
  | .wordOperand _ | .prefixOperand _ | .jumpTooFar _ | .registerNumber | .pauseOverflow
  | .rejectedImage _ => True
  | .shiftPastWidth _ => ¬ fits
  | _ => False

namespace Word

variable {cls : OpClass} {arg : Nat}

theorem val_make (h : arg ≤ 0xfff) : (make cls arg).val = cls.code * 4096 + arg := by
  have hcode : cls.code ≤ 12 := by cases cls <;> decide
  rw [make, val, Nat.toUInt16, UInt16.toNat_ofNat']
  exact Nat.mod_eq_of_lt (by omega)

theorem opClass?_make (h : arg ≤ 0xfff) : (make cls arg).opClass? = some cls := by
  rw [opClass?, val_make h, show (cls.code * 4096 + arg) / 4096 = cls.code by omega]
  exact OpClass.ofCode?_code cls

theorem arg12_make (h : arg ≤ 0xfff) : (make cls arg).arg12 = arg := by
  rw [arg12, val_make h]
  omega

theorem isOperandPrefix_make (h : arg ≤ 0xfff) : (make cls arg).isOperandPrefix = cls.isOperandPrefix := by
  rw [isOperandPrefix, OpClass.isOperandPrefix, val_make h,
    show (cls.code * 4096 + arg) / 4096 = cls.code by omega]

end Word

namespace Operands

def collect (p : Operands) (front : List Word) : Operands :=
  front.foldl (fun p w => (p.absorb? w).getD p) p

theorem collect_append (p : Operands) (front more : List Word) :
    p.collect (front ++ more) = (p.collect front).collect more := by
  simp [collect, List.foldl_append]

theorem collect_cons {p q : Operands} {w : Word} {front : List Word} (h : p.absorb? w = some q) :
    p.collect (w :: front) = q.collect front := by
  simp [collect, h]

end Operands

theorem or_eq_add {x y : Nat} (k : Nat) (h : y < 2 ^ k) : x * 2 ^ k ||| y = x * 2 ^ k + y := by
  rw [← Nat.shiftLeft_eq, Nat.shiftLeft_add_eq_or_of_lt h]

namespace Instr

def operandPart (set : OpClass) (slot operand : Nat) : List Word :=
  if operand = 0 then []
  else
    Word.make set (operand % 4096) ::
      if operand / 4096 = 0 then [] else [Word.make .setHigh (slot * 1024 + operand / 4096)]

theorem operandWords_eq {set : OpClass} {slot operand : Nat} (hslot : slot < 4) (h : operand ≤ maxOperand) :
    operandWords set slot operand = (operandPart set slot operand).map .ok := by
  rw [maxOperand] at h
  unfold operandWords operandPart
  by_cases hzero : operand = 0
  · simp [hzero]
  · by_cases hhigh : operand / 4096 = 0
    · simp [hzero, hhigh, maxOperand, Nat.not_lt.2 h, word]
      omega
    · simp [hzero, hhigh, maxOperand, Nat.not_lt.2 h, word]
      omega

theorem mem_operandPart {set : OpClass} {slot operand : Nat} (hset : set.isOperandPrefix = true)
    (hslot : slot < 4) (h : operand ≤ maxOperand) :
    ∀ w ∈ operandPart set slot operand, w.isOperandPrefix = true := by
  intro w hw
  rw [maxOperand] at h
  unfold operandPart at hw
  split at hw
  · cases hw
  · rcases List.mem_cons.1 hw with rfl | hw
    · rw [Word.isOperandPrefix_make (by omega)]
      exact hset
    · split at hw
      · cases hw
      · rw [List.mem_singleton] at hw
        rw [hw, Word.isOperandPrefix_make (by omega)]
        rfl

theorem low_or_high (operand : Nat) : operand % 4096 ||| operand / 4096 * 4096 = operand := by
  have hor : operand / 4096 * 4096 ||| operand % 4096 = operand / 4096 * 4096 + operand % 4096 :=
    or_eq_add 12 (Nat.mod_lt _ (by decide))
  rw [Nat.or_comm, hor]
  omega

def slotClass : Nat → OpClass
  | 0 => .setA
  | 1 => .setB
  | 2 => .setC
  | _ => .setD

end Instr

namespace Operands

def put (p : Operands) (slot x : Nat) : Operands :=
  match slot with
  | 0 => { p with a := x }
  | 1 => { p with b := x }
  | 2 => { p with c := x }
  | _ => { p with d := x }

variable {p : Operands} {slot x y : Nat}

theorem absorb?_slotClass (hslot : slot < 4) (hx : x ≤ 0xfff) :
    p.absorb? (Word.make (Instr.slotClass slot) x) = some (p.put slot x) := by
  rw [absorb?, Word.opClass?_make hx, Word.arg12_make hx]
  obtain rfl | rfl | rfl | rfl : slot = 0 ∨ slot = 1 ∨ slot = 2 ∨ slot = 3 := by omega
  all_goals rfl

theorem absorb?_setHigh (hslot : slot < 4) (hy : y < 1024) :
    (p.put slot x).absorb? (Word.make .setHigh (slot * 1024 + y)) = some (p.put slot (x ||| y * 4096)) := by
  have harg : slot * 1024 + y ≤ 0xfff := by omega
  have harg10 : (Word.make .setHigh (slot * 1024 + y)).arg10 = y := by
    rw [Word.arg10, Word.val_make harg]
    simp only [OpClass.code]
    omega
  have hindex : (Word.make .setHigh (slot * 1024 + y)).arg12 / 1024 = slot := by
    rw [Word.arg12_make harg]
    omega
  rw [absorb?, Word.opClass?_make harg]
  simp only [harg10, hindex]
  obtain rfl | rfl | rfl | rfl : slot = 0 ∨ slot = 1 ∨ slot = 2 ∨ slot = 3 := by omega
  all_goals rfl

theorem collect_operandPart (hslot : slot < 4) (hx : x ≤ maxOperand) (hfresh : p.put slot 0 = p) :
    p.collect (Instr.operandPart (Instr.slotClass slot) slot x) = p.put slot x := by
  rw [maxOperand] at hx
  rw [Instr.operandPart]
  split
  · next hzero => rw [hzero, hfresh]; rfl
  · rw [collect_cons (absorb?_slotClass hslot (by omega))]
    split
    · next hhigh =>
      rw [show x % 4096 = x by omega]
      rfl
    · rw [collect_cons (absorb?_setHigh hslot (by omega)), Instr.low_or_high]
      rfl

end Operands

namespace Instr

def frontWords (p : Operands) : List Word :=
  operandPart .setA 0 p.a ++ operandPart .setB 1 p.b ++ operandPart .setC 2 p.c ++ operandPart .setD 3 p.d

/-- Every operand fits a prefix word and its extension. -/
structure Fits (p : Operands) : Prop where
  a : p.a ≤ maxOperand
  b : p.b ≤ maxOperand
  c : p.c ≤ maxOperand
  d : p.d ≤ maxOperand

variable {p : Operands} {op c : Nat}

theorem prefixWords_eq (h : Fits p) : prefixWords p.a p.b p.c p.d = (frontWords p).map .ok := by
  rw [prefixWords, frontWords, operandWords_eq (by decide) h.a, operandWords_eq (by decide) h.b,
    operandWords_eq (by decide) h.c, operandWords_eq (by decide) h.d]
  simp only [List.map_append]

theorem mem_frontWords (h : Fits p) : ∀ w ∈ frontWords p, w.isOperandPrefix = true := by
  intro w hw
  simp only [frontWords, List.mem_append] at hw
  rcases hw with ((hw | hw) | hw) | hw
  · exact mem_operandPart rfl (by decide) h.a w hw
  · exact mem_operandPart rfl (by decide) h.b w hw
  · exact mem_operandPart rfl (by decide) h.c w hw
  · exact mem_operandPart rfl (by decide) h.d w hw

theorem collect_frontWords (h : Fits p) : Operands.collect {} (frontWords p) = p := by
  have ha := Operands.collect_operandPart (p := {}) (by decide : 0 < 4) h.a rfl
  have hb := Operands.collect_operandPart (p := { a := p.a }) (by decide : 1 < 4) h.b rfl
  have hc := Operands.collect_operandPart (p := { a := p.a, b := p.b }) (by decide : 2 < 4) h.c rfl
  have hd := Operands.collect_operandPart (p := { a := p.a, b := p.b, c := p.c }) (by decide : 3 < 4) h.d rfl
  simp only [slotClass, Operands.put] at ha hb hc hd
  rw [frontWords, Operands.collect_append, Operands.collect_append, Operands.collect_append, ha, hb, hc, hd]

/-- What stands in the prefix words of an instruction, and the class and argument of its own word. -/
structure Form where
  operands : Operands
  cls : OpClass
  arg : Nat

def form : Instr → Form
  | .unary op dst src => ⟨{}, .unary, op.code * 256 ||| dst * 16 ||| src⟩
  | .binary op dst src => ⟨{}, .binary, op.code * 256 ||| dst * 16 ||| src⟩
  | .load dst kind index c =>
    ⟨⟨kind.code / 4, index / 64, c, 0⟩, .loadCell, dst * 256 ||| kind.code % 4 * 64 ||| index % 64⟩
  | .store src kind index c =>
    ⟨⟨kind.code / 4, index / 64, c, 0⟩, .storeCell, src * 256 ||| kind.code % 4 * 64 ||| index % 64⟩
  | .call kind numArgs function saved =>
    ⟨⟨0, function / 64, 0, saved⟩, .call, numArgs * 256 ||| kind.code * 64 ||| function % 64⟩
  | .sync op a b c d => ⟨⟨a / 16, b, c, d⟩, .sync, a % 16 * 256 ||| op.code⟩
  | .async op a b c saved => ⟨⟨a, b, c, saved / 16⟩, .async, saved % 16 * 256 ||| op.code⟩

theorem encode_eq (i : Instr) :
    i.encode = prefixWords i.form.operands.a i.form.operands.b i.form.operands.c i.form.operands.d ++
      [word i.form.cls i.form.arg] := by
  cases i <;> rfl

structure Encodable (i : Instr) : Prop where
  operands : Fits i.form.operands
  arg : i.form.arg ≤ 0xfff

def lastWord (i : Instr) : Word := Word.make i.form.cls i.form.arg

def words (i : Instr) : List Word := frontWords i.form.operands ++ [i.lastWord]

variable {i : Instr} {dst src index : Nat}

theorem Encodable.encode_eq (h : i.Encodable) : i.encode = i.words.map .ok := by
  rw [Instr.encode_eq, prefixWords_eq h.operands, word, if_pos h.arg, words, List.map_append]
  rfl

theorem fits_of_operandWords {set : OpClass} {slot operand : Nat}
    (h : ∀ x ∈ operandWords set slot operand, ∃ w, x = .ok w) : operand ≤ maxOperand := by
  unfold operandWords at h
  split at h
  · omega
  · split at h
    · simp_all
    · omega

theorem encodable_of_encode (h : ∀ x ∈ i.encode, ∃ w, x = .ok w) : i.Encodable := by
  rw [Instr.encode_eq, prefixWords] at h
  simp only [List.mem_append, List.mem_singleton, or_imp, forall_and, forall_eq] at h
  obtain ⟨⟨⟨⟨ha, hb⟩, hc⟩, hd⟩, w, hw⟩ := h
  refine ⟨⟨fits_of_operandWords ha, fits_of_operandWords hb, fits_of_operandWords hc, fits_of_operandWords hd⟩, ?_⟩
  rw [word] at hw
  split at hw
  · assumption
  · cases hw

theorem isLimit_of_mem_encode {defect : Defect} (h : .error defect ∈ i.encode) (fits : Prop) :
    defect.IsLimit fits := by
  have hword : ∀ {cls : OpClass} {arg : Nat}, .error defect = word cls arg → defect.IsLimit fits := by
    intro cls arg heq
    rw [word] at heq
    split at heq
    · cases heq
    · cases heq
      trivial
  have hoperand : ∀ {set : OpClass} {slot operand : Nat}, .error defect ∈ operandWords set slot operand →
      defect.IsLimit fits := by
    intro set slot operand hmem
    rw [operandWords] at hmem
    split at hmem
    · cases hmem
    · split at hmem
      · cases List.mem_singleton.1 hmem
        trivial
      · grind
  rw [Instr.encode_eq, prefixWords] at h
  grind

theorem isOperandPrefix_lastWord (h : i.Encodable) : i.lastWord.isOperandPrefix = false := by
  rw [lastWord, Word.isOperandPrefix_make h.arg]
  cases i <;> rfl

theorem opClass?_lastWord (h : i.Encodable) : i.lastWord.opClass? = some i.form.cls :=
  Word.opClass?_make h.arg

def seen : Instr → Operands
  | .unary .. => {}
  | .binary .. => {}
  | .load _ kind index c => ⟨kind.code, index, c, 0⟩
  | .store _ kind index c => ⟨kind.code, index, c, 0⟩
  | .call _ _ function saved => ⟨0, function, 0, saved⟩
  | .sync _ a b c d => ⟨a, b, c, d⟩
  | .async _ a b c saved => ⟨a, b, c, saved⟩

theorem cellArg_eq {reg kind : Nat} (hkind : kind < 4) (hindex : index < 64) :
    reg * 256 ||| kind * 64 ||| index = reg * 256 + kind * 64 + index := by
  have hlow : kind * 64 ||| index = kind * 64 + index := or_eq_add 6 hindex
  rw [Nat.or_assoc, hlow, Nat.add_assoc]
  exact or_eq_add 8 (show kind * 64 + index < 2 ^ 8 by omega)

theorem subopArg_eq {high : Nat} (hop : op < 256) : high * 256 ||| op = high * 256 + op :=
  or_eq_add 8 hop

theorem regsArg_eq (hdst : dst < 16) (hsrc : src < 16) : op * 256 ||| dst * 16 ||| src = op * 256 + dst * 16 + src := by
  have hlow : dst * 16 ||| src = dst * 16 + src := or_eq_add 4 hsrc
  rw [Nat.or_assoc, hlow, Nat.add_assoc]
  exact or_eq_add 8 (show dst * 16 + src < 2 ^ 8 by omega)

theorem cellWord_fields (cls : OpClass) {reg kind : Nat} (hkind : kind < 4)
    (hindex : index < 64) (harg : reg * 256 ||| kind * 64 ||| index ≤ 0xfff) :
    (Word.make cls (reg * 256 ||| kind * 64 ||| index)).high4 = reg ∧
      (Word.make cls (reg * 256 ||| kind * 64 ||| index)).kind2 = kind ∧
      (Word.make cls (reg * 256 ||| kind * 64 ||| index)).arg6 = index := by
  rw [cellArg_eq hkind hindex] at harg ⊢
  rw [Word.high4, Word.kind2, Word.arg6, Word.arg8, Word.arg12_make harg, Word.val_make harg]
  omega

theorem subopWord_fields (cls : OpClass) {high : Nat} (hop : op < 256) (harg : high * 256 ||| op ≤ 0xfff) :
    (Word.make cls (high * 256 ||| op)).high4 = high ∧ (Word.make cls (high * 256 ||| op)).arg8 = op := by
  rw [subopArg_eq hop] at harg ⊢
  rw [Word.high4, Word.arg8, Word.arg12_make harg, Word.val_make harg]
  omega

theorem regsWord_fields (cls : OpClass) (hdst : dst < 16) (hsrc : src < 16)
    (harg : op * 256 ||| dst * 16 ||| src ≤ 0xfff) : (Word.make cls (op * 256 ||| dst * 16 ||| src)).high4 = op ∧
      (Word.make cls (op * 256 ||| dst * 16 ||| src)).dstReg.val = dst ∧
      (Word.make cls (op * 256 ||| dst * 16 ||| src)).srcReg.val = src := by
  rw [regsArg_eq hdst hsrc] at harg ⊢
  rw [Word.high4, Word.dstReg, Word.srcReg, Word.arg8, Word.arg4, Word.arg12_make harg, Word.val_make harg]
  simp only [Reg.ofNat, Fin.ofNat]
  omega

theorem syncCode_lt (op : SyncOp) : op.code < 256 := by cases op <;> decide

theorem asyncCode_lt (op : AsyncOp) : op.code < 256 := by cases op <;> decide

theorem callCode_lt (kind : CallKind) : kind.code < 4 := by cases kind <;> decide

theorem resolve_lastWord (h : i.Encodable) : i.form.operands.resolve i.lastWord = i.seen := by
  have hclass := opClass?_lastWord h
  have harg := h.arg
  rw [Operands.resolve, hclass]
  cases i with
  | unary op dst src => rfl
  | binary op dst src => rfl
  | load dst kind index c =>
    obtain ⟨-, hkind, hindex⟩ := cellWord_fields .loadCell (Nat.mod_lt _ (by decide)) (Nat.mod_lt _ (by decide)) harg
    simp only [form, lastWord, seen, hkind, hindex, Operands.mk.injEq, and_true]
    omega
  | store src kind index c =>
    obtain ⟨-, hkind, hindex⟩ := cellWord_fields .storeCell (Nat.mod_lt _ (by decide)) (Nat.mod_lt _ (by decide)) harg
    simp only [form, lastWord, seen, hkind, hindex, Operands.mk.injEq, and_true]
    omega
  | call kind numArgs function saved =>
    obtain ⟨-, -, hindex⟩ := cellWord_fields .call (callCode_lt kind) (Nat.mod_lt _ (by decide)) harg
    simp only [form, lastWord, seen, hindex, Operands.mk.injEq, and_true, true_and]
    omega
  | sync op a b c d =>
    obtain ⟨hhigh, -⟩ := subopWord_fields .sync (syncCode_lt op) harg
    simp only [form, lastWord, seen, hhigh, Operands.mk.injEq, and_true]
    omega
  | async op a b c saved =>
    obtain ⟨hhigh, -⟩ := subopWord_fields .async (asyncCode_lt op) harg
    simp only [form, lastWord, seen, hhigh, Operands.mk.injEq, true_and]
    omega

theorem encodable_load (kind : CellKind) (hdst : dst < 16)
    (hindex : index / 64 ≤ maxOperand) (hc : c ≤ maxOperand) : (load dst kind index c).Encodable := by
  refine ⟨⟨?_, hindex, hc, Nat.zero_le _⟩, ?_⟩
  · change kind.code / 4 ≤ maxOperand
    cases kind <;> decide
  · simp only [form]
    rw [cellArg_eq (Nat.mod_lt _ (by decide)) (Nat.mod_lt _ (by decide))]
    omega

theorem encodable_store (kind : CellKind) (hsrc : src < 16)
    (hindex : index / 64 ≤ maxOperand) (hc : c ≤ maxOperand) : (store src kind index c).Encodable :=
  let h := encodable_load kind hsrc hindex hc
  ⟨h.operands, h.arg⟩

theorem encodable_unary (op : UnaryOp) (hdst : dst < 16) (hsrc : src < 16) : (unary op dst src).Encodable := by
  refine ⟨⟨Nat.zero_le _, Nat.zero_le _, Nat.zero_le _, Nat.zero_le _⟩, ?_⟩
  have hop : op.code ≤ 4 := by cases op <;> decide
  simp only [form]
  rw [regsArg_eq hdst hsrc]
  omega

theorem encodable_binary (op : BinaryOp) (hdst : dst < 16) (hsrc : src < 16) : (binary op dst src).Encodable := by
  refine ⟨⟨Nat.zero_le _, Nat.zero_le _, Nat.zero_le _, Nat.zero_le _⟩, ?_⟩
  have hop : op.code ≤ 10 := by cases op <;> decide
  simp only [form]
  rw [regsArg_eq hdst hsrc]
  omega

theorem encodable_call {numArgs function saved : Nat} (kind : CallKind) (hargs : numArgs < 16)
    (hfunction : function / 64 ≤ maxOperand) (hsaved : saved ≤ maxOperand) :
    (call kind numArgs function saved).Encodable := by
  refine ⟨⟨Nat.zero_le _, hfunction, Nat.zero_le _, hsaved⟩, ?_⟩
  simp only [form]
  rw [cellArg_eq (callCode_lt kind) (Nat.mod_lt _ (by decide))]
  have := callCode_lt kind
  omega

theorem encodable_sync {a b d : Nat} (op : SyncOp) (ha : a / 16 ≤ maxOperand)
    (hb : b ≤ maxOperand) (hc : c ≤ maxOperand) (hd : d ≤ maxOperand) :
    (sync op a b c d).Encodable := by
  refine ⟨⟨ha, hb, hc, hd⟩, ?_⟩
  simp only [form]
  rw [subopArg_eq (syncCode_lt op)]
  have := syncCode_lt op
  omega

theorem encodable_async {a b saved : Nat} (op : AsyncOp) (ha : a ≤ maxOperand)
    (hb : b ≤ maxOperand) (hc : c ≤ maxOperand) (hsaved : saved / 16 ≤ maxOperand) :
    (async op a b c saved).Encodable := by
  refine ⟨⟨ha, hb, hc, hsaved⟩, ?_⟩
  simp only [form]
  rw [subopArg_eq (asyncCode_lt op)]
  have := asyncCode_lt op
  omega

end Instr

end BusScript
