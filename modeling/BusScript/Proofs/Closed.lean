import BusScript.Panic
import BusScript.Proofs.Verified

namespace BusScript

namespace Word

/-- Whether the codes among the operands of a word are known ones. -/
def knowsCodes (w : Word) (p : Operands) : Bool :=
  match w.opClass? with
  | some .loadCell | some .storeCell =>
    match CellKind.ofCode? p.a with
    | none => false
    | some kind => kind ≠ .roleProperty || (RoleProperty.ofCode? p.c).isSome
  | some .sync =>
    match SyncOp.ofCode? w.arg8 with
    | some .math1 => (Math1.ofCode? p.a).isSome
    | some .math2 => (Math2.ofCode? p.a).isSome
    | _ => true
  | _ => true

def isSync (w : Word) (op : SyncOp) : Bool :=
  w.opClass? = some .sync && SyncOp.ofCode? w.arg8 = some op

/-- Whether the machine may go on with the word behind this one. -/
def goesOn (w : Word) : Bool :=
  !(w.isSync .ret || w.isSync .panic || (w.opClass? = some .jump && !w.jumpsIfZero))

def jumpTarget (w : Word) (n distance : Nat) : Nat :=
  if w.jumpsBack then n + 1 - distance else n + 1 + distance

theorem cellKind_of_knowsCodes {w : Word} {p : Operands}
    (hclass : w.opClass? = some .loadCell ∨ w.opClass? = some .storeCell)
    (h : w.knowsCodes p = true) :
    ∃ kind, CellKind.ofCode? p.a = some kind ∧ (kind = .roleProperty → (RoleProperty.ofCode? p.c).isSome) := by
  have hcodes : (match CellKind.ofCode? p.a with
      | none => false
      | some kind => kind ≠ .roleProperty || (RoleProperty.ofCode? p.c).isSome) = true := by
    rcases hclass with hclass | hclass <;> simpa only [knowsCodes, hclass] using h
  grind

end Word

namespace Body

def seenAt (body : Array Word) (n : Nat) (w : Word) : Operands := (operandsAt body n).resolve w

/-- Whether word `n`, if it is no prefix, has known codes and jumps only to starts. -/
def closedAt (body : Array Word) (n : Nat) : Bool :=
  match body[n]? with
  | none => true
  | some w =>
    w.isOperandPrefix || (w.knowsCodes (seenAt body n w) &&
        (w.opClass? ≠ some .jump || startsAt body (w.jumpTarget n (seenAt body n w).b)))

def isClosed (body : Array Word) : Bool :=
  (List.range body.size).all (closedAt body) && body.back?.any fun w => !w.goesOn

def panicAt? (body : Array Word) (n : Nat) : Option PanicCode :=
  match body[n]? with
  | none => none
  | some w => if w.isSync .panic then some (.ofOperand (seenAt body n w).a) else none

def panicCodes (body : Array Word) : List PanicCode :=
  (List.range body.size).filterMap (panicAt? body)

variable {body : Array Word} {n : Nat} {w : Word}

theorem closedAt_of_isClosed (h : isClosed body = true) (n : Nat) : closedAt body n = true := by
  rw [isClosed, Bool.and_eq_true] at h
  by_cases hn : n < body.size
  · exact List.all_eq_true.1 h.1 n (List.mem_range.2 hn)
  · simp [closedAt, Array.getElem?_eq_none (Nat.le_of_not_lt hn)]

theorem knowsCodes_of_isClosed (h : isClosed body = true) (hw : body[n]? = some w)
    (hpre : w.isOperandPrefix = false) : w.knowsCodes (seenAt body n w) = true := by
  have hat := closedAt_of_isClosed h n
  simp only [closedAt, hw, hpre, Bool.false_or, Bool.and_eq_true] at hat
  exact hat.1

theorem startsAt_jumpTarget (h : isClosed body = true) (hw : body[n]? = some w)
    (hpre : w.isOperandPrefix = false) (hjump : w.opClass? = some .jump) :
    startsAt body (w.jumpTarget n (seenAt body n w).b) = true := by
  have hat := closedAt_of_isClosed h n
  simp only [closedAt, hw, hpre, Bool.false_or, Bool.and_eq_true] at hat
  simpa [hjump] using hat.2

theorem lt_size_of_goesOn (h : isClosed body = true) (hw : body[n]? = some w)
    (hgoes : w.goesOn = true) : n + 1 < body.size := by
  obtain ⟨hn, _⟩ := Array.getElem?_eq_some_iff.1 hw
  rw [isClosed, Bool.and_eq_true] at h
  grind

theorem size_pos_of_isClosed (h : isClosed body = true) : 0 < body.size := by
  rw [isClosed, Bool.and_eq_true] at h
  rcases Nat.eq_zero_or_pos body.size with hz | hpos
  · have hback : body.back? = none := by
      rw [Array.back?_eq_getElem?, hz]
      exact Array.getElem?_eq_none (by omega)
    simp [hback] at h
  · exact hpos

theorem mem_panicCodes (hw : body[n]? = some w) (hpanic : w.isSync .panic = true) :
    PanicCode.ofOperand (seenAt body n w).a ∈ panicCodes body := by
  obtain ⟨hn, _⟩ := Array.getElem?_eq_some_iff.1 hw
  refine List.mem_filterMap.2 ⟨n, List.mem_range.2 hn, ?_⟩
  simp [panicAt?, hw, hpanic]

end Body

namespace Image

theorem checkJump_iff {length n : Nat} {w : Word} {p : Operands} : checkJump length n w p = .ok () ↔
      (w.jumpsBack = true → p.b ≤ n + 1) ∧ w.jumpTarget n p.b < length := by
  rw [checkJump, ensure_iff, Word.jumpTarget]
  cases hback : w.jumpsBack
  · simp
    omega
  · simp
    omega

theorem words_of_body {image : Image} {f : FunctionInfo} {n : Nat} {w : Word}
    (h : (image.body f)[n]? = some w) : image.words[f.startPc + n]? = some w := by
  rw [body, Array.getElem?_extract] at h
  split at h
  · exact h
  · cases h

def panicCodes (image : Image) : List PanicCode :=
  image.functions.toList.flatMap fun f => Body.panicCodes (image.body f)

/-- Whether all code stays in its function, and there is a main function. -/
def isClosed (image : Image) : Bool :=
  0 < image.functions.size && image.functions.toList.all fun f => Body.isClosed (image.body f)

end Image

end BusScript
