import BusScript.Proofs.Drafts

namespace BusScript

inductive Reading where
  | instr (i : Instr)
  /-- A jump to a word of the body, always or only on a zero register. -/
  | jump (ifZero : Option Nat) (target : Nat)
  deriving DecidableEq, Repr

def Word.read? (w : Word) (n : Nat) (p : Operands) : Option Reading :=
  match w.opClass? with
  | some .unary => (UnaryOp.ofCode? w.high4).map fun op => .instr (.unary op w.dstReg w.srcReg)
  | some .binary => (BinaryOp.ofCode? w.high4).map fun op => .instr (.binary op w.dstReg w.srcReg)
  | some .loadCell => (CellKind.ofCode? p.a).map fun kind => .instr (.load w.high4 kind p.b p.c)
  | some .storeCell => (CellKind.ofCode? p.a).map fun kind => .instr (.store w.high4 kind p.b p.c)
  | some .call => (CallKind.ofCode? w.kind2).map fun kind => .instr (.call kind w.high4 p.b p.d)
  | some .sync => (SyncOp.ofCode? w.arg8).map fun op => .instr (.sync op p.a p.b p.c p.d)
  | some .async => (AsyncOp.ofCode? w.arg8).map fun op => .instr (.async op p.a p.b p.c p.d)
  | some .jump =>
    if w.jumpsBack ∧ n + 1 < p.b then none
    else some (.jump (if w.jumpsIfZero then some w.high4 else none) (w.jumpTarget n p.b))
  | _ => none

/-- Reads words from word `n` on, if `p` was collected in front of them: what each word that is no prefix says, and the
operands that it sees. There is none if a prefix comes last. -/
def Body.read (n : Nat) (p : Operands) : List Word → Option (List (Reading × Operands))
  | [] => some []
  | w :: rest =>
    match p.absorb? w with
    | some q => if rest.isEmpty then none else read (n + 1) q rest
    | none =>
      (w.read? n (p.resolve w)).bind fun reading =>
        (read (n + 1) {} rest).map fun readings => (reading, p.resolve w) :: readings

namespace Body

theorem read_front {n : Nat} {p : Operands} {front rest : List Word} (hrest : rest ≠ [])
    (hpre : ∀ w ∈ front, w.isOperandPrefix = true) :
    read n p (front ++ rest) = read (n + front.length) (p.collect front) rest := by
  induction front generalizing n p with
  | nil => rfl
  | cons w front ih =>
    obtain ⟨q, hq⟩ := Option.isSome_iff_exists.1 ((Operands.absorb?_isSome_iff (p := p)).2 (hpre w List.mem_cons_self))
    have hmore : (front ++ rest).isEmpty = false := by
      rw [List.isEmpty_eq_false_iff]
      exact List.append_ne_nil_of_right_ne_nil front hrest
    rw [List.cons_append, read, hq]
    simp only [hmore, Bool.false_eq_true, if_false]
    rw [ih fun v hv => hpre v (List.mem_cons_of_mem _ hv), Operands.collect_cons hq, List.length_cons,
      Nat.add_assoc, Nat.add_comm 1]

theorem read_chunk (n : Nat) (c : Chunk) (rest : List Word) :
    read n {} (c.words ++ rest) = (c.word.read? (n + c.front.length) c.seen).bind fun reading =>
      (read (n + c.words.length) {} rest).map fun readings => (reading, c.seen) :: readings := by
  have hnone : (Operands.collect {} c.front).absorb? c.word = none :=
    Operands.absorb?_eq_none_iff.2 c.word_noPrefix
  rw [Chunk.words, List.append_assoc, List.singleton_append, read_front (List.cons_ne_nil _ _) c.front_prefix, read,
    hnone, List.length_append]
  rfl

end Body

namespace Instr

/-- The registers of a computation are general ones. -/
def NamesRegs : Instr → Prop
  | .unary _ dst src | .binary _ dst src => dst < 16 ∧ src < 16
  | _ => True

theorem read?_lastWord {i : Instr} (h : i.Encodable) (hregs : i.NamesRegs) (n : Nat) :
    i.lastWord.read? n i.seen = some (.instr i) := by
  have harg := h.arg
  rw [Word.read?, opClass?_lastWord h]
  cases i with
  | unary op dst src =>
    obtain ⟨hop, hdst, hsrc⟩ := regsWord_fields .unary hregs.1 hregs.2 harg
    simp only [form, lastWord, hop, hdst, hsrc, UnaryOp.ofCode?_code, Option.map_some]
  | binary op dst src =>
    obtain ⟨hop, hdst, hsrc⟩ := regsWord_fields .binary hregs.1 hregs.2 harg
    simp only [form, lastWord, hop, hdst, hsrc, BinaryOp.ofCode?_code, Option.map_some]
  | load dst kind index c =>
    obtain ⟨hdst, -, -⟩ := cellWord_fields .loadCell (Nat.mod_lt _ (by decide)) (Nat.mod_lt _ (by decide)) harg
    simp only [form, lastWord, seen, hdst, CellKind.ofCode?_code, Option.map_some]
  | store src kind index c =>
    obtain ⟨hsrc, -, -⟩ := cellWord_fields .storeCell (Nat.mod_lt _ (by decide)) (Nat.mod_lt _ (by decide)) harg
    simp only [form, lastWord, seen, hsrc, CellKind.ofCode?_code, Option.map_some]
  | call kind numArgs function saved =>
    obtain ⟨hargs, hkind, -⟩ := cellWord_fields .call (callCode_lt kind) (Nat.mod_lt _ (by decide)) harg
    simp only [form, lastWord, seen, hargs, hkind, CallKind.ofCode?_code, Option.map_some]
  | sync op a b c d =>
    obtain ⟨-, hop⟩ := subopWord_fields .sync (syncCode_lt op) harg
    simp only [form, lastWord, seen, hop, SyncOp.ofCode?_code, Option.map_some]
  | async op a b c saved =>
    obtain ⟨-, hop⟩ := subopWord_fields .async (asyncCode_lt op) harg
    simp only [form, lastWord, seen, hop, AsyncOp.ofCode?_code, Option.map_some]

end Instr

namespace Item

/-- What items from word `place` on are read as, if labels stand where `offset` says. A jump to a label that stands
nowhere falls through. -/
def readings (offset : Nat → Option Nat) : Nat → List Item → List (Reading × Operands)
  | _, [] => []
  | place, .instr i :: rest => (.instr i, i.seen) :: readings offset (place + i.words.length) rest
  | place, .jump label ifZero :: rest =>
    let target := (offset label).getD (place + 2)
    (.jump ifZero target, { b := (ahead place target).natAbs }) :: readings offset (place + 2) rest

theorem read?_jump {target : Nat → Option Nat} {place label : Nat} {ifZero : Option Nat} {c : Chunk}
    (h : Becomes target place (.jump label ifZero) c) :
    c.word.read? (place + c.front.length) c.seen = some (.jump ifZero (goal target place)) := by
  obtain ⟨hfront, hclass, hzero, hreg, hgoal, hback⟩ := h
  have hif : (if c.word.jumpsIfZero = true then some c.word.high4 else none) = ifZero := by
    rw [hzero]
    cases ifZero with
    | none => rfl
    | some r => rw [hreg r rfl]; rfl
  have hinside : ¬ (c.word.jumpsBack = true ∧ place + 1 + 1 < c.seen.b) := by simp_all
  rw [Word.read?, hclass, hfront]
  simp only
  rw [if_neg hinside, hif, hgoal]

theorem read_render {items : List Item} {place : Nat} {target offset : Nat → Option Nat}
    (henc : ∀ i, .instr i ∈ items → i.Encodable ∧ i.NamesRegs) (hcond : Conditions items)
    (htarget : ∀ p l, (p, l) ∈ jumps place items → target p = offset l ∧
      ∀ t, target p = some t → (ahead p t).natAbs ≤ CodeWriter.maxJump) :
    Body.read place {} (render target place items) = some (readings offset place items) := by
  induction items generalizing place with
  | nil => rfl
  | cons item rest ih =>
    have hmore {item' : Item} (h : item' ∈ rest) : item' ∈ item :: rest := List.mem_cons_of_mem _ h
    cases item with
    | instr i =>
      obtain ⟨hi, hregs⟩ := henc i List.mem_cons_self
      obtain ⟨c, hwords, -, hword, hseen⟩ := exists_instrChunk place target hi
      rw [render, ← hwords, Body.read_chunk, hword, hseen, Instr.read?_lastWord hi hregs, hwords,
        ih (fun j hj => henc j (hmore hj)) (fun l r hj => hcond l r (hmore hj)) htarget]
      rfl
    | jump label ifZero =>
      obtain ⟨hoffset, hnear⟩ := htarget place label List.mem_cons_self
      obtain ⟨c, hwords, hbecomes, hseen⟩ := exists_jumpChunk label
        (fun r (hr : ifZero = some r) => hcond label r (hr ▸ List.mem_cons_self)) hnear
      rw [render, ← hwords, Body.read_chunk, read?_jump hbecomes, hwords, length_jumpWords, hseen,
        ih (fun j hj => henc j (hmore hj)) (fun l r hj => hcond l r (hmore hj))
          fun p l hp => htarget p l (List.mem_cons_of_mem _ hp), goal, hoffset]
      rfl

end Item

end BusScript
