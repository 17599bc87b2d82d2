import BusScript.Proofs.Patching

namespace BusScript

namespace Item

/-- Where the jump at a place goes; a jump whose label was never bound falls through. -/
def goal (target : Nat → Option Nat) (place : Nat) : Nat := (target place).getD (place + 2)

/-- What the chunk of an item at word `place` is like. -/
def Becomes (target : Nat → Option Nat) (place : Nat) : Item → Chunk → Prop
  | .instr i, c => c.words = i.words ∧ c.word = i.lastWord ∧ c.seen = i.seen
  | .jump _ ifZero, c =>
    c.front.length = 1 ∧ c.word.opClass? = some .jump ∧ c.word.jumpsIfZero = ifZero.isSome ∧
      (∀ r, ifZero = some r → c.word.high4 = r) ∧
      c.word.jumpTarget (place + 1) c.seen.b = goal target place ∧
      (c.word.jumpsBack = true → c.seen.b ≤ place + 2)

theorem jumpWords_none (ifZero : Option Nat) (place : Nat) :
    jumpWords ifZero place none = jumpWords ifZero place (some (place + 2)) := by
  have hahead : ahead place (place + 2) = 0 := by
    rw [ahead]
    omega
  simp [jumpWords, hahead, lowBits]

theorem jumpArg_or_lowBits (ifZero : Option Nat) (distance : Int) : jumpArg ifZero ||| lowBits distance =
      ifZero.getD 0 * 256 + (decide (distance < 0)).toNat * 128 + ifZero.isSome.toNat * 64 + distance.natAbs % 64 := by
  have hlow : ∀ x, 1 * 2 ^ 6 ||| x % 64 = 1 * 2 ^ 6 + x % 64 := fun x =>
    or_eq_add 6 (by omega)
  have hback : ∀ x, x < 2 ^ 7 → 1 * 2 ^ 7 ||| x = 1 * 2 ^ 7 + x := fun x => or_eq_add 7
  have hreg : ∀ r x, x < 2 ^ 8 → r * 2 ^ 8 ||| x = r * 2 ^ 8 + x := fun r x => or_eq_add 8
  simp only [Nat.reducePow, Nat.one_mul] at hlow hback hreg
  rw [lowBits]
  cases ifZero with
  | none =>
    simp only [jumpArg, Nat.zero_or, Option.getD_none, Option.isSome_none]
    grind
  | some r =>
    simp only [jumpArg, Option.getD_some, Option.isSome_some]
    grind

theorem jumpWord_fields {w : Word} {r low : Nat} {back zero : Bool} (hr : r < 16) (hlow : low < 64)
    (h : w.val = OpClass.jump.code * 4096 + (r * 256 + back.toNat * 128 + zero.toNat * 64 + low)) :
    w.high4 = r ∧ w.jumpsBack = back ∧ w.jumpsIfZero = zero ∧ w.arg6 = low := by
  rw [Word.high4, Word.arg12, Word.jumpsBack, Word.jumpsIfZero, Word.arg6, h,
    show OpClass.jump.code = 9 from rfl]
  cases back <;> cases zero <;>
    simp only [Bool.toNat_true, Bool.toNat_false, beq_iff_eq, beq_eq_false_iff_ne] <;> omega

variable {target : Nat → Option Nat}

variable {place : Nat}

theorem exists_jumpChunk (label : Nat) {ifZero : Option Nat} (hcond : ∀ r, ifZero = some r → r < 16)
    (hnear : ∀ t, target place = some t → (ahead place t).natAbs ≤ CodeWriter.maxJump) :
    ∃ c : Chunk, c.words = jumpWords ifZero place (target place) ∧ Becomes target place (.jump label ifZero) c ∧
      c.seen = { b := (ahead place (goal target place)).natAbs } := by
  have hwords : jumpWords ifZero place (target place) = jumpWords ifZero place (some (goal target place)) := by
    rw [goal]
    cases target place with
    | none => exact jumpWords_none ifZero place
    | some t => rfl
  have hnear : (ahead place (goal target place)).natAbs ≤ 0x3ffff := by
    rw [goal]
    cases ht : target place with
    | none =>
      rw [ahead, Option.getD_none]
      omega
    | some t => exact hnear t ht
  generalize hgoal : goal target place = t at hnear hwords
  have hreg : ifZero.getD 0 < 16 := by
    cases ifZero with
    | none => decide
    | some r => exact hcond r rfl
  have hlow : (ahead place t).natAbs % 64 < 64 := Nat.mod_lt _ (by decide)
  have harg := jumpArg_or_lowBits ifZero (ahead place t)
  have hle : jumpArg ifZero ||| lowBits (ahead place t) ≤ 0xfff := by
    have hback := Bool.toNat_le (decide (ahead place t < 0))
    have hzero := Bool.toNat_le ifZero.isSome
    omega
  have hclass : (Word.make .jump (jumpArg ifZero ||| lowBits (ahead place t))).opClass? = some .jump :=
    Word.opClass?_make hle
  obtain ⟨hhigh, hback, hzero, hsix⟩ := jumpWord_fields hreg hlow (harg ▸ Word.val_make hle)
  rw [← harg] at hhigh hback hzero hsix
  have hfront : (ahead place t).natAbs / 64 ≤ 0xfff := by omega
  have hahead : ahead place t = (t : Int) - place - 2 := rfl
  have hcollect : Operands.collect {} [Word.make .setB ((ahead place t).natAbs / 64)] =
      { b := (ahead place t).natAbs / 64 } := by
    rw [Operands.collect_cons (q := { b := (ahead place t).natAbs / 64 })]
    · rfl
    · rw [Operands.absorb?, Word.opClass?_make hfront, Word.arg12_make hfront]
  have hprefix : ∀ w ∈ [Word.make .setB ((ahead place t).natAbs / 64)], w.isOperandPrefix = true := by
    intro w hw
    rw [List.mem_singleton.1 hw, Word.isOperandPrefix_make hfront]
    rfl
  have hword : (Word.make .jump (jumpArg ifZero ||| lowBits (ahead place t))).isOperandPrefix = false := by
    rw [Word.isOperandPrefix_make hle]
    rfl
  have hseen : Chunk.seen ⟨_, _, hprefix, hword⟩ = { b := (ahead place t).natAbs } := by
    rw [Chunk.seen, Operands.resolve, hclass, hcollect, hsix]
    exact congrArg (Operands.mk 0 · 0 0) (Nat.div_add_mod' ..)
  refine ⟨⟨_, _, hprefix, hword⟩, hwords.symm, ⟨rfl, hclass, hzero, fun r hr => ?_, ?_, ?_⟩, hgoal ▸ hseen⟩
  · rw [hhigh, hr, Option.getD_some]
  · rw [hgoal, hseen, Word.jumpTarget, hback]
    grind
  · grind

theorem exists_instrChunk {i : Instr} (place : Nat) (target : Nat → Option Nat) (h : i.Encodable) :
    ∃ c : Chunk, c.words = i.words ∧ Becomes target place (.instr i) c := by
  refine ⟨⟨Instr.frontWords i.form.operands, i.lastWord, Instr.mem_frontWords h.operands,
    Instr.isOperandPrefix_lastWord h⟩, rfl, rfl, rfl, ?_⟩
  rw [Chunk.seen, Instr.collect_frontWords h.operands, Instr.resolve_lastWord h]

theorem exists_chunk {item : Item} (place : Nat) (henc : ∀ i, item = .instr i → i.Encodable)
    (hcond : ∀ label r, item = .jump label (some r) → r < 16)
    (hnear : ∀ label z t, item = .jump label z → target place = some t → (ahead place t).natAbs ≤ CodeWriter.maxJump) :
    ∃ c : Chunk, c.words = render target place [item] ∧ Becomes target place item c := by
  cases item with
  | instr i =>
    obtain ⟨c, hwords, hc⟩ := exists_instrChunk place target (henc i rfl)
    exact ⟨c, by simp [render, hwords], hc⟩
  | jump label ifZero =>
    obtain ⟨c, hwords, hc, -⟩ := exists_jumpChunk label (fun r (hr : ifZero = some r) => hcond label r (by rw [hr]))
      fun t => hnear label ifZero t rfl
    exact ⟨c, by simp [render, hwords], hc⟩

theorem Becomes.length_eq {item : Item} {c : Chunk}
    (h : Becomes target place item c) : c.front.length + 1 = item.length := by
  cases item with
  | instr i => rw [length, ← h.1, Chunk.length_words]
  | jump label ifZero => rw [length, h.1]

/-- Items make a row of chunks, each at the place of its item. -/
structure Rows (target : Nat → Option Nat) (place : Nat) (items : List Item) (cs : List Chunk) : Prop where
  words : cs.flatMap Chunk.words = render target place items
  length : cs.length = items.length
  becomes : ∀ (k : Nat) (item : Item) (c : Chunk), items[k]? = some item → cs[k]? = some c →
    Becomes target (place + extent (items.take k)) item c

theorem exists_rows {items : List Item} (henc : ∀ i, .instr i ∈ items → i.Encodable) (hcond : Conditions items)
    (hnear : ∀ p l t, (p, l) ∈ jumps place items → target p = some t →
      (ahead p t).natAbs ≤ CodeWriter.maxJump) : ∃ cs, Rows target place items cs := by
  induction items generalizing place with
  | nil => exact ⟨[], rfl, rfl, fun k item c h => by simp at h⟩
  | cons item rest ih =>
    have hjumps : ∀ p l, (p, l) ∈ jumps (place + item.length) rest → (p, l) ∈ jumps place (item :: rest) := by
      intro p l hp
      cases item with
      | instr i => exact hp
      | jump label ifZero => exact List.mem_cons_of_mem _ hp
    obtain ⟨c, hwords, hc⟩ := exists_chunk place (fun i (hi : item = .instr i) => henc i (by simp [hi]))
      (fun label r hi => hcond label r (by simp [hi]))
      (fun label z t hi => hnear place label t (by rw [hi]; exact List.mem_cons_self ..))
    obtain ⟨cs, hcs⟩ := @ih (place + item.length) (fun i hi => henc i (by simp [hi]))
      (fun label r hi => hcond label r (by simp [hi])) fun p l t hp => hnear p l t (hjumps p l hp)
    refine ⟨c :: cs, ?_, by simp [hcs.length], ?_⟩
    · have happend : render target place ([item] ++ rest) = _ := render_append
      rw [extent_cons, extent_nil, Nat.add_zero] at happend
      rw [List.flatMap_cons, hwords, hcs.words]
      exact happend.symm
    · intro k item' c' hitem hc'
      cases k with
      | zero => simp_all
      | succ k =>
        rw [List.getElem?_cons_succ] at hitem hc'
        have := hcs.becomes k item' c' hitem hc'
        rwa [List.take_succ_cons, extent_cons, ← Nat.add_assoc]

namespace Rows

variable {target : Nat → Option Nat} {place : Nat} {items : List Item} {cs : List Chunk}

variable {k : Nat}

theorem offset_eq (h : Rows target place items cs) (hk : k ≤ items.length) :
    Chunk.offset cs k = extent (items.take k) := by
  induction k with
  | zero => simp
  | succ k ih =>
    have hitem : items[k]? = some items[k] := List.getElem?_eq_getElem hk
    have hlen : k < cs.length := by
      rw [h.length]
      exact hk
    have hchunk : cs[k]? = some cs[k] := List.getElem?_eq_getElem hlen
    have hlength := (h.becomes k _ _ hitem hchunk).length_eq
    have ih := ih (Nat.le_of_succ_le hk)
    rw [Chunk.offset] at ih ⊢
    rw [List.take_add_one, hchunk, List.take_add_one, hitem]
    simp only [Option.toList_some, List.flatMap_append, List.flatMap_singleton, List.length_append,
      extent_append, extent_cons, extent_nil, Chunk.length_words]
    omega

theorem size_body (h : Rows target place items cs) : (Chunk.body cs).size = extent items := by
  rw [Chunk.size_body, h.length, h.offset_eq (Nat.le_refl _), List.take_length]

theorem exists_item (h : Rows target place items cs) {c : Chunk} (hc : cs[k]? = some c) :
    ∃ item, items[k]? = some item ∧ Becomes target (place + extent (items.take k)) item c := by
  obtain ⟨hlt, -⟩ := List.getElem?_eq_some_iff.1 hc
  rw [h.length] at hlt
  obtain ⟨item, hitem⟩ : ∃ item, items[k]? = some item := ⟨_, List.getElem?_eq_getElem hlt⟩
  exact ⟨item, hitem, h.becomes k item c hitem hc⟩

theorem exists_chunk (h : Rows target place items cs) {item : Item} (hitem : items[k]? = some item) :
    ∃ c, cs[k]? = some c ∧ Becomes target (place + extent (items.take k)) item c := by
  obtain ⟨hlt, -⟩ := List.getElem?_eq_some_iff.1 hitem
  rw [← h.length] at hlt
  obtain ⟨c, hc⟩ : ∃ c, cs[k]? = some c := ⟨_, List.getElem?_eq_getElem hlt⟩
  exact ⟨c, hc, h.becomes k item c hitem hc⟩

end Rows

theorem mem_jumps_of_getElem? {items : List Item} (place : Nat) {k label : Nat} {ifZero : Option Nat}
    (h : items[k]? = some (.jump label ifZero)) :
    (place + extent (items.take k), label) ∈ jumps place items := by
  induction items generalizing place k with
  | nil => cases h
  | cons item rest ih =>
    cases k with
    | zero =>
      rw [List.getElem?_cons_zero, Option.some.injEq] at h
      subst h
      exact List.mem_cons_self ..
    | succ k =>
      rw [List.getElem?_cons_succ] at h
      have hrest := ih (place + item.length) h
      rw [Nat.add_assoc, ← extent_cons, ← List.take_succ_cons] at hrest
      cases item with
      | instr i => exact hrest
      | jump first z => exact List.mem_cons_of_mem _ hrest

end Item

namespace Instr

/-- Whether the codes among the operands are known ones. -/
def codesKnown : Instr → Bool
  | .load _ kind _ c => kind ≠ .roleProperty || (RoleProperty.ofCode? c).isSome
  | .store _ kind _ c => kind ≠ .roleProperty || (RoleProperty.ofCode? c).isSome
  | .sync .math1 a _ _ _ => (Math1.ofCode? a).isSome
  | .sync .math2 a _ _ _ => (Math2.ofCode? a).isSome
  | _ => true

theorem syncOp_lastWord {op : SyncOp} {a b c d : Nat} (h : (sync op a b c d).Encodable) :
    SyncOp.ofCode? (sync op a b c d).lastWord.arg8 = some op := by
  obtain ⟨-, harg⟩ := subopWord_fields .sync (syncCode_lt op) h.arg
  exact harg ▸ SyncOp.ofCode?_code op

theorem knowsCodes_lastWord {i : Instr} (h : i.Encodable) (hknown : i.codesKnown = true) :
    i.lastWord.knowsCodes i.seen = true := by
  rw [Word.knowsCodes, opClass?_lastWord h]
  cases i with
  | load | store =>
    simp only [form, seen, CellKind.ofCode?_code]
    exact hknown
  | sync op a b c d =>
    simp only [form, seen, syncOp_lastWord h]
    cases op <;> exact hknown
  | _ => rfl

theorem isSync_lastWord {i : Instr} {op : SyncOp} (h : i.Encodable) (hsync : i.lastWord.isSync op = true) :
    ∃ a b c d, i = .sync op a b c d := by
  rw [Word.isSync, Bool.and_eq_true, decide_eq_true_iff, decide_eq_true_iff, opClass?_lastWord h] at hsync
  cases i with
  | sync other a b c d =>
    obtain ⟨-, hop⟩ := hsync
    rw [syncOp_lastWord h] at hop
    cases hop
    exact ⟨a, b, c, d, rfl⟩
  | _ => cases hsync.1

def ret : Instr := .sync .ret 0 0 0 0

theorem encodable_ret : ret.Encodable := by
  refine ⟨⟨?_, ?_, ?_, ?_⟩, ?_⟩ <;> decide

theorem goesOn_ret : ret.lastWord.goesOn = false := by decide

end Instr

namespace CodeWriter

open Item

variable {w : CodeWriter} {items : List Item}

theorem jumps_padding (items : List Item) : jumps 0 (items ++ padding items) = jumps 0 items := by
  rw [jumps_append, padding]
  split
  · exact List.append_nil _
  · exact List.append_nil _

theorem mem_padded {i : Instr} (h : .instr i ∈ items ++ padding items) : .instr i ∈ items ∨ i = .ret := by
  rcases List.mem_append.1 h with h | h
  · exact .inl h
  · rw [padding] at h
    split at h
    · cases List.mem_singleton.1 h
      exact .inr rfl
    · cases h

theorem conditions_padding (h : Conditions items) : Conditions (items ++ padding items) := by
  intro label r hmem
  rcases List.mem_append.1 hmem with hmem | hmem
  · exact h label r hmem
  · rw [padding] at hmem
    split at hmem
    · cases List.mem_singleton.1 hmem
    · cases hmem

theorem Places.encodable_padded (h : w.Places items) : ∀ i, .instr i ∈ items ++ padding items → i.Encodable := by
  intro i hi
  rcases mem_padded hi with hi | rfl
  · exact h.encodable i hi
  · exact Instr.encodable_ret

theorem Places.exists_rows (h : w.Places items)
    (hnear : ∀ p l t, (p, l) ∈ jumps 0 items → assigned w.labels.toList p = some t → (ahead p t).natAbs ≤ maxJump) :
    ∃ cs, Rows (assigned w.labels.toList) 0 (items ++ padding items) cs := by
  refine Item.exists_rows h.encodable_padded (conditions_padding h.conditions) fun p l t hmem ht => ?_
  rw [jumps_padding] at hmem
  exact hnear p l t hmem ht

end CodeWriter

namespace Item.Rows

variable {target : Nat → Option Nat} {items : List Item} {cs : List Chunk}

theorem isClosed (h : Rows target 0 items cs) (henc : ∀ i, .instr i ∈ items → i.Encodable)
    (hknown : ∀ i, .instr i ∈ items → i.codesKnown = true)
    (hgoals : ∀ p l, (p, l) ∈ jumps 0 items → ∃ j, j ≤ items.length ∧ goal target p = extent (items.take j))
    (hlast : items.getLast? = some (.instr .ret)) : Body.isClosed (Chunk.body cs) = true := by
  have hlen : 0 < items.length := by grind
  rw [List.getLast?_eq_getElem?] at hlast
  obtain ⟨last, hc, -, hword, -⟩ := h.exists_chunk hlast
  refine Body.isClosed_body ?_ ?_ (?_ : cs.getLast? = some last) ?_
  · intro c hc
    obtain ⟨k, hk⟩ := List.mem_iff_getElem?.1 hc
    obtain ⟨item, hitem, hbecomes⟩ := h.exists_item hk
    have hmem := List.mem_of_getElem? hitem
    cases item with
    | instr i =>
      obtain ⟨-, hword, hseen⟩ := hbecomes
      rw [hword, hseen]
      exact Instr.knowsCodes_lastWord (henc i hmem) (hknown i hmem)
    | jump label ifZero =>
      obtain ⟨-, hclass, -⟩ := hbecomes
      rw [Word.knowsCodes, hclass]
  · intro k c hk hjump
    obtain ⟨item, hitem, hbecomes⟩ := h.exists_item hk
    obtain ⟨hlt, -⟩ := List.getElem?_eq_some_iff.1 hitem
    rw [h.offset_eq (Nat.le_of_lt hlt)]
    cases item with
    | instr i =>
      obtain ⟨-, hword, -⟩ := hbecomes
      rw [hword, Instr.opClass?_lastWord (henc i (List.mem_of_getElem? hitem))] at hjump
      cases i <;> cases hjump
    | jump label ifZero =>
      obtain ⟨hfront, -, -, -, hgoal, -⟩ := hbecomes
      have hmem := mem_jumps_of_getElem? 0 hitem
      rw [Nat.zero_add] at hgoal hmem
      obtain ⟨j, hj, heq⟩ := hgoals _ _ hmem
      refine ⟨j, h.length ▸ hj, ?_⟩
      rw [hfront, hgoal, heq, h.offset_eq hj]
  · rw [List.getLast?_eq_getElem?, h.length]
    exact hc
  · rw [hword]
    exact Instr.goesOn_ret

theorem mem_panicCodes (h : Rows target 0 items cs) (henc : ∀ i, .instr i ∈ items → i.Encodable)
    {code : PanicCode} (hcode : code ∈ Body.panicCodes (Chunk.body cs)) :
    ∃ a b c d, .instr (.sync .panic a b c d) ∈ items ∧ code = .ofOperand a := by
  obtain ⟨c, hc, hpanic, rfl⟩ := Body.mem_panicCodes_body hcode
  obtain ⟨k, hk⟩ := List.mem_iff_getElem?.1 hc
  obtain ⟨item, hitem, hbecomes⟩ := h.exists_item hk
  have hmem := List.mem_of_getElem? hitem
  cases item with
  | instr i =>
    obtain ⟨-, hword, hseen⟩ := hbecomes
    rw [hword] at hpanic
    obtain ⟨a, b, c, d, rfl⟩ := Instr.isSync_lastWord (henc i hmem) hpanic
    exact ⟨a, b, c, d, hmem, by rw [hseen]; rfl⟩
  | jump label ifZero =>
    rw [Word.isSync, hbecomes.2.1] at hpanic
    simp at hpanic

end Item.Rows

end BusScript
