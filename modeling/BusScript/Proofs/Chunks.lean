import BusScript.Proofs.Closed
import BusScript.Proofs.Encoding

namespace BusScript

/-- Prefix words, and the word that uses them up. -/
structure Chunk where
  front : List Word
  word : Word
  front_prefix : ∀ w ∈ front, w.isOperandPrefix = true
  word_noPrefix : word.isOperandPrefix = false

namespace Chunk

def words (c : Chunk) : List Word := c.front ++ [c.word]

def seen (c : Chunk) : Operands := (Operands.collect {} c.front).resolve c.word

def body (cs : List Chunk) : Array Word := (cs.flatMap words).toArray

def offset (cs : List Chunk) (k : Nat) : Nat := ((cs.take k).flatMap words).length

theorem length_words (c : Chunk) : c.words.length = c.front.length + 1 := by
  simp [words]

@[simp] theorem offset_zero (cs : List Chunk) : offset cs 0 = 0 := by
  simp [offset]

theorem offset_cons_succ (c : Chunk) (cs : List Chunk) (k : Nat) :
    offset (c :: cs) (k + 1) = c.front.length + 1 + offset cs k := by
  simp [offset, length_words]

theorem size_body (cs : List Chunk) : (body cs).size = offset cs cs.length := by
  simp [body, offset]

theorem body_cons (c : Chunk) (cs : List Chunk) : body (c :: cs) = c.words.toArray ++ body cs := by
  simp [body]

end Chunk

namespace Body

open Chunk

variable {body : Array Word} {n : Nat}

theorem operandsAt_front {front : List Word} (hfront : ∀ i, i < front.length → body[n + i]? = front[i]?)
    (hpre : ∀ w ∈ front, w.isOperandPrefix = true) :
    operandsAt body (n + front.length) = (operandsAt body n).collect front := by
  induction front generalizing n with
  | nil => rfl
  | cons w front ih =>
    have hw : body[n]? = some w := by simpa using hfront 0 (by simp)
    obtain ⟨q, hq⟩ := Option.isSome_iff_exists.1
      (Operands.absorb?_isSome_iff.2 (hpre w (by simp)) : ((operandsAt body n).absorb? w).isSome)
    have hrest := ih (n := n + 1) (fun i hi => by
        have := hfront (i + 1) (by simpa using hi)
        rwa [List.getElem?_cons_succ, show n + (i + 1) = n + 1 + i by omega] at this)
      fun v hv => hpre v (by simp [hv])
    rw [operandsAt_succ hw, hq] at hrest
    rw [List.length_cons, show n + (front.length + 1) = n + 1 + front.length by omega, hrest, Operands.collect_cons hq]
    rfl

variable {cs : List Chunk}

theorem getElem?_body {k : Nat} {c : Chunk} (h : cs[k]? = some c) {i : Nat}
    (hi : i < c.words.length) : (Chunk.body cs)[offset cs k + i]? = c.words[i]? := by
  induction cs generalizing k with
  | nil => cases h
  | cons first rest ih =>
    rw [body_cons]
    cases k with
    | zero =>
      rw [List.getElem?_cons_zero, Option.some.injEq] at h
      subst h
      rw [offset_zero, Nat.zero_add, Array.getElem?_append_left (by simpa using hi)]
      simp
    | succ k =>
      rw [List.getElem?_cons_succ] at h
      rw [offset_cons_succ, Array.getElem?_append_right (by simp [length_words]; omega)]
      rw [← ih h]
      congr 1
      simp [length_words]
      omega

theorem startsAt_offset {k : Nat} (h : k ≤ cs.length) : startsAt (Chunk.body cs) (offset cs k) = true := by
  cases k with
  | zero => simp
  | succ k =>
    obtain ⟨c, hc⟩ : ∃ c, cs[k]? = some c := ⟨cs[k], List.getElem?_eq_getElem (by omega)⟩
    have hoffset : offset cs (k + 1) = offset cs k + c.front.length + 1 := by
      rw [offset, offset, List.take_add_one, hc]
      simp [length_words]
      omega
    have hlast : (Chunk.body cs)[offset cs k + c.front.length]? = some c.word := by
      rw [getElem?_body hc (by simp [length_words])]
      simp [words]
    rw [hoffset, startsAt_succ hlast, c.word_noPrefix]
    rfl

theorem seenAt_chunk {k : Nat} {c : Chunk} (h : cs[k]? = some c) :
    seenAt (Chunk.body cs) (offset cs k + c.front.length) c.word = c.seen := by
  obtain ⟨hk, _⟩ := List.getElem?_eq_some_iff.1 h
  rw [seenAt, operandsAt_front (fun i hi => ?_) c.front_prefix,
    operandsAt_of_startsAt (startsAt_offset (by omega)), Chunk.seen]
  rw [getElem?_body h (by simp [length_words]; omega), words, List.getElem?_append_left hi]

theorem exists_chunk {w : Word} (hw : (Chunk.body cs)[n]? = some w) (hno : w.isOperandPrefix = false) :
    ∃ k c, cs[k]? = some c ∧ n = offset cs k + c.front.length ∧ w = c.word := by
  induction cs generalizing n with
  | nil => simp [Chunk.body] at hw
  | cons first rest ih =>
    rw [body_cons] at hw
    by_cases hn : n < first.words.length
    · refine ⟨0, first, rfl, ?_⟩
      rw [Array.getElem?_append_left (by simpa using hn)] at hw
      have hw' : (first.front ++ [first.word])[n]? = some w := by simpa [words] using hw
      rw [length_words] at hn
      by_cases hfront : n < first.front.length
      · rw [List.getElem?_append_left hfront] at hw'
        rw [first.front_prefix w (List.mem_of_getElem? hw')] at hno
        cases hno
      · have heq : n = first.front.length := by omega
        simp_all
    · rw [Array.getElem?_append_right (by simpa using Nat.le_of_not_lt hn)] at hw
      obtain ⟨k, c, hc, hk, hword⟩ := ih hw
      refine ⟨k + 1, c, by simpa using hc, ?_, hword⟩
      rw [offset_cons_succ]
      simp only [List.size_toArray] at hk
      rw [length_words] at hk hn
      omega

theorem checked_body {image : Image} {f : FunctionInfo} (h : ∀ k c, cs[k]? = some c →
      Image.checkWord image f (Chunk.body cs).size (offset cs k + c.front.length) c.word c.seen =
        .ok ()) : Image.Checked image f (Chunk.body cs) := by
  refine ⟨fun n w hw hno => ?_, ?_⟩
  · obtain ⟨k, c, hc, rfl, rfl⟩ := exists_chunk hw hno
    have hseen := seenAt_chunk hc
    rw [seenAt] at hseen
    rw [hseen]
    exact h k c hc
  · rw [size_body]
    exact startsAt_offset (Nat.le_refl _)

theorem back?_body {last : Chunk} (h : cs.getLast? = some last) : (Chunk.body cs).back? = some last.word := by
  obtain ⟨front, rfl⟩ := List.getLast?_eq_some_iff.1 h
  simp [Chunk.body, words]

theorem isClosed_body {last : Chunk} (hcodes : ∀ c ∈ cs, c.word.knowsCodes c.seen = true)
    (hjumps : ∀ (k : Nat) (c : Chunk), cs[k]? = some c → c.word.opClass? = some .jump → ∃ j, j ≤ cs.length ∧
        c.word.jumpTarget (offset cs k + c.front.length) c.seen.b = offset cs j)
    (hlast : cs.getLast? = some last) (hends : last.word.goesOn = false) : isClosed (Chunk.body cs) = true := by
  rw [isClosed, Bool.and_eq_true, List.all_eq_true]
  constructor
  · intro n _
    cases hw : (Chunk.body cs)[n]? with
    | none => simp [closedAt, hw]
    | some w =>
      cases hno : w.isOperandPrefix with
      | true => simp [closedAt, hw, hno]
      | false =>
        obtain ⟨k, c, hc, rfl, rfl⟩ := exists_chunk hw hno
        simp only [closedAt, hw, hno, Bool.false_or, Bool.and_eq_true, seenAt_chunk hc]
        refine ⟨hcodes c (List.mem_of_getElem? hc), ?_⟩
        by_cases hjump : c.word.opClass? = some .jump
        · obtain ⟨j, hj, htarget⟩ := hjumps k c hc hjump
          rw [htarget, startsAt_offset hj, Bool.or_true]
        · simp [hjump]
  · simp [back?_body hlast, hends]

theorem mem_panicCodes_body {code : PanicCode} (h : code ∈ panicCodes (Chunk.body cs)) :
    ∃ c ∈ cs, c.word.isSync .panic = true ∧ code = .ofOperand c.seen.a := by
  obtain ⟨n, -, hn⟩ := List.mem_filterMap.1 h
  rw [panicAt?] at hn
  cases hw : (Chunk.body cs)[n]? with
  | none => simp [hw] at hn
  | some w =>
    simp only [hw] at hn
    split at hn
    · next hpanic =>
      have hno : w.isOperandPrefix = false := by
        rw [Word.isSync, Bool.and_eq_true, decide_eq_true_iff] at hpanic
        rw [Word.isOperandPrefix, ← OpClass.code_of_ofCode? hpanic.1]
        rfl
      obtain ⟨k, c, hc, rfl, rfl⟩ := exists_chunk hw hno
      rw [Option.some.injEq, seenAt_chunk hc] at hn
      exact ⟨c, List.mem_of_getElem? hc, hpanic, hn.symm⟩
    · cases hn

end Body

end BusScript
