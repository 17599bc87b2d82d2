import Mathlib.Algebra.Ring.Nat
import BusScript.Code.Writer
import BusScript.Proofs.Outcome

namespace BusScript

open Outcome (bind_iff get_iff modify_iff pure_iff)

namespace RegSet

variable {s : RegSet} {r : Nat}

theorem has_insert (s : RegSet) (r i : Nat) : (s.insert r).has i = (s.has i || decide (r = i)) := by
  rw [has, insert, Nat.testBit_or, has]
  congr 1
  exact Nat.testBit_two_pow

theorem testBit_sub_two_pow {m : Nat} (h : m.testBit r = true) (i : Nat) :
    (m - 2 ^ r).testBit i = (m.testBit i && decide (i ≠ r)) := by
  induction r generalizing m i with
  | zero =>
    rw [Nat.testBit_zero, decide_eq_true_iff] at h
    cases i with
    | zero => grind
    | succ i =>
      rw [Nat.testBit_add_one, Nat.testBit_add_one, show (m - 2 ^ 0) / 2 = m / 2 by omega]
      simp
  | succ r ih =>
    rw [Nat.testBit_add_one] at h
    have hge : 2 ^ r ≤ m / 2 := Nat.ge_two_pow_of_testBit h
    have hpow : 2 ^ (r + 1) = 2 * 2 ^ r := by rw [Nat.pow_succ, Nat.mul_comm]
    rw [hpow]
    cases i with
    | zero =>
      simp only [Nat.testBit_zero, ne_eq, show (0 : Nat) ≠ r + 1 by omega, not_false_eq_true,
        decide_true, Bool.and_true, decide_eq_decide]
      omega
    | succ i =>
      rw [Nat.testBit_add_one, Nat.testBit_add_one, show (m - 2 * 2 ^ r) / 2 = m / 2 - 2 ^ r by omega, ih h i]
      simp

theorem has_erase (h : s.has r = true) (i : Nat) : (s.erase r).has i = (s.has i && decide (i ≠ r)) := by
  rw [has, erase, if_pos h]
  exact testBit_sub_two_pow h i

theorem general_mask_le (s : RegSet) : s.general.mask ≤ 0xffff := by
  exact Nat.le_of_lt_succ (Nat.mod_lt _ (by decide))

end RegSet

namespace CodeWriter

/-- Every allocated register stands in one scope, and once. -/
structure Registers (w : CodeWriter) : Prop where
  nodup : w.scopes.flatten.Nodup
  allocated : ∀ r, w.allocated.has r = true ↔ r ∈ w.scopes.flatten
  small : ∀ r ∈ w.scopes.flatten, r < 32

/-- Registers were allocated and freed, so that these scopes are left; nothing else changed. -/
structure Rescoped (w w' : CodeWriter) (scopes : List (List Nat)) : Prop where
  eq : w' = { w with scopes, allocated := w'.allocated }
  registers : w'.Registers

variable {w : CodeWriter}

variable {scope : List Nat} {rest scopes : List (List Nat)}

theorem Rescoped.scopes_eq {w' : CodeWriter} (h : Rescoped w w' scopes) : w'.scopes = scopes := by
  rw [h.eq]

theorem Rescoped.trans {w' w'' : CodeWriter} {scopes' : List (List Nat)}
    (h : Rescoped w w' scopes) (h' : Rescoped w' w'' scopes') : Rescoped w w'' scopes' :=
  ⟨by rw [h'.eq, h.eq], h'.registers⟩

theorem registers_new : new.Registers := by
  refine ⟨by simp [new], fun r => ?_, by simp [new]⟩
  simp [new, RegSet.has, RegSet.empty]

theorem Registers.push (h : w.Registers) :
    Outcome (fun _ w' => Rescoped w w' ([] :: w.scopes)) (fun _ _ => False) (push w) := by
  change Rescoped w { w with scopes := [] :: w.scopes } _
  refine ⟨rfl, ?_, ?_, ?_⟩
  · simpa using h.nodup
  · simpa using h.allocated
  · simpa using h.small

theorem freeAll_outcome {regs : List Nat} (hnodup : regs.Nodup) (hregs : ∀ r ∈ regs, w.allocated.has r = true) :
    Outcome (fun _ w' => w' = { w with allocated := w'.allocated } ∧
        ∀ i, w'.allocated.has i = (w.allocated.has i && decide (i ∉ regs)))
      (fun _ _ => False) (freeAll regs w) := by
  induction regs generalizing w with
  | nil => exact ⟨rfl, by simp⟩
  | cons r rest ih =>
    obtain ⟨hr, hnodup⟩ := List.nodup_cons.1 hnodup
    have hhas : w.allocated.has r = true := hregs r (by simp)
    rw [freeAll, free]
    simp only [bind_iff, get_iff, hhas, Bool.not_true, Bool.false_eq_true, if_false, modify_iff]
    refine (ih hnodup fun i hi => ?_).imp ?_
    · have hne : i ≠ r := fun heq => hr (heq ▸ hi)
      rw [RegSet.has_erase hhas, hregs i (by simp [hi])]
      simpa using hne
    · rintro _ w' ⟨hw', hhas'⟩
      refine ⟨hw', fun i => ?_⟩
      rw [hhas', RegSet.has_erase hhas, Bool.and_assoc]
      grind

def grow (added : List Nat) (scopes : List (List Nat)) : List (List Nat) :=
  scopes.modifyHead (· ++ added)

@[simp] theorem grow_nil (scopes : List (List Nat)) : grow [] scopes = scopes := by
  cases scopes <;> simp [grow]

@[simp] theorem grow_cons (added scope : List Nat) (rest : List (List Nat)) :
    grow added (scope :: rest) = (scope ++ added) :: rest := rfl

theorem grow_grow (added more : List Nat) (scopes : List (List Nat)) :
    grow more (grow added scopes) = grow (added ++ more) scopes := by
  cases scopes <;> simp [grow]

@[simp] theorem length_grow (added : List Nat) (scopes : List (List Nat)) :
    (grow added scopes).length = scopes.length := by
  cases scopes <;> rfl

theorem flatten_grow_perm {added : List Nat} (h : scopes ≠ []) :
    (grow added scopes).flatten.Perm (scopes.flatten ++ added) := by
  cases scopes with
  | nil => exact absurd rfl h
  | cons scope rest =>
    rw [grow_cons, List.flatten_cons, List.flatten_cons, List.append_assoc, List.append_assoc]
    exact List.Perm.append_left scope List.perm_append_comm

def kept (keep : Option Nat) (scope : List Nat) : List Nat :=
  match keep with
  | some r => if r ∈ scope then [r] else []
  | none => []

theorem mem_kept {keep : Option Nat} {i : Nat} : i ∈ kept keep scope ↔ i ∈ scope ∧ some i = keep := by
  cases keep with
  | none => simp [kept]
  | some r =>
    simp only [kept, Option.some.injEq]
    simp_all

theorem nodup_kept (keep : Option Nat) (scope : List Nat) : (kept keep scope).Nodup := by
  cases keep with
  | none => exact List.nodup_nil
  | some r =>
    simp only [kept]
    split <;> simp

section

variable (h : w.Registers)

include h

theorem Registers.drop (hscopes : w.scopes = scope :: rest) (keep : Option Nat) (hrest : kept keep scope ≠ [] → rest ≠ [])
    {w' : CodeWriter} (hscopes' : w'.scopes = grow (kept keep scope) rest) (hhas : ∀ i, w'.allocated.has i =
      (w.allocated.has i && decide (i ∉ scope.filter fun r => some r ≠ keep))) : w'.Registers := by
  obtain ⟨-, hflat, hapart⟩ := List.nodup_append.1 (by simpa [hscopes] using h.nodup : (scope ++ rest.flatten).Nodup)
  have hperm : (grow (kept keep scope) rest).flatten.Perm (rest.flatten ++ kept keep scope) := by
    by_cases hkept : kept keep scope = []
    · simp [hkept]
    · exact flatten_grow_perm (hrest hkept)
  have hmem : ∀ i, i ∈ w'.scopes.flatten ↔ i ∈ rest.flatten ∨ i ∈ scope ∧ some i = keep := fun i => by
    rw [hscopes', hperm.mem_iff, List.mem_append, mem_kept]
  have hin : ∀ i, i ∈ w.scopes.flatten ↔ i ∈ scope ∨ i ∈ rest.flatten := fun i => by
    rw [hscopes, List.flatten_cons, List.mem_append]
  refine ⟨?_, fun i => ?_, fun i hi => h.small i ?_⟩
  · rw [hscopes', hperm.nodup_iff]
    refine List.nodup_append.2 ⟨hflat, nodup_kept keep scope, ?_⟩
    intro i hi j hj heq
    exact hapart j (mem_kept.1 hj).1 i hi heq.symm
  · rw [hhas, Bool.and_eq_true, h.allocated, hin, hmem, decide_eq_true_iff, List.mem_filter, decide_eq_true_iff]
    constructor
    · rintro ⟨hi | hi, hnot⟩
      · exact .inr ⟨hi, Classical.not_not.1 fun hne => hnot ⟨hi, hne⟩⟩
      · exact .inl hi
    · rintro (hi | ⟨hi, heq⟩)
      · exact ⟨.inr hi, fun hnot => hapart i hnot.1 i hi rfl⟩
      · exact ⟨.inl hi, fun hnot => hnot.2 heq⟩
  · grind

theorem Registers.freed (hscopes : w.scopes = scope :: rest) (keep : Option Nat) :
    Outcome (fun _ w' => w' = { w with scopes := rest, allocated := w'.allocated } ∧ ∀ i, w'.allocated.has i =
          (w.allocated.has i && decide (i ∉ scope.filter fun r => some r ≠ keep)))
      (fun _ _ => False) (freeAll (scope.filter fun r => some r ≠ keep) { w with scopes := rest }) := by
  have hnodup : (scope ++ rest.flatten).Nodup := by simpa [hscopes] using h.nodup
  refine (freeAll_outcome (w := { w with scopes := rest }) ((List.nodup_append.1 hnodup).1.filter _)
    fun r hr => (h.allocated r).2 ?_).imp ?_
  · simp_all
  · grind

theorem Registers.popExcept
    (hscopes : w.scopes = scope :: rest) {keep : Option Nat} (hrest : kept keep scope ≠ [] → rest ≠ []) :
    Outcome (fun _ w' => Rescoped w w' (grow (kept keep scope) rest)) (fun _ _ => False) (popExcept keep w) := by
  rw [CodeWriter.popExcept]
  simp only [takeScope, bind_iff, get_iff, hscopes, modify_iff, pure_iff]
  refine (h.freed hscopes keep).imp ?_
  rintro _ w' ⟨hw', hhas⟩
  have hscopes' : w'.scopes = rest := by rw [hw']
  cases keep with
  | none =>
    exact ⟨by rw [hw']; simp [kept], h.drop hscopes _ hrest (by simp [hscopes', kept]) hhas⟩
  | some r =>
    by_cases hr : r ∈ scope
    · obtain ⟨outer, rest, rfl⟩ := List.exists_cons_of_ne_nil (hrest (by simp [kept, hr]))
      simp only [hr, if_true, addToScope, bind_iff, get_iff, hscopes', modify_iff]
      refine ⟨?_, h.drop hscopes _ hrest ?_ hhas⟩
      · rw [hw']
        simp [kept, hr]
      · simp [kept, hr]
    · simp only [hr, if_false, pure_iff]
      exact ⟨by rw [hw']; simp [kept, hr], h.drop hscopes _ hrest (by simp [hscopes', kept, hr]) hhas⟩

theorem Registers.pop (hscopes : w.scopes = scope :: rest) :
    Outcome (fun _ w' => Rescoped w w' rest) (fun _ _ => False) (pop w) := by
  rw [CodeWriter.pop]
  simp only [takeScope, bind_iff, get_iff, hscopes, modify_iff, pure_iff]
  have hall : (scope.filter fun r => some r ≠ (none : Option Nat)) = scope := by simp
  have hfreed := h.freed hscopes none
  rw [hall] at hfreed
  refine hfreed.imp ?_
  rintro _ w' ⟨hw', hhas⟩
  have hscopes' : w'.scopes = rest := by rw [hw']
  refine ⟨by rw [hw'], h.drop hscopes none (absurd rfl) (by simp [hscopes', kept]) ?_⟩
  rw [hall]
  exact hhas

theorem Registers.insert (hscopes : w.scopes ≠ []) {r : Nat} (hr : r < 32) (hfree : w.allocated.has r = false) :
    Registers { w with scopes := grow [r] w.scopes, allocated := w.allocated.insert r } := by
  have hperm : (grow [r] w.scopes).flatten.Perm (w.scopes.flatten ++ [r]) :=
    flatten_grow_perm hscopes
  have hnot : r ∉ w.scopes.flatten := by
    rw [← h.allocated, hfree]
    nofun
  refine ⟨?_, fun i => ?_, fun i hi => ?_⟩
  · rw [hperm.nodup_iff]
    refine List.nodup_append.2 ⟨h.nodup, by simp, ?_⟩
    grind
  · rw [RegSet.has_insert, Bool.or_eq_true, h.allocated, hperm.mem_iff, List.mem_append,
      List.mem_singleton, decide_eq_true_iff, eq_comm]
  · rw [hperm.mem_iff, List.mem_append, List.mem_singleton] at hi
    rcases hi with hi | rfl
    · exact h.small i hi
    · exact hr

theorem Registers.alloc (hscopes : w.scopes ≠ []) {r : Nat} (hr : r < 32) :
    Outcome (fun _ w' => Rescoped w w' (grow [r] w.scopes) ∧ w.allocated.has r = false)
      (fun stop w' => w' = w ∧ ∃ p, stop = .reject p) (alloc r w) := by
  obtain ⟨scope, rest, hcons⟩ := List.exists_cons_of_ne_nil hscopes
  have hlow : ¬ 32 ≤ r := by omega
  rw [CodeWriter.alloc]
  simp only [hlow, if_false, bind_iff, get_iff]
  cases hfree : w.allocated.has r with
  | true => exact ⟨rfl, _, rfl⟩
  | false =>
    simp only [Bool.false_eq_true, if_false, addToScope, bind_iff, get_iff, hcons, modify_iff]
    have hregs := h.insert hscopes hr hfree
    rw [hcons] at hregs
    exact ⟨⟨rfl, hregs⟩, trivial⟩

theorem Registers.allocReg (hscopes : w.scopes ≠ []) :
    Outcome (fun r w' => Rescoped w w' (grow [r] w.scopes) ∧ r < 16 ∧ w.allocated.has r = false)
      (fun stop w' => w' = w ∧ ∃ p, stop = .reject p) (allocReg w) := by
  rw [CodeWriter.allocReg]
  simp only [bind_iff, get_iff]
  cases hfound : (List.range 16).reverse.find? fun r => !w.allocated.has r with
  | none => exact ⟨rfl, _, rfl⟩
  | some r =>
    have hr : r < 16 := by simpa using List.mem_of_find?_eq_some hfound
    simp only [bind_iff, pure_iff]
    refine (h.alloc hscopes (by omega)).imp ?_
    simp_all

theorem Registers.allocBuffer (hscopes : w.scopes ≠ []) :
    Outcome (fun _ w' => Rescoped w w' (grow [RegSet.bufferReg] w.scopes))
      (fun stop w' => w' = w ∧ ∃ p, stop = .reject p) (allocBuffer w) :=
  (h.alloc hscopes (by decide)).imp fun _ _ h => h.1

theorem Registers.allocEach (hscopes : w.scopes ≠ []) {regs : List Nat} :
    Outcome (fun _ w' => Rescoped w w' (grow regs w.scopes) ∧ ∀ r ∈ regs, r < 32)
      (fun stop w' => (∃ some, Rescoped w w' (grow some w.scopes)) ∧
        ((∃ p, stop = .reject p) ∨ stop = .abort .registerNumber ∧ ∃ r ∈ regs, 32 ≤ r))
      (allocEach regs w) := by
  induction regs generalizing w with
  | nil => exact ⟨⟨by rw [grow_nil], h⟩, by simp⟩
  | cons r rest ih =>
    rw [CodeWriter.allocEach]
    by_cases hr : r < 32
    · refine (h.alloc hscopes hr).bind ?_ ?_
      · rintro _ w' ⟨hw', -⟩
        have hscopes' : w'.scopes ≠ [] := by
          rw [hw'.scopes_eq, ← List.length_pos_iff, length_grow, List.length_pos_iff]
          exact hscopes
        refine (ih hw'.registers hscopes').mono ?_ ?_
        · rintro _ w'' ⟨hw'', hsmall⟩
          rw [hw'.scopes_eq, grow_grow] at hw''
          refine ⟨hw'.trans hw'', fun i hi => ?_⟩
          grind
        · rintro stop w'' ⟨⟨regs, hw''⟩, hwhy⟩
          rw [hw'.scopes_eq, grow_grow] at hw''
          refine ⟨⟨_, hw'.trans hw''⟩, hwhy.imp_right ?_⟩
          simp_all
      · rintro stop w' ⟨rfl, hreject⟩
        exact ⟨⟨[], by rw [grow_nil], h⟩, .inl hreject⟩
    · have hlarge : 32 ≤ r := by omega
      simp only [CodeWriter.alloc, hlarge, if_true]
      exact ⟨⟨[], by rw [grow_nil], h⟩, .inr ⟨rfl, r, by simp, hlarge⟩⟩

theorem Registers.allocArgs (hscopes : w.scopes ≠ []) (count : Nat) :
    Outcome (fun regs w' => regs = List.range (count % 256) ∧ Rescoped w w' (grow regs w.scopes) ∧ ∀ r ∈ regs, r < 32)
      (fun stop w' => (∃ some, Rescoped w w' (grow some w.scopes)) ∧
        ((∃ p, stop = .reject p) ∨ stop = .abort .registerNumber ∧ 32 < count))
      (allocArgs count w) := by
  rw [CodeWriter.allocArgs]
  simp only [bind_iff, pure_iff]
  refine (h.allocEach hscopes).mono ?_ ?_
  · rintro _ w' hw'
    exact ⟨trivial, hw'⟩
  · grind

end

end CodeWriter

end BusScript
