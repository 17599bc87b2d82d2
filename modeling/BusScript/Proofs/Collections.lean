import Mathlib.Algebra.Order.BigOperators.Group.List
import Mathlib.Algebra.Order.Ring.Nat
import Mathlib.Order.Interval.Finset.Nat

namespace BusScript

section Lists

variable {α : Type}

theorem mem_modify {l : List α} {i : Nat} {g : α → α} {y : α} (h : y ∈ l.modify i g) :
    (∃ j, j ≠ i ∧ l[j]? = some y) ∨ ∃ x, l[i]? = some x ∧ y = g x := by
  obtain ⟨j, hj⟩ := List.mem_iff_getElem?.1 h
  grind

theorem pairwise_zipIdx (l : List α) : l.zipIdx.Pairwise fun x y => x.2 < y.2 := by
  rw [List.pairwise_iff_getElem]
  intro i j hi hj hlt
  rw [List.getElem_zipIdx, List.getElem_zipIdx, Nat.zero_add, Nat.zero_add]
  exact hlt

theorem sum_eraseIdx_le (s : List α) (w : α → Nat) (index : Nat) :
    ((s.eraseIdx index).map w).sum ≤ (s.map w).sum :=
  ((List.eraseIdx_sublist s index).map w).sum_le_sum fun _ _ => Nat.zero_le _

variable {s : List α} {g : α → α} {w w' : α → Nat} {index : Nat} (hw : ∀ x, w' x ≤ w x)
include hw

theorem sum_modify {x : α} (hx : s[index]? = some x) :
    ((s.modify index g).map w').sum + w x ≤ (s.map w).sum + w' (g x) := by
  induction s generalizing index with
  | nil => cases hx
  | cons y s ih =>
    cases index with
    | zero =>
      cases hx
      have hrest : (s.map w').sum ≤ (s.map w).sum := List.sum_le_sum fun y _ => hw y
      rw [List.modify_zero_cons, List.map_cons, List.map_cons, List.sum_cons, List.sum_cons]
      omega
    | succ index =>
      have hrest := ih hx
      have hy := hw y
      rw [List.modify_succ_cons, List.map_cons, List.map_cons, List.sum_cons, List.sum_cons]
      omega

theorem sum_modify_le {k : Nat} (hg : ∀ x, w' (g x) ≤ w x + k) :
    ((s.modify index g).map w').sum ≤ (s.map w).sum + k := by
  cases hx : s[index]? with
  | none =>
    rw [List.modify_eq_self (List.getElem?_eq_none_iff.1 hx)]
    exact Nat.le_add_right_of_le (List.sum_le_sum fun y _ => hw y)
  | some x =>
    have hsum := sum_modify (g := g) hw hx
    have hx := hg x
    omega

end Lists

theorem finite_iff {P : Nat → Prop} : {n | P n}.Finite ↔ ∃ n, ∀ k, ¬ P (n + k) := by
  rw [Set.finite_iff_bddAbove]
  constructor
  · rintro ⟨n, hn⟩
    refine ⟨n + 1, fun k hk => ?_⟩
    have hle := hn hk
    omega
  · rintro ⟨n, hn⟩
    refine ⟨n, fun j hj => Nat.le_of_not_lt fun hlt => ?_⟩
    obtain ⟨k, rfl⟩ := Nat.exists_eq_add_of_lt hlt
    exact hn (k + 1) (by rwa [← Nat.add_assoc])

end BusScript
