import BusScript.Machine.RegisterCache

namespace BusScript

section Counting

variable {α : Type} {P : α → Bool} {xs : List α} {index : Nat} {g : α → α}

theorem countP_modify_le (hg : ∀ x, xs[index]? = some x → P (g x) = true → P x = true) :
    (xs.modify index g).countP P ≤ xs.countP P := by
  induction xs generalizing index with
  | nil => cases index <;> exact Nat.le_refl _
  | cons x rest ih => grind

theorem countP_modify_lt {x : α} (hx : xs[index]? = some x) (hP : P x = true) (hg : P (g x) = false) :
    (xs.modify index g).countP P < xs.countP P := by
  induction xs generalizing index with
  | nil => cases hx
  | cons first rest ih => grind

end Counting

/-- Asks nothing of the last access, and is false of dead entries. -/
structure CachedRegister.AsksLive (P : CachedRegister → Bool) : Prop where
  access : ∀ e stamp, P { e with lastAccess := stamp } = P e
  dead : ∀ e : CachedRegister, P e.kill = false

namespace CachedRegister

variable {e e' : CachedRegister} {role now : Nat} {p : Packet}

theorem isDead_of_update? (h : e.update? role p now = some e') : e.isDead = false := by
  cases hdead : e.isDead with
  | false => rfl
  | true =>
    rw [update?, hdead] at h
    cases h

theorem eq_of_update? (hargument : e.argument = none) (h : e.update? role p now = some e') :
    e.role = role ∧ e.code = p.code ∧ p.isReport = true ∧ e' = { e with value := p.data, lastRefresh := now } := by
  rw [update?] at h
  split at h
  · cases h
  · next hmatch =>
    simp only [Bool.or_eq_true, not_or, bne_iff_ne, ne_eq, Decidable.not_not, Bool.not_eq_true',
      Bool.not_eq_true, Bool.not_eq_false] at hmatch
    obtain ⟨⟨⟨-, hrole⟩, hcode⟩, hreport⟩ := hmatch
    rw [hargument, answer?, Option.map_some, Option.some.injEq] at h
    exact ⟨hrole, hcode, hreport, by rw [← h, hargument]⟩

end CachedRegister

namespace RegisterCache

open CachedRegister

/-- Every kind of live entry is at most as frequent as before. -/
def Shrinks (c c' : RegisterCache) : Prop :=
  ∀ P, AsksLive P → c'.entries.countP P ≤ c.entries.countP P

namespace Shrinks

variable {c c' : RegisterCache}

theorem refl (c : RegisterCache) : c.Shrinks c := fun _ _ => Nat.le_refl _

theorem forall_live (h : c.Shrinks c') {S : CachedRegister → Prop}
    (hS : ∀ e stamp, S { e with lastAccess := stamp } ↔ S e)
    (hall : ∀ e ∈ c.entries, e.isDead = false → S e) :
    ∀ e ∈ c'.entries, e.isDead = false → S e := by
  classical
  let P : CachedRegister → Bool := fun e => !e.isDead && decide (¬ S e)
  have hP : AsksLive P := by
    constructor
    · grind
    · intro e
      rfl
  have hzero : c'.entries.countP P = 0 := by
    refine Nat.le_zero.1 (Nat.le_trans (h P hP) (Nat.le_of_eq (List.countP_eq_zero.2 ?_)))
    grind
  grind

end Shrinks

variable {c : RegisterCache} {P : CachedRegister → Bool}

theorem shrinks_modify_kill (index : Nat) : c.Shrinks (c.modify index kill) := by
  intro P hP
  apply countP_modify_le
  intro e _ hkill
  rw [hP.dead] at hkill
  cases hkill

theorem shrinks_map_kill (q : CachedRegister → Bool) :
    c.Shrinks { c with entries := c.entries.map fun e => if q e then e.kill else e } := by
  intro P hP
  change (c.entries.map _).countP P ≤ _
  rw [List.countP_map]
  apply List.countP_mono_left
  intro e _ he
  rw [Function.comp_apply] at he
  split at he
  · rw [hP.dead] at he
    cases he
  · exact he

theorem shrinks_lookup (role : Nat) (code : CommandCode) (argument : Option Bytes) (now validity : Nat) :
    c.Shrinks (c.lookup role code argument now validity).2 := by
  rw [lookup]
  split
  · exact .refl c
  · split
    · exact .refl c
    · next r hr =>
      split
      · exact shrinks_modify_kill _
      · intro P hP
        apply countP_modify_le
        intro e he hhit
        rw [hr, Option.some.injEq] at he
        rw [hP.access] at hhit
        exact he ▸ hhit

theorem shrinks_invalidate (role : Nat) (code : CommandCode) : c.Shrinks (c.invalidate role code) := by
  rw [invalidate]
  split
  · exact shrinks_modify_kill _
  · exact .refl c

theorem shrinks_detach (role : Nat) : c.Shrinks (c.detach role) := shrinks_map_kill (·.role == role)

theorem countP_killOldest_le (hP : AsksLive P) (target rounds : Nat) (entries : List CachedRegister) :
    (killOldest target rounds entries).countP P ≤ entries.countP P := by
  induction rounds generalizing entries with
  | zero => exact Nat.le_refl _
  | succ rounds ih =>
    rw [killOldest]
    split
    · exact Nat.le_refl _
    · split
      · exact Nat.le_refl _
      · next stamp _ =>
        refine Nat.le_trans (ih _) ?_
        have hkill := shrinks_map_kill (c := ⟨entries, 0, 0⟩) (fun e => decide (e.lastAccess ≤ stamp)) P hP
        simpa using hkill

theorem shrinks_evict : c.Shrinks c.evict := by
  intro P hP
  exact Nat.le_trans (List.filter_sublist.countP_le) (countP_killOldest_le hP ..)

theorem countP_add_le (hP : AsksLive P) (r : CachedRegister) :
    (c.add r).entries.countP P ≤ c.entries.countP P + if P r then 1 else 0 := by
  have hroom (c' : RegisterCache) (h : c.Shrinks c') : (c'.entries ++ [{ r with lastAccess := c'.accesses }]).countP P ≤
        c.entries.countP P + if P r then 1 else 0 := by
    rw [List.countP_append, List.countP_singleton, hP.access]
    exact Nat.add_le_add_right (h P hP) _
  rw [add]
  split
  · exact hroom _ shrinks_evict
  · exact hroom _ (.refl c)

theorem forall_live_add {r : CachedRegister} {S : CachedRegister → Prop}
    (hS : ∀ e stamp, S { e with lastAccess := stamp } ↔ S e)
    (hall : ∀ e ∈ c.entries, e.isDead = false → S e) (hr : S r) :
    ∀ e ∈ (c.add r).entries, e.isDead = false → S e := by
  have hroom (c' : RegisterCache) (h : c.Shrinks c') :
      ∀ e ∈ c'.entries ++ [{ r with lastAccess := c'.accesses }], e.isDead = false → S e := by
    intro e hmem hlive
    rcases List.mem_append.1 hmem with hmem | hmem
    · exact h.forall_live hS hall e hmem hlive
    · simp_all
  rw [add]
  split
  · exact hroom _ shrinks_evict
  · exact hroom _ (.refl c)

theorem mem_of_lookup_eq_some {role now validity : Nat} {code : CommandCode} {argument : Option Bytes}
    {hit : CachedRegister} {c' : RegisterCache}
    (h : c.lookup role code argument now validity = (some hit, c')) :
    ∃ e ∈ c.entries, e.isDead = false ∧ e.role = role ∧ e.code = code ∧ e.argument = argument ∧
      e.value = hit.value ∧ e.lastRefresh = hit.lastRefresh ∧ now - e.lastRefresh ≤ validity := by
  rw [lookup] at h
  split at h
  · cases h
  · next index hindex =>
    split at h
    · cases h
    · next r hr =>
      split at h
      · cases h
      · next hfresh =>
        cases h
        obtain ⟨hlt, hfor, -⟩ := List.findIdx?_eq_some_iff_getElem.1 hindex
        rw [List.getElem?_eq_getElem hlt, Option.some.injEq] at hr
        rw [hr, isFor, isLive, Bool.and_eq_true, Bool.and_eq_true, Bool.and_eq_true, Bool.not_eq_true',
          beq_iff_eq, beq_iff_eq, beq_iff_eq] at hfor
        obtain ⟨⟨⟨hlive, hrole⟩, hcode⟩, hargument⟩ := hfor
        refine ⟨r, hr ▸ List.getElem_mem hlt, hlive, hrole, hcode, hargument, rfl, rfl, ?_⟩
        rw [CachedRegister.isExpired, decide_eq_true_iff] at hfresh
        exact Nat.le_of_not_lt hfresh

def liveFor (c : RegisterCache) (role : Nat) (code : CommandCode) : Nat :=
  c.entries.countP fun e => isLive e && e.role == role && e.code == code

theorem asksLive_register (role : Nat) (code : CommandCode) :
    AsksLive fun e => isLive e && e.role == role && e.code == code :=
  ⟨fun _ _ => rfl, fun _ => rfl⟩

variable {role : Nat} {code : CommandCode}

theorem Shrinks.liveFor_le {c' : RegisterCache} (h : c.Shrinks c') (role : Nat) (code : CommandCode) :
    c'.liveFor role code ≤ c.liveFor role code := h _ (asksLive_register role code)

theorem liveFor_add_le (r : CachedRegister) (role : Nat) (code : CommandCode) : (c.add r).liveFor role code ≤
      c.liveFor role code + if r.role = role ∧ r.code = code then 1 else 0 := by
  refine Nat.le_trans (countP_add_le (asksLive_register role code) r) (Nat.add_le_add_left ?_ _)
  grind

theorem liveFor_pos_of_mem {e : CachedRegister} (hmem : e ∈ c.entries) (hlive : e.isDead = false) :
    0 < c.liveFor e.role e.code := by
  refine List.countP_pos_iff.2 ⟨e, hmem, ?_⟩
  rw [isLive, hlive, beq_self_eq_true, beq_self_eq_true]
  rfl

theorem exists_mem_of_liveFor_pos (h : 0 < c.liveFor role code) :
    ∃ e ∈ c.entries, e.isDead = false ∧ e.role = role ∧ e.code = code := by
  obtain ⟨e, hmem, he⟩ := List.countP_pos_iff.1 h
  rw [isLive, Bool.and_eq_true, Bool.and_eq_true, Bool.not_eq_true', beq_iff_eq, beq_iff_eq] at he
  exact ⟨e, hmem, he.1.1, he.1.2, he.2⟩

theorem liveFor_update (role' : Nat) (p : Packet) (now : Nat) :
    (c.update role' p now).liveFor role code = c.liveFor role code := by
  rw [liveFor, update, List.countP_map]
  refine List.countP_congr fun e _ => ?_
  rw [Function.comp_apply]
  have hsame : ((e.update? role' p now).getD e).role = e.role ∧ ((e.update? role' p now).getD e).code = e.code ∧
      ((e.update? role' p now).getD e).isDead = e.isDead := by
    rw [CachedRegister.update?]
    split
    · exact ⟨rfl, rfl, rfl⟩
    · cases CachedRegister.answer? e.argument p.data <;> exact ⟨rfl, rfl, rfl⟩
  rw [isLive, isLive, hsame.1, hsame.2.1, hsame.2.2]

theorem liveFor_modify_kill {argument : Option Bytes} {index : Nat} (h : c.findIdx? role code argument = some index) :
    (c.modify index kill).liveFor role code < c.liveFor role code := by
  obtain ⟨hlt, hfor, -⟩ := List.findIdx?_eq_some_iff_getElem.1 h
  rw [isFor, Bool.and_eq_true] at hfor
  exact countP_modify_lt (List.getElem?_eq_getElem hlt) hfor.1 rfl

section

variable (hargument : ∀ e ∈ c.entries, e.isDead = false → e.argument = none)

include hargument

theorem liveFor_eq_zero_of_findIdx? (h : c.findIdx? role code none = none) : c.liveFor role code = 0 := by
  refine Nat.eq_zero_of_not_pos fun hpos => ?_
  obtain ⟨e, hmem, hlive, hrole, hcode⟩ := exists_mem_of_liveFor_pos hpos
  have hnot := List.findIdx?_eq_none_iff.1 h e hmem
  rw [isFor, isLive, hlive, hrole, hcode, hargument e hmem hlive, beq_self_eq_true, beq_self_eq_true,
    beq_self_eq_true] at hnot
  cases hnot

theorem liveFor_invalidate (hone : c.liveFor role code ≤ 1) : (c.invalidate role code).liveFor role code = 0 := by
  rw [invalidate]
  split
  · next index hindex =>
    have hlt := liveFor_modify_kill hindex
    omega
  · next hindex => exact liveFor_eq_zero_of_findIdx? hargument hindex

theorem liveFor_of_lookup_eq_none {now validity : Nat} {c' : RegisterCache}
    (hone : c.liveFor role code ≤ 1) (h : c.lookup role code none now validity = (none, c')) :
    c'.liveFor role code = 0 := by
  rw [lookup] at h
  split at h
  · next hindex =>
    cases h
    exact liveFor_eq_zero_of_findIdx? hargument hindex
  · next index hindex =>
    obtain ⟨hlt, -, -⟩ := List.findIdx?_eq_some_iff_getElem.1 hindex
    rw [List.getElem?_eq_getElem hlt] at h
    simp only at h
    split at h
    · cases h
      have hlt := liveFor_modify_kill hindex
      omega
    · cases h

end

end RegisterCache

end BusScript
