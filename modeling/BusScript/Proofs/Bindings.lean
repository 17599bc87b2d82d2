import Mathlib
import BusScript.Machine.Role

namespace BusScript

namespace Device

/-- A device has a service of a class, which is not its control service. -/
structure Offers (d : Device) (classId : UInt32) (b : Binding) : Prop where
  id_eq : d.id = b.device
  pos : 1 ≤ b.service.toNat
  lt : b.service.toNat < maxServices
  service : d.services[b.service.toNat]? = some classId

/-- The services that roles can be bound to, each with its number. -/
def slots (d : Device) : List (UInt32 × Nat) := (d.services.zipIdx.take maxServices).drop 1

def slot? (d : Device) (classId : UInt32) (taken : List Binding) (slot : UInt32 × Nat) : Option Binding :=
  if slot.1 == classId && !taken.contains ⟨d.id, slot.2.toUInt8⟩ then some ⟨d.id, slot.2.toUInt8⟩ else none

variable {d : Device} {classId : UInt32} {taken taken' : List Binding} {b : Binding}

theorem freeService?_eq (d : Device) (classId : UInt32) (taken : List Binding) :
    d.freeService? classId taken = d.slots.findSome? (d.slot? classId taken) := rfl

theorem mem_slots {cls : UInt32} {index : Nat} :
    (cls, index) ∈ d.slots ↔ d.services[index]? = some cls ∧ 1 ≤ index ∧ index < maxServices := by
  rw [slots, List.mem_iff_getElem?]
  constructor
  · grind
  · rintro ⟨hservice, hpos, hlt⟩
    refine ⟨index - 1, ?_⟩
    simp_all

theorem slot?_eq_some_iff {slot : UInt32 × Nat} :
    d.slot? classId taken slot = some b ↔ slot.1 = classId ∧ b = ⟨d.id, slot.2.toUInt8⟩ ∧ b ∉ taken := by
  rw [slot?, Option.ite_none_right_eq_some, Bool.and_eq_true, beq_iff_eq, Bool.not_eq_true', List.contains_eq_mem,
    decide_eq_false_iff_not, Option.some.injEq, and_assoc]
  constructor
  · rintro ⟨hclass, hfree, rfl⟩
    exact ⟨hclass, rfl, hfree⟩
  · rintro ⟨hclass, rfl, hfree⟩
    exact ⟨hclass, hfree, rfl⟩

theorem offers_of_freeService? (h : d.freeService? classId taken = some b) : d.Offers classId b ∧ b ∉ taken := by
  rw [freeService?_eq] at h
  obtain ⟨⟨cls, index⟩, hmem, hslot⟩ := List.exists_of_findSome?_eq_some h
  obtain ⟨rfl, rfl, hfree⟩ := slot?_eq_some_iff.1 hslot
  obtain ⟨hservice, hpos, hlt⟩ := mem_slots.1 hmem
  have hnat : index.toUInt8.toNat = index := Nat.mod_eq_of_lt (Nat.lt_trans hlt (by decide))
  exact ⟨⟨rfl, hnat.symm ▸ hpos, hnat.symm ▸ hlt, hnat.symm ▸ hservice⟩, hfree⟩

theorem freeService?_congr (h : ∀ b, b ∈ taken ↔ b ∈ taken') :
    d.freeService? classId taken = d.freeService? classId taken' := by
  rw [freeService?_eq, freeService?_eq]
  congr 1
  funext slot
  simp only [slot?, List.contains_eq_mem, h]

end Device

namespace Roles

def Exclusive (roles : List Role) : Prop := (held roles).Nodup

variable {roles front table : List Role} {r : Role} {i index : Nat} {devices : List Device} {taken : List Binding}
  {classId : UInt32} {b : Binding}

theorem exclusive_of_unbound (h : ∀ r ∈ roles, r.binding = none) : Exclusive roles := by
  rw [Exclusive, held, List.filterMap_eq_nil_iff.2 h]
  exact List.nodup_nil

theorem exclusive_map {α : Type} {f : α → Role} (h : ∀ x, (f x).binding = none) (xs : List α) :
    Exclusive (xs.map f) := by
  refine exclusive_of_unbound fun r hr => ?_
  grind

theorem Exclusive.index_eq (h : Exclusive roles) {j : Nat} {r' : Role} (hi : roles[i]? = some r)
    (hj : roles[j]? = some r') (hb : r.binding = some b) (hb' : r'.binding = some b) : i = j := by
  have hpairs := List.pairwise_filterMap.1 h
  rw [List.pairwise_iff_getElem] at hpairs
  obtain ⟨hilt, rfl⟩ := List.getElem?_eq_some_iff.1 hi
  obtain ⟨hjlt, rfl⟩ := List.getElem?_eq_some_iff.1 hj
  rcases Nat.lt_trichotomy i j with hlt | heq | hgt
  · exact (hpairs i j hilt hjlt hlt b hb b hb' rfl).elim
  · exact heq
  · exact (hpairs j i hjlt hilt hgt b hb' b hb rfl).elim

theorem held_append (roles roles' : List Role) : held (roles ++ roles') = held roles ++ held roles' :=
  List.filterMap_append

theorem held_cons (r : Role) (roles : List Role) : held (r :: roles) = r.binding.toList ++ held roles := by
  cases hb : r.binding with
  | none => exact List.filterMap_cons_none hb
  | some b => exact List.filterMap_cons_some hb

theorem offered_of_findSome? (h : devices.findSome? (·.freeService? classId taken) = some b) :
    b ∉ taken ∧ ∃ d ∈ devices, d.Offers classId b := by
  obtain ⟨d, hd, hfree⟩ := List.exists_of_findSome?_eq_some h
  obtain ⟨hoffers, hnot⟩ := Device.offers_of_freeService? hfree
  exact ⟨hnot, d, hd, hoffers⟩

theorem binding_of_isConnected_eq_false (h : ¬ r.isConnected = true) : r.binding = none := by
  rw [Role.isConnected, Bool.or_eq_true, not_or] at h
  exact Option.not_isSome_iff_eq_none.1 h.2

/-- A role after its turn, when the roles are as in `table`. -/
def turn (devices : List Device) (table : List Role) (r : Role) : Role :=
  if r.isConnected then r else { r with binding := devices.findSome? (·.freeService? r.classId (held table)) }

theorem turn_of_isConnected (h : r.isConnected = true) : turn devices table r = r := if_pos h

/-- A role is left as it is, because it is connected or finds nothing, or it is bound to what it finds. -/
theorem turn_cases (devices : List Device) (table : List Role) (r : Role) : turn devices table r = r ∧
        (r.isConnected = true ∨ devices.findSome? (·.freeService? r.classId (held table)) = none) ∨
      r.isConnected = false ∧ ∃ b, devices.findSome? (·.freeService? r.classId (held table)) = some b ∧
        turn devices table r = { r with binding := some b } := by
  rw [turn]
  split
  · next hconnected => exact .inl ⟨rfl, .inl hconnected⟩
  · next hconnected =>
    cases hfound : devices.findSome? (·.freeService? r.classId (held table)) with
    | none => exact .inl ⟨by rw [← binding_of_isConnected_eq_false hconnected], .inr rfl⟩
    | some b => exact .inr ⟨Bool.eq_false_iff.2 hconnected, b, rfl, rfl⟩

theorem held_turned (hnone : r.binding = none) (front roles : List Role) (b : Binding) :
    (held (front ++ { r with binding := some b } :: roles)).Perm (b :: held (front ++ r :: roles)) := by
  rw [held_append, held_append, held_cons, held_cons, hnone]
  exact List.perm_middle

/-- One role has its turn, with `front` in front of it. -/
theorem exists_bindEach_cons (devices : List Device) (index : Nat)
    (htaken : ∀ b, b ∈ taken ↔ b ∈ held (front ++ r :: roles)) :
    ∃ taken', (∀ b, b ∈ taken' ↔ b ∈ held (front ++ turn devices (front ++ r :: roles) r :: roles)) ∧
      (bindEach devices taken index (r :: roles)).1 =
        turn devices (front ++ r :: roles) r :: (bindEach devices taken' (index + 1) roles).1 := by
  have hsearch : devices.findSome? (·.freeService? r.classId (held (front ++ r :: roles))) =
      devices.findSome? (·.freeService? r.classId taken) := by
    congr 1
    funext d
    exact Device.freeService?_congr fun b => (htaken b).symm
  rw [bindEach]
  rcases turn_cases devices (front ++ r :: roles) r with ⟨hsame, hcase⟩ | ⟨hconnected, b, hfound, hturn⟩
  · rw [hsame]
    refine ⟨taken, htaken, ?_⟩
    grind
  · rw [hturn, if_neg (Bool.eq_false_iff.1 hconnected), ← hsearch, hfound]
    refine ⟨b :: taken, fun c => ?_, rfl⟩
    rw [(held_turned (binding_of_isConnected_eq_false (Bool.eq_false_iff.1 hconnected)) ..).mem_iff, List.mem_cons,
      List.mem_cons, htaken]

def tableAt (roles roles' : List Role) (i : Nat) : List Role := roles'.take i ++ roles.drop i

theorem bindEach_turns (htaken : ∀ b, b ∈ taken ↔ b ∈ held (front ++ roles)) (i : Nat) :
    (bindEach devices taken index roles).1[i]? =
      roles[i]?.map (turn devices (front ++ tableAt roles (bindEach devices taken index roles).1 i)) := by
  induction roles generalizing front taken index i with
  | nil => rfl
  | cons r rest ih =>
    obtain ⟨taken', htaken', heq⟩ := exists_bindEach_cons devices index htaken
    rw [heq]
    cases i with
    | zero => rfl
    | succ i =>
      rw [List.append_cons] at htaken'
      rw [List.getElem?_cons_succ, List.getElem?_cons_succ, ih htaken', List.append_assoc]
      rfl

theorem autobind_turns (roles : List Role) (devices : List Device) (i : Nat) : (autobind roles devices).roles[i]? =
      roles[i]?.map (turn (byId devices) (tableAt roles (autobind roles devices).roles i)) := by
  rw [autobind]
  split
  · next hall =>
    cases hr : roles[i]? with
    | none => rfl
    | some r => rw [Option.map_some, turn_of_isConnected (List.all_eq_true.1 hall r (List.mem_of_getElem? hr))]
  · exact bindEach_turns (show ∀ b, b ∈ held roles ↔ b ∈ held ([] ++ roles) from fun _ => Iff.rfl) i

theorem length_autobind : (autobind roles devices).roles.length = roles.length := by
  refine Nat.le_antisymm ?_ ?_
  · rw [← List.getElem?_eq_none_iff, autobind_turns, List.getElem?_eq_none (Nat.le_refl _), Option.map_none]
  · rw [← List.getElem?_eq_none_iff, ← Option.map_eq_none_iff, ← autobind_turns, List.getElem?_eq_none (Nat.le_refl _)]

theorem mem_byId {d : Device} : d ∈ byId devices ↔ d ∈ devices := List.mem_mergeSort

theorem bindEach_bound (devices : List Device) (taken : List Binding) (index : Nat) (roles : List Role) :
    (bindEach devices taken index roles).2 = ((((bindEach devices taken index roles).1.zip roles).zipIdx index).filter
      fun x => x.1.1.isConnected != x.1.2.isConnected).map (·.2) := by
  fun_induction bindEach devices taken index roles with
  | case1 => rfl
  | case2 taken index r rest hconnected roles bound heq ih => simp_all
  | case3 taken index r rest hconnected b hfound roles bound heq ih => simp_all [Role.isConnected]
  | case4 taken index r rest hconnected hfound roles bound heq ih => simp_all

theorem autobind_bound (roles : List Role) (devices : List Device) :
    (autobind roles devices).bound = ((((autobind roles devices).roles.zip roles).zipIdx).filter
      fun x => x.1.1.isConnected != x.1.2.isConnected).map (·.2) := by
  rw [autobind]
  split
  · refine (List.map_eq_nil_iff.2 (List.filter_eq_nil_iff.2 fun x hx => ?_)).symm
    grind
  · exact bindEach_bound ..

theorem mem_bound : i ∈ (autobind roles devices).bound ↔ ∃ r r', roles[i]? = some r ∧
    (autobind roles devices).roles[i]? = some r' ∧ r'.isConnected ≠ r.isConnected := by
  rw [autobind_bound, List.mem_map]
  constructor
  · grind
  · rintro ⟨r, r', hr, hr', hne⟩
    refine ⟨((r', r), i), List.mem_filter.2 ⟨?_, bne_iff_ne.2 hne⟩, rfl⟩
    exact List.mk_mem_zipIdx_iff_getElem?.2 (List.getElem?_zip_eq_some.2 ⟨hr', hr⟩)

theorem autobind_getElem? (devices : List Device) (hr : roles[i]? = some r) (hbound : r.binding.isSome = true) :
    (autobind roles devices).roles[i]? = some r := by
  rw [autobind_turns, hr, Option.map_some, turn_of_isConnected]
  rw [Role.isConnected, hbound, Bool.or_true]

/-- A role is left as it is, or it is newly bound to a service of its class and counted among those. -/
theorem autobind_cases (devices : List Device) (hr : roles[i]? = some r) : (autobind roles devices).roles[i]? = some r ∨
      i ∈ (autobind roles devices).bound ∧ r.isConnected = false ∧ ∃ b, (∃ d ∈ devices, d.Offers r.classId b) ∧
        (autobind roles devices).roles[i]? = some { r with binding := some b } := by
  have hturn := autobind_turns roles devices i
  rw [hr, Option.map_some] at hturn
  rcases turn_cases (byId devices) (tableAt roles (autobind roles devices).roles i) r with
    ⟨hsame, -⟩ | ⟨hconnected, b, hfound, hbound⟩
  · exact .inl (hsame ▸ hturn)
  · rw [hbound] at hturn
    obtain ⟨d, hd, hoffers⟩ := (offered_of_findSome? hfound).2
    refine .inr ⟨mem_bound.2 ⟨r, _, hr, hturn, ?_⟩, hconnected, b, ⟨d, mem_byId.1 hd, hoffers⟩, hturn⟩
    rw [hconnected, Role.isConnected, Option.isSome_some, Bool.or_true]
    exact Bool.noConfusion

theorem bindEach_exclusive (h : Exclusive (front ++ roles)) (htaken : ∀ b, b ∈ taken ↔ b ∈ held (front ++ roles)) :
    Exclusive (front ++ (bindEach devices taken index roles).1) := by
  induction roles generalizing front taken index with
  | nil => exact h
  | cons r rest ih =>
    obtain ⟨taken', htaken', heq⟩ := exists_bindEach_cons devices index htaken
    rw [heq, List.append_cons]
    rw [List.append_cons] at htaken'
    refine ih ?_ htaken'
    rw [← List.append_cons]
    rcases turn_cases devices (front ++ r :: rest) r with ⟨hsame, -⟩ | ⟨hconnected, b, hfound, hturn⟩
    · rwa [hsame]
    · rw [hturn, Exclusive, (held_turned (binding_of_isConnected_eq_false (Bool.eq_false_iff.1 hconnected)) ..).nodup_iff]
      exact List.nodup_cons.2 ⟨(offered_of_findSome? hfound).1, h⟩

theorem Exclusive.autobind (h : Exclusive roles) (devices : List Device) :
    Exclusive (Roles.autobind roles devices).roles := by
  rw [Roles.autobind]
  split
  · exact h
  · exact bindEach_exclusive (show Exclusive ([] ++ roles) from h) fun _ => Iff.rfl

theorem Exclusive.unbind (h : Exclusive roles) (device : DeviceId) : Exclusive (Roles.unbind roles device).1 := by
  have hsub : (held (Roles.unbind roles device).1).Sublist (held roles) := by
    clear h
    rw [Roles.unbind]
    induction roles with
    | nil => exact .refl _
    | cons r rest ih =>
      rw [List.map_cons, held_cons, held_cons]
      grind
  exact h.sublist hsub

theorem unbind_getElem? {device : DeviceId} (hr : roles[i]? = some r) :
    (i ∈ (unbind roles device).2 ∧ isOn device r = true) ∧
        (unbind roles device).1[i]? = some { r with binding := none } ∨
      (unbind roles device).1[i]? = some r := by
  by_cases hon : isOn device r = true
  · left
    refine ⟨⟨?_, hon⟩, ?_⟩
    · refine List.mem_map.2 ⟨(r, i), List.mem_filter.2 ⟨?_, hon⟩, rfl⟩
      exact List.mk_mem_zipIdx_iff_getElem?.2 hr
    · rw [unbind, List.getElem?_map, hr, Option.map_some, if_pos hon]
  · right
    rw [unbind, List.getElem?_map, hr, Option.map_some, if_neg hon]

end Roles

end BusScript
