import BusScript.Proofs.Bindings
import BusScript.Proofs.Collections
import Mathlib

namespace BusScript

theorem exists_first_of_findSome? {α β : Type} {R : α → α → Prop} {f : α → Option β} {l : List α} {b : β}
    (hl : l.Pairwise R) (h : l.findSome? f = some b) :
    ∃ a ∈ l, f a = some b ∧ ∀ x ∈ l, f x ≠ none → x = a ∨ R a x := by
  obtain ⟨front, a, rest, rfl, hfound, hfront⟩ := List.findSome?_eq_some_iff.1 h
  obtain ⟨-, hrest, -⟩ := List.pairwise_append.1 hl
  refine ⟨a, List.mem_append_right _ List.mem_cons_self, hfound, fun x hx hne => ?_⟩
  rcases List.mem_append.1 hx with hx | hx
  · exact absurd (hfront x hx) hne
  · exact (List.mem_cons.1 hx).imp_right ((List.pairwise_cons.1 hrest).1 x)

namespace Device

variable {d : Device} {classId : UInt32} {taken : List Binding} {b c : Binding}

theorem pairwise_slots (d : Device) : d.slots.Pairwise fun x y => x.2 < y.2 :=
  ((pairwise_zipIdx d.services).sublist (List.take_sublist ..)).sublist (List.drop_sublist ..)

theorem Offers.mem_slots (h : d.Offers classId b) : (classId, b.service.toNat) ∈ d.slots :=
  Device.mem_slots.2 ⟨h.service, h.pos, h.lt⟩

theorem Offers.slot? (h : d.Offers classId b) (hfree : b ∉ taken) :
    d.slot? classId taken (classId, b.service.toNat) = some b := by
  refine slot?_eq_some_iff.2 ⟨rfl, ?_, hfree⟩
  rw [h.id_eq, Nat.toUInt8, UInt8.ofNat_toNat]

theorem freeService?_eq_none_iff : d.freeService? classId taken = none ↔ ∀ b, d.Offers classId b → b ∈ taken := by
  constructor
  · intro hnone b hoffers
    by_contra hfree
    rw [freeService?_eq, List.findSome?_eq_none_iff] at hnone
    have hsome := hoffers.slot? hfree
    rw [hnone _ hoffers.mem_slots] at hsome
    cases hsome
  · intro hall
    refine Option.eq_none_iff_forall_ne_some.2 fun b hb => ?_
    obtain ⟨hoffers, hfree⟩ := offers_of_freeService? hb
    exact hfree (hall b hoffers)

theorem service_le_of_freeService? (h : d.freeService? classId taken = some b) (hoffers : d.Offers classId c)
    (hfree : c ∉ taken) : b.service ≤ c.service := by
  rw [freeService?_eq] at h
  obtain ⟨⟨cls, index⟩, hmem, hslot, hfirst⟩ := exists_first_of_findSome? d.pairwise_slots h
  obtain ⟨-, rfl, -⟩ := slot?_eq_some_iff.1 hslot
  have hindex : index ≤ c.service.toNat := by
    rcases hfirst _ hoffers.mem_slots (by rw [hoffers.slot? hfree]; exact Option.some_ne_none c) with heq | hlt
    · exact Nat.le_of_eq (congrArg Prod.snd heq).symm
    · exact Nat.le_of_lt hlt
  have hnat : index.toUInt8.toNat = index := Nat.mod_eq_of_lt (Nat.lt_trans (mem_slots.1 hmem).2.2 (by decide))
  rw [UInt8.le_iff_toNat_le, hnat]
  exact hindex

end Device

namespace Roles

variable {roles : List Role} {devices : List Device} {r : Role} {i : Nat} {classId : UInt32} {b : Binding}
  {taken : List Binding}

/-- A service of a class that is not taken, on the listed device with the least id, and there with the least number. -/
structure IsLeastFree (devices : List Device) (classId : UInt32) (taken : List Binding) (b : Binding) : Prop where
  offered : ∃ d ∈ devices, d.Offers classId b
  free : b ∉ taken
  least : ∀ d ∈ devices, ∀ c, d.Offers classId c → c ∉ taken →
    b.device.val < c.device.val ∨ b.device = c.device ∧ b.service ≤ c.service

theorem pairwise_byId (devices : List Device) : (byId devices).Pairwise fun d e => d.id.val ≤ e.id.val := by
  refine (List.pairwise_mergeSort ?_ ?_ devices).imp of_decide_eq_true
  · grind
  · grind

theorem findSome?_eq_none_iff :
    devices.findSome? (·.freeService? classId taken) = none ↔ ∀ d ∈ devices, ∀ b, d.Offers classId b → b ∈ taken := by
  rw [List.findSome?_eq_none_iff]
  exact forall₂_congr fun d _ => Device.freeService?_eq_none_iff

/-- If a device is listed twice, its second entry may offer a lesser service than the first one. -/
theorem isLeastFree_of_findSome? (hnodup : (devices.map (·.id)).Nodup)
    (h : (byId devices).findSome? (·.freeService? classId taken) = some b) : IsLeastFree devices classId taken b := by
  obtain ⟨d, hd, hfound, hfirst⟩ := exists_first_of_findSome? (pairwise_byId devices) h
  obtain ⟨hoffers, hfree⟩ := Device.offers_of_freeService? hfound
  refine ⟨⟨d, mem_byId.1 hd, hoffers⟩, hfree, fun e he c hc hcfree => ?_⟩
  have hsame (heq : e = d) : b.device = c.device ∧ b.service ≤ c.service := by
    subst heq
    exact ⟨hoffers.id_eq.symm.trans hc.id_eq, Device.service_le_of_freeService? hfound hc hcfree⟩
  have hne : e.freeService? classId taken ≠ none := fun hnone => hcfree (Device.freeService?_eq_none_iff.1 hnone c hc)
  rcases hfirst e (mem_byId.2 he) hne with heq | hle
  · exact .inr (hsame heq)
  · rw [hoffers.id_eq, hc.id_eq] at hle
    rcases UInt64.lt_or_eq_of_le hle with hlt | hval
    · exact .inl hlt
    · have hid : e.id = d.id := by
        rw [hoffers.id_eq, hc.id_eq]
        exact congrArg DeviceId.mk hval.symm
      exact .inr (hsame (List.inj_on_of_nodup_map hnodup he (mem_byId.1 hd) hid))

theorem mem_held_of_tableAt (h : b ∈ held (tableAt roles (autobind roles devices).roles i)) :
    b ∈ held (autobind roles devices).roles := by
  rw [tableAt, held_append, List.mem_append] at h
  rcases h with h | h
  · obtain ⟨r, hr, hb⟩ := List.mem_filterMap.1 h
    exact List.mem_filterMap.2 ⟨r, List.mem_of_mem_take hr, hb⟩
  · obtain ⟨r, hr, hb⟩ := List.mem_filterMap.1 h
    obtain ⟨k, hk⟩ := List.mem_iff_getElem?.1 (List.mem_of_mem_drop hr)
    refine List.mem_filterMap.2 ⟨r, List.mem_of_getElem? (autobind_getElem? devices hk ?_), hb⟩
    rw [hb]
    rfl

theorem isConnected_bound (r : Role) (b : Binding) : ({ r with binding := some b } : Role).isConnected = true :=
  Bool.or_true _

theorem held_of_offers {d : Device} (hr : r ∈ (autobind roles devices).roles) (hconnected : r.isConnected = false)
    (hd : d ∈ devices) (hoffers : d.Offers r.classId b) : b ∈ held (autobind roles devices).roles := by
  obtain ⟨i, hi⟩ := List.mem_iff_getElem?.1 hr
  have hturn := autobind_turns roles devices i
  rw [hi] at hturn
  obtain ⟨before, -, rfl⟩ := Option.map_eq_some_iff.1 hturn.symm
  rcases turn_cases (byId devices) (tableAt roles (autobind roles devices).roles i) before with
    ⟨hsame, hcase⟩ | ⟨-, b', -, hbound⟩
  · rw [hsame] at hconnected hoffers
    have hnone := hcase.resolve_left (Bool.eq_false_iff.1 hconnected)
    exact mem_held_of_tableAt (findSome?_eq_none_iff.1 hnone d (mem_byId.2 hd) b hoffers)
  · rw [hbound, isConnected_bound] at hconnected
    cases hconnected

theorem autobind_eq_self (h : ∀ r ∈ roles, r.isConnected = false → ∀ d ∈ devices, ∀ b, d.Offers r.classId b →
    b ∈ held roles) : (autobind roles devices).roles = roles ∧ (autobind roles devices).bound = [] := by
  have hkept : ∀ r ∈ roles, turn (byId devices) roles r = r := by
    intro r hr
    rcases turn_cases (byId devices) roles r with ⟨hsame, -⟩ | ⟨hconnected, b, hfound, -⟩
    · exact hsame
    · obtain ⟨hfree, d, hd, hoffers⟩ := offered_of_findSome? hfound
      exact absurd (h r hr hconnected d (mem_byId.1 hd) b hoffers) hfree
  -- The first role that its turn changes would have found the table as it was.
  have hsame : ∀ n, (autobind roles devices).roles.take n = roles.take n := by
    intro n
    induction n with
    | zero => rfl
    | succ n ih =>
      rw [List.take_add_one, List.take_add_one, ih, autobind_turns, tableAt, ih, List.take_append_drop]
      grind
  have hroles : (autobind roles devices).roles = roles := by
    have htake := hsame roles.length
    rwa [List.take_length, ← length_autobind, List.take_length] at htake
  refine ⟨hroles, List.eq_nil_iff_forall_not_mem.2 fun i hi => ?_⟩
  obtain ⟨r, r', hr, hr', hne⟩ := mem_bound.1 hi
  simp_all

theorem found_of_mem_bound (h : i ∈ (autobind roles devices).bound) : ∃ r b, roles[i]? = some r ∧
    r.isConnected = false ∧
    (byId devices).findSome? (·.freeService? r.classId (held (tableAt roles (autobind roles devices).roles i))) = some b ∧
    (autobind roles devices).roles[i]? = some { r with binding := some b } := by
  obtain ⟨r, r', hr, hr', hne⟩ := mem_bound.1 h
  have hturn := autobind_turns roles devices i
  rw [hr, Option.map_some] at hturn
  rcases turn_cases (byId devices) (tableAt roles (autobind roles devices).roles i) r with
    ⟨hsame, -⟩ | ⟨hfalse, b, hb, hbound⟩
  · simp_all
  · exact ⟨r, b, hr, hfalse, hb, hbound ▸ hturn⟩

/-- Binding leaves no service over that an unbound role could use, and changes no role that is bound or local. The roles
that it gives are those newly bound, in order. If no device is listed twice, each of them has the least service that was
free when it had its turn. Binding to the same devices once more changes nothing. -/
theorem autobind_is_complete_and_minimal (roles : List Role) (devices : List Device) :
    let result := autobind roles devices
    (∀ r ∈ result.roles, r.isLocal = false → r.binding = none →
      ∀ d ∈ devices, ∀ b, d.Offers r.classId b → b ∈ held result.roles) ∧
    result.roles.length = roles.length ∧
    (∀ (i : Nat) (r : Role), roles[i]? = some r → r.isLocal = true ∨ r.binding ≠ none ∨ i ∉ result.bound →
      result.roles[i]? = some r) ∧
    result.bound.Pairwise (· < ·) ∧
    (∀ i, i ∈ result.bound ↔ ∃ r b, roles[i]? = some r ∧ r.binding = none ∧
      result.roles[i]? = some { r with binding := some b }) ∧
    ((devices.map (·.id)).Nodup → ∀ i ∈ result.bound, ∃ r b, roles[i]? = some r ∧
      result.roles[i]? = some { r with binding := some b } ∧
      IsLeastFree devices r.classId (held (tableAt roles result.roles i)) b) ∧
    ∀ again, (∀ d ∈ again, d ∈ devices) →
      (autobind result.roles again).roles = result.roles ∧ (autobind result.roles again).bound = [] := by
  refine ⟨fun r hr hlocal hnone d hd b hoffers => ?_, length_autobind, fun i r hr hcase => ?_,
    ?_, fun i => ⟨fun hi => ?_, ?_⟩, fun hnodup i hi => ?_, fun again hagain => ?_⟩
  · refine held_of_offers hr ?_ hd hoffers
    rw [Role.isConnected, hlocal, hnone]
    rfl
  · refine (autobind_cases devices hr).resolve_right ?_
    rintro ⟨hmem, hfalse, -⟩
    rcases hcase with hlocal | hbound | hnot
    · exact Bool.noConfusion (hlocal.symm.trans (Bool.or_eq_false_iff.1 hfalse).1)
    · exact hbound (binding_of_isConnected_eq_false (Bool.eq_false_iff.1 hfalse))
    · exact hnot hmem
  · rw [autobind_bound]
    exact List.pairwise_map.2 ((pairwise_zipIdx _).filter _)
  · obtain ⟨r, b, hr, hfalse, -, hr'⟩ := found_of_mem_bound hi
    exact ⟨r, b, hr, binding_of_isConnected_eq_false (Bool.eq_false_iff.1 hfalse), hr'⟩
  · rintro ⟨r, b, hr, hnone, hr'⟩
    rcases autobind_cases devices hr with hkept | ⟨hmem, -⟩
    · rw [hkept, Option.some.injEq] at hr'
      rw [hr'] at hnone
      cases hnone
    · exact hmem
  · obtain ⟨r, b, hr, -, hfound, hr'⟩ := found_of_mem_bound hi
    exact ⟨r, b, hr, hr', isLeastFree_of_findSome? hnodup hfound⟩
  · exact autobind_eq_self fun r hr hconnected d hd b hoffers => held_of_offers hr hconnected (hagain d hd) hoffers

/-- The devices are not listed in order, and a service of the lesser one is already taken. The first role gets the other
one there and leaves the third role to the greater device, and the last role finds nothing. -/
theorem autobind_is_complete_and_minimal_unordered :
    let roles : List Role :=
      [⟨5, false, none⟩, ⟨7, true, none⟩, ⟨5, false, some ⟨⟨2⟩, 1⟩⟩, ⟨5, false, none⟩, ⟨8, false, none⟩]
    let devices : List Device := [⟨⟨3⟩, [8, 5, 5]⟩, ⟨⟨2⟩, [0, 5, 9, 5]⟩]
    (devices.map (·.id)).Nodup ∧ (autobind roles devices).bound = [0, 3] ∧
      (autobind roles devices).roles = [⟨5, false, some ⟨⟨2⟩, 3⟩⟩, ⟨7, true, none⟩, ⟨5, false, some ⟨⟨2⟩, 1⟩⟩,
        ⟨5, false, some ⟨⟨3⟩, 1⟩⟩, ⟨8, false, none⟩] ∧
      IsLeastFree devices 5 (held (tableAt roles (autobind roles devices).roles 3)) ⟨⟨3⟩, 1⟩ ∧
      (autobind (autobind roles devices).roles devices.reverse).bound = [] := by
  intro roles devices
  have hnodup : (devices.map (·.id)).Nodup := by decide
  have hbound : (autobind roles devices).bound = [0, 3] := by cbv
  obtain ⟨-, -, -, -, -, hleast, hagain⟩ := autobind_is_complete_and_minimal roles devices
  refine ⟨hnodup, hbound, by cbv, ?_, (hagain devices.reverse fun d hd => List.mem_reverse.1 hd).2⟩
  obtain ⟨r, b, hr, hr', hfree⟩ := hleast hnodup 3 (hbound ▸ by decide)
  cases hr
  rw [show (autobind roles devices).roles[3]? = some ⟨5, false, some ⟨⟨3⟩, 1⟩⟩ by cbv, Option.some.injEq] at hr'
  cases hr'
  exact hfree

theorem byId_eq_of_perm {devices' : List Device} (hperm : devices.Perm devices') (hnodup : (devices.map (·.id)).Nodup) :
    byId devices = byId devices' := by
  have hsorted : (byId devices).Perm (byId devices') :=
    (List.mergeSort_perm ..).trans (hperm.trans (List.mergeSort_perm ..).symm)
  refine List.Perm.eq_of_pairwise ?_ (pairwise_byId devices) (pairwise_byId devices') hsorted
  intro d e hd he hde hed
  have hid : d.id = e.id := congrArg DeviceId.mk (UInt64.le_antisymm hde hed)
  exact List.inj_on_of_nodup_map hnodup (mem_byId.1 hd) (hperm.mem_iff.2 (mem_byId.1 he)) hid

/-- Whatever the order in which the same devices are listed, the same roles are newly bound, and every role ends up with
the same binding. -/
theorem autobind_ignores_listing_order (roles : List Role) {devices devices' : List Device}
    (hperm : devices.Perm devices') (hnodup : (devices.map (·.id)).Nodup) :
    (autobind roles devices).bound = (autobind roles devices').bound ∧
      (autobind roles devices).roles = (autobind roles devices').roles := by
  unfold autobind
  split
  · exact ⟨rfl, rfl⟩
  · rw [byId_eq_of_perm hperm hnodup]
    exact ⟨rfl, rfl⟩

/-- Three devices compete for two roles of a class, one of which is bound already; the device with the least id is found
last and serves the role that is left. -/
theorem autobind_ignores_listing_order_found_last :
    let roles : List Role := [⟨5, false, some ⟨⟨4⟩, 2⟩⟩, ⟨5, false, none⟩, ⟨9, false, none⟩]
    let found : List Device := [⟨⟨4⟩, [0, 5, 5]⟩, ⟨⟨8⟩, [0, 9]⟩, ⟨⟨2⟩, [5, 0, 5]⟩]
    let sorted : List Device := [⟨⟨2⟩, [5, 0, 5]⟩, ⟨⟨4⟩, [0, 5, 5]⟩, ⟨⟨8⟩, [0, 9]⟩]
    (found.map (·.id)).Nodup ∧ found.Perm sorted ∧ (autobind roles found).bound = [1, 2] ∧
      (autobind roles found).roles =
        [⟨5, false, some ⟨⟨4⟩, 2⟩⟩, ⟨5, false, some ⟨⟨2⟩, 2⟩⟩, ⟨9, false, some ⟨⟨8⟩, 1⟩⟩] := by
  intro roles found sorted
  have hnodup : (found.map (·.id)).Nodup := by decide
  have hperm : found.Perm sorted := by decide
  obtain ⟨hbound, hroles⟩ := autobind_ignores_listing_order roles hperm hnodup
  refine ⟨hnodup, hperm, hbound.trans ?_, hroles.trans ?_⟩
  · cbv
  · cbv

end Roles

end BusScript
