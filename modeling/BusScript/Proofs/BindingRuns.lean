import Mathlib
import BusScript.Proofs.Bindings

namespace BusScript.Roles

inductive Change
  | autobind (devices : List Device)
  | unbind (device : DeviceId)
  deriving DecidableEq, Repr

namespace Change

def apply (roles : List Role) : Change → List Role
  | .autobind devices => (Roles.autobind roles devices).roles
  | .unbind device => (Roles.unbind roles device).1

inductive Affects : Change → Role → Role → Prop
  | keeps (change : Change) (r : Role) : Affects change r r
  | binds {devices : List Device} {d : Device} {r : Role} {b : Binding} (hunbound : r.binding = none)
      (hremote : r.isLocal = false) (hd : d ∈ devices) (hoffers : d.Offers r.classId b) :
      Affects (.autobind devices) r { r with binding := some b }
  | drops {r : Role} {b : Binding} (hbound : r.binding = some b) :
      Affects (.unbind b.device) r { r with binding := none }

end Change

theorem Change.length_apply (change : Change) (roles : List Role) : (change.apply roles).length = roles.length := by
  cases change with
  | autobind devices => exact length_autobind
  | unbind device => exact List.length_map ..

theorem Change.affects (change : Change) {roles : List Role} {i : Nat} {r : Role} (hr : roles[i]? = some r) :
    ∃ r', (change.apply roles)[i]? = some r' ∧ change.Affects r r' := by
  cases change with
  | autobind devices =>
    rcases autobind_cases devices hr with hkept | ⟨-, hfree, b, ⟨d, hd, hoffers⟩, hbound⟩
    · exact ⟨r, hkept, .keeps _ r⟩
    · have hunbound := binding_of_isConnected_eq_false (Bool.eq_false_iff.1 hfree)
      rw [Role.isConnected, Bool.or_eq_false_iff] at hfree
      exact ⟨_, hbound, .binds hunbound hfree.1 hd hoffers⟩
  | unbind device =>
    rcases @unbind_getElem? roles r i device hr with ⟨⟨-, hon⟩, hdropped⟩ | hkept
    · obtain ⟨b, hb, heq⟩ := (Option.any_eq_true ..).1 hon
      cases eq_of_beq heq
      exact ⟨_, hdropped, .drops hb⟩
    · exact ⟨r, hkept, .keeps _ r⟩

def Proper (r : Role) : Prop :=
  ∀ b, r.binding = some b → r.isLocal = false ∧ 1 ≤ b.service.toNat ∧ b.service.toNat < maxServices

theorem Proper.of_affects {change : Change} {r r' : Role} (h : Proper r) (haffects : change.Affects r r') :
    Proper r' := by
  cases haffects with
  | keeps => exact h
  | binds _ hremote _ hoffers =>
    rintro _ ⟨⟩
    exact ⟨hremote, hoffers.pos, hoffers.lt⟩
  | drops => exact fun _ hb => by cases hb

def after (roles : List Role) (changes : List Change) : List Role :=
  changes.foldl (fun roles change => change.apply roles) roles

theorem after_concat (roles : List Role) (changes : List Change) (change : Change) :
    after roles (changes ++ [change]) = change.apply (after roles changes) := by
  rw [after, List.foldl_append]
  rfl

section Runs

variable {roles : List Role}

theorem Exclusive.apply (h : Exclusive roles) (change : Change) : Exclusive (change.apply roles) := by
  cases change with
  | autobind devices => exact h.autobind devices
  | unbind device => exact h.unbind device

theorem Exclusive.after (h : Exclusive roles) (changes : List Change) : Exclusive (after roles changes) := by
  induction changes generalizing roles with
  | nil => exact h
  | cons change rest ih => exact ih (h.apply change)

theorem length_after (changes : List Change) : (after roles changes).length = roles.length := by
  induction changes generalizing roles with
  | nil => rfl
  | cons change rest ih => exact ih.trans (change.length_apply roles)

theorem Proper.apply (h : ∀ r ∈ roles, Proper r) (change : Change) : ∀ r ∈ change.apply roles, Proper r := by
  intro r' hmem
  obtain ⟨i, hi⟩ := List.mem_iff_getElem?.1 hmem
  have hlt : i < roles.length := change.length_apply roles ▸ (List.getElem?_eq_some_iff.1 hi).1
  obtain ⟨r, hr, haffects⟩ := change.affects (List.getElem?_eq_getElem hlt)
  rw [hi, Option.some.injEq] at hr
  subst hr
  exact (h _ (List.getElem_mem hlt)).of_affects haffects

theorem Proper.after (h : ∀ r ∈ roles, Proper r) (changes : List Change) : ∀ r ∈ after roles changes, Proper r := by
  induction changes generalizing roles with
  | nil => exact h
  | cons change rest ih => exact ih (Proper.apply h change)

/-- After any row of changes: services are held by one role each, bound roles are remote and hold a service with a
number from 1 to 31, and one more change binds unbound roles to what its devices offer or drops the roles of its device,
and leaves every other role as it is. -/
theorem bindings_stay_exclusive (hunbound : ∀ r ∈ roles, r.binding = none) (changes : List Change) :
    (∀ (i j : Nat) (r r' : Role) (b : Binding), (after roles changes)[i]? = some r → (after roles changes)[j]? = some r' →
      r.binding = some b → r'.binding = some b → i = j) ∧
    (∀ r ∈ after roles changes, ∀ b, r.binding = some b →
      r.isLocal = false ∧ 1 ≤ b.service.toNat ∧ b.service.toNat ≤ 31) ∧
    ∀ change : Change, (after roles (changes ++ [change])).length = (after roles changes).length ∧
      ∀ (i : Nat) (r : Role), (after roles changes)[i]? = some r →
        ∃ r', (after roles (changes ++ [change]))[i]? = some r' ∧ change.Affects r r' := by
  refine ⟨fun i j r r' b hi hj hb hb' => ?_, fun r hr b hb => ?_, fun change => ⟨?_, fun i r hr => ?_⟩⟩
  · exact ((exclusive_of_unbound hunbound).after changes).index_eq hi hj hb hb'
  · have hproper : ∀ r ∈ roles, Proper r := fun r hr b hb => by
      rw [hunbound r hr] at hb
      cases hb
    obtain ⟨hremote, hpos, hlt⟩ := Proper.after hproper changes r hr b hb
    exact ⟨hremote, hpos, Nat.le_of_lt_succ hlt⟩
  · rw [length_after, length_after]
  · rw [after_concat]
    exact change.affects hr

/-- Two roles of one class and a device that is listed twice, with other services the second time. The device is dropped,
and when it is back only one of the roles finds a service. -/
theorem bindings_stay_exclusive_relisted :
    let roles : List Role := [⟨5, false, none⟩, ⟨5, false, none⟩, ⟨7, true, none⟩]
    let changes : List Change := [.autobind [⟨⟨2⟩, [0, 5, 5]⟩, ⟨⟨2⟩, [0, 7, 9, 5]⟩], .unbind ⟨2⟩]
    (∀ r ∈ roles, r.binding = none) ∧ after roles [.autobind [⟨⟨2⟩, [0, 5, 5]⟩, ⟨⟨2⟩, [0, 7, 9, 5]⟩]] =
        [⟨5, false, some ⟨⟨2⟩, 1⟩⟩, ⟨5, false, some ⟨⟨2⟩, 2⟩⟩, ⟨7, true, none⟩] ∧
      after roles changes = roles ∧
      after roles (changes ++ [.autobind [⟨⟨2⟩, [0, 7, 9, 5]⟩]]) =
        [⟨5, false, some ⟨⟨2⟩, 3⟩⟩, ⟨5, false, none⟩, ⟨7, true, none⟩] ∧
      ∃ r, (after roles (changes ++ [.autobind [⟨⟨2⟩, [0, 7, 9, 5]⟩]]))[0]? = some r ∧
        (Change.autobind [⟨⟨2⟩, [0, 7, 9, 5]⟩]).Affects ⟨5, false, none⟩ r := by
  intro roles changes
  have hunbound : ∀ r ∈ roles, r.binding = none := by decide
  refine ⟨hunbound, by cbv, by cbv, by cbv, ?_⟩
  exact ((bindings_stay_exclusive hunbound changes).2.2 _).2 0 _ (by cbv)

end Runs

end BusScript.Roles
