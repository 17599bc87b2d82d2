/-!
Statements about the end of a computation with a state and early ends: `Outcome Q E` asks `Q` of a result
and the state left with it, and `E` of the reason for an early end and the state left then.
-/

namespace BusScript

section

variable {ε σ α β : Type} {s s' : σ}

theorem get_bind_apply {f : σ → EStateM ε σ α} : (get >>= f) s = f s s := rfl

theorem bind_of_ok {x : EStateM ε σ α} {f : α → EStateM ε σ β} {a : α} (h : x s = .ok a s') : (x >>= f) s = f a s' := by
  simp only [bind, EStateM.bind, h]

end

def Outcome {ε σ α : Type} (Q : α → σ → Prop) (E : ε → σ → Prop) : EStateM.Result ε σ α → Prop
  | .ok a s => Q a s
  | .error e s => E e s

namespace Outcome

variable {ε σ α β : Type} {Q : α → σ → Prop} {E : ε → σ → Prop} {s : σ}

@[simp] theorem ok_iff {a : α} : Outcome Q E (.ok a s) ↔ Q a s := Iff.rfl

@[simp] theorem error_iff {e : ε} : Outcome Q E (.error e s) ↔ E e s := Iff.rfl

variable {x : EStateM ε σ α}

/-- A statement about two computations in a row is one about the first, of what the second does next. -/
@[simp] theorem bind_iff {Q : β → σ → Prop} {f : α → EStateM ε σ β} :
    Outcome Q E ((x >>= f) s) ↔ Outcome (fun a s' => Outcome Q E (f a s')) E (x s) := by
  simp only [bind, EStateM.bind]
  cases x s <;> rfl

@[simp] theorem pure_iff {a : α} : Outcome Q E ((pure a : EStateM ε σ α) s) ↔ Q a s := Iff.rfl

@[simp] theorem throw_iff {e : ε} : Outcome Q E ((throw e : EStateM ε σ α) s) ↔ E e s := Iff.rfl

@[simp] theorem get_iff {Q : σ → σ → Prop} : Outcome Q E ((get : EStateM ε σ σ) s) ↔ Q s s := Iff.rfl

@[simp] theorem set_iff {Q : PUnit → σ → Prop} {s' : σ} :
    Outcome Q E ((set s' : EStateM ε σ PUnit) s) ↔ Q ⟨⟩ s' := Iff.rfl

@[simp] theorem modify_iff {Q : PUnit → σ → Prop} {f : σ → σ} :
    Outcome Q E ((modify f : EStateM ε σ PUnit) s) ↔ Q ⟨⟩ (f s) := Iff.rfl

@[simp] theorem map_iff {Q : β → σ → Prop} {g : α → β} :
    Outcome Q E ((g <$> x) s) ↔ Outcome (fun a s' => Q (g a) s') E (x s) := by
  simp only [Functor.map, EStateM.map]
  cases x s <;> rfl

@[simp] theorem discard_iff {Q : PUnit → σ → Prop} :
    Outcome Q E ((discard x) s) ↔ Outcome (fun _ s' => Q ⟨⟩ s') E (x s) := by
  simp only [discard, Functor.mapConst, EStateM.map, Function.comp]
  cases x s <;> rfl

theorem ite_iff {c : Prop} [Decidable c] {y : EStateM ε σ α} : Outcome Q E ((if c then x else y) s) ↔
      (c → Outcome Q E (x s)) ∧ (¬ c → Outcome Q E (y s)) := by
  by_cases hc : c <;> simp [hc]

theorem mono {Q' : α → σ → Prop} {E' : ε → σ → Prop} {r : EStateM.Result ε σ α}
    (h : Outcome Q E r) (hq : ∀ a s, Q a s → Q' a s) (he : ∀ e s, E e s → E' e s) :
    Outcome Q' E' r := by
  cases r with
  | ok a s => exact hq a s h
  | error e s => exact he e s h

theorem imp {Q' : α → σ → Prop} {r : EStateM.Result ε σ α} (h : Outcome Q E r) (hq : ∀ a s, Q a s → Q' a s) :
    Outcome Q' E r :=
  h.mono hq fun _ _ => id

theorem bind {Q' : β → σ → Prop} {E' : ε → σ → Prop} {f : α → EStateM ε σ β} (h : Outcome Q E (x s))
    (hf : ∀ a s', Q a s' → Outcome Q' E' (f a s')) (he : ∀ e s', E e s' → E' e s') : Outcome Q' E' ((x >>= f) s) :=
  bind_iff.2 (h.mono hf he)

end Outcome

end BusScript
