import Mathlib
import BusScript.Proofs.Words

namespace BusScript

open Outcome (bind_iff get_iff)

/-- Still the same fiber, whatever has become of it. -/
structure Fiber.Same (f f' : Fiber) : Prop where
  id : f'.id = f.id
  function : f'.function = f.function

theorem Fiber.Same.trans {f f' f'' : Fiber} (h : f.Same f') (h' : f'.Same f'') : f.Same f'' :=
  ⟨h'.id.trans h.id, h'.function.trans h.function⟩

/-- A fiber that has just been started: it stands at the first word of a function. -/
def Fiber.IsNew (image : Image) (f : Fiber) : Prop :=
  ∃ id j info args now, image.functions[j]? = some info ∧ f = .start id (.enter j info args) now

structure Fiber.Retains (g : Fiber → Fiber) : Prop where
  id : ∀ f, (g f).id = f.id
  function : ∀ f, (g f).function = f.function
  isPending : ∀ f, (g f).isPending = f.isPending

theorem retains_of_reframes {h g : Fiber → Fiber} (hg : Fiber.Reframes h g) (hh : Fiber.Retains h) : Fiber.Retains g := by
  have hsame (f : Fiber) : (g f).id = (h f).id ∧ (g f).function = (h f).function ∧ (g f).isPending = (h f).isPending := by
    obtain ⟨frame, callers, heq⟩ := hg f
    rw [heq]
    exact ⟨rfl, rfl, rfl⟩
  exact ⟨fun f => (hsame f).1.trans (hh.id f), fun f => (hsame f).2.1.trans (hh.function f),
    fun f => (hsame f).2.2.trans (hh.isPending f)⟩

namespace Machine

variable {m m' : Machine} {j : Nat} {kind : CallKind}

theorem Requested.fresh_of_le (h : m.Requested j kind m') {k : Nat} {f : Fiber} (hk : m.fibers.length ≤ k)
    (hf : m'.fibers[k]? = some f) : f.IsNew m.image := by
  cases h with
  | @fresh info args hinfo =>
    rw [List.getElem?_append_right hk] at hf
    exact ⟨_, j, info, args, _, hinfo, List.mem_singleton.1 (List.mem_of_getElem? hf)⟩
  | again => simp_all
  | kept => exact (Nat.not_lt.2 hk (List.getElem?_eq_some_iff.1 hf).1).elim

theorem Started.length_le (h : m.Started m') : m.fibers.length ≤ m'.fibers.length := by
  cases h with
  | fresh =>
    rw [List.length_append]
    exact Nat.le_add_right ..
  | again => exact Nat.le_of_eq (List.length_modify ..).symm
  | kept => exact Nat.le_refl _

end Machine

namespace Stepping

open Machine

/-- What a word of the fiber at `index` does to the list of fibers. -/
inductive Relists (index : Nat) (m : Machine) : Machine → Prop
  | itself {m' : Machine} {g : Fiber → Fiber} (hcall : m.startsFiber index = false) (hg : Fiber.Retains g)
      (hfibers : m'.fibers = m.fibers.modify index g) (hid : m'.nextFiberId = m.nextFiberId) : Relists index m m'
  | requests {m' : Machine} {g : Fiber → Fiber} {kind : CallKind} {p : Operands}
      (hcall : m.nextCall? index = some (kind, p)) (hkind : kind ≠ .sync) (hg : Fiber.Reframes id g)
      (hrequested : Requested { m with operands := {}, fibers := m.fibers.modify index g } p.b kind m') :
      Relists index m m'

variable {index : Nat} {m : Machine}

theorem Did.relists {m' : Machine} {flow : Flow} (h : Did index m flow m') : Relists index m m' := by
  have hretains {h g : Fiber → Fiber} (hg : Fiber.Reframes h g) (hid : ∀ f, (h f).id = f.id)
      (hfunction : ∀ f, (h f).function = f.function) (hpending : ∀ f, (h f).isPending = f.isPending) :
      Fiber.Retains g := retains_of_reframes hg ⟨hid, hfunction, hpending⟩
  have hasyncs {op : AsyncOp × Operands} (hasync : m.nextAsync? index = some op) : m.startsFiber index = false := by
    obtain ⟨next, hnext, hclass⟩ := Option.bind_eq_some_iff.1 hasync
    rw [startsFiber, nextCall?, hnext, Option.bind_some]
    grind
  cases h with
  | computes hcall _ _ h =>
    obtain ⟨g, hg, hfibers⟩ := h.fibers
    exact .itself hcall (hretains hg (fun _ => rfl) (fun _ => rfl) fun _ => rfl) hfibers (by rw [h.rest])
  | starts hcall _ hg hstart hnext =>
    rw [startsFiber, hnext, Option.any_some, bne_iff_ne] at hcall
    exact .requests hnext hcall hg hstart
  | observes hcall _ hg => exact .itself hcall (hretains hg (fun _ => rfl) (fun _ => rfl) fun _ => rfl) rfl rfl
  | pauses hasync hg | uploads hasync hg | signals hasync _ _ hg | sends hasync _ _ hg | hits hasync _ _ _ _ hg
  | asks hasync _ _ _ hg =>
    exact .itself (hasyncs hasync) (hretains hg (fun _ => rfl) (fun _ => rfl) fun _ => rfl) rfl rfl

theorem relists_of_step {m' : Machine} {flow : Flow} (h : step index m = .ok flow m') : Relists index m m' :=
  (did_of_step h).relists

namespace Relists

variable {index : Nat} {m m' : Machine} (h : Relists index m m')
include h

theorem length_le : m.fibers.length ≤ m'.fibers.length := by
  cases h with
  | itself _ _ hfibers => exact Nat.le_of_eq (by rw [hfibers, List.length_modify])
  | requests _ _ _ hrequested =>
    have hle := hrequested.started.length_le
    rwa [List.length_modify] at hle

variable {f : Fiber}

theorem other {j : Nat} (hj : index ≠ j) (hf : m.fibers[j]? = some f) :
    ∃ f', m'.fibers[j]? = some f' ∧ (f' = f ∨ f' = { f with isPending := true }) := by
  cases h with
  | itself _ _ hfibers => exact ⟨f, by rw [hfibers, List.getElem?_modify_ne _ _ hj, hf], .inl rfl⟩
  | requests _ _ _ hrequested => exact hrequested.started.fiber ((List.getElem?_modify_ne _ _ hj).trans hf)

theorem same {f' : Fiber} (hf : m.fibers[index]? = some f) (hf' : m'.fibers[index]? = some f') : f.Same f' := by
  cases h with
  | itself _ hg hfibers =>
    rw [hfibers, getElem?_modified hf, Option.some.injEq] at hf'
    subst hf'
    exact ⟨hg.id f, hg.function f⟩
  | requests _ _ hg hrequested =>
    have hretains := retains_of_reframes hg ⟨fun _ => rfl, fun _ => rfl, fun _ => rfl⟩
    obtain ⟨f'', hf'', hsame⟩ := hrequested.started.fiber (getElem?_modified hf _)
    rw [hf', Option.some.injEq] at hf''
    subst hf''
    rcases hsame with rfl | rfl
    · exact ⟨hretains.id f, hretains.function f⟩
    · exact ⟨hretains.id f, hretains.function f⟩

theorem fresh_of_le {k : Nat} (hk : m.fibers.length ≤ k) (hf : m'.fibers[k]? = some f) : f.IsNew m.image := by
  cases h with
  | itself _ _ hfibers => simp_all
  | requests _ _ _ hrequested => exact hrequested.fresh_of_le (by rwa [List.length_modify]) hf

end Relists

section Same

variable {index : Nat} {m m' : Machine} {f : Fiber}

theorem fiber_of_step {flow : Flow} (h : step index m = .ok flow m') : ∃ f, m.fibers[index]? = some f := by
  cases hf : m.fibers[index]? with
  | some f => exact ⟨f, rfl⟩
  | none =>
    simp only [step, bind, EStateM.bind, fiber, get, getThe, MonadStateOf.get, EStateM.get, hf] at h
    cases h

theorem same_of_step {flow : Flow} (hf : m.fibers[index]? = some f) (hstep : step index m = .ok flow m') :
    ∃ f', m'.fibers[index]? = some f' ∧ f.Same f' := by
  obtain ⟨f', hf', -⟩ := (stepped_of_step hstep).frames f hf
  exact ⟨f', hf', (relists_of_step hstep).same hf hf'⟩

theorem length_of_finishes (hstep : step index m = .ok .finish m') : m'.fibers.length = m.fibers.length := by
  obtain ⟨g, -, hfibers⟩ := ((did_of_step hstep).computed (by rintro ⟨⟩) (by rintro ⟨⟩)).fibers
  rw [hfibers, List.length_modify]

variable {goesOn : Bool}

theorem Resumed.retains (h : Resumed index m goesOn m') : ∃ g, Fiber.Retains g ∧ m'.fibers = m.fibers.modify index g := by
  cases h with
  | free _ _ hg | sends _ _ _ _ _ hg => exact ⟨_, retains_of_reframes hg ⟨fun _ => rfl, fun _ => rfl, fun _ => rfl⟩, rfl⟩
  | unbound | asks =>
    refine ⟨_, ?_, rfl⟩
    exact ⟨fun _ => rfl, fun _ => rfl, fun _ => rfl⟩
  | answered _ _ _ _ _ _ hg => exact ⟨_, retains_of_reframes hg ⟨fun _ => rfl, fun _ => rfl, fun _ => rfl⟩, rfl⟩
  | waits => exact ⟨id, ⟨fun _ => rfl, fun _ => rfl, fun _ => rfl⟩, (List.modify_id ..).symm⟩

theorem length_of_resume (hresume : resume index m = .ok goesOn m') : m'.fibers.length = m.fibers.length := by
  obtain ⟨g, -, hfibers⟩ := (resumed_of_resume hresume).retains
  rw [hfibers, List.length_modify]

theorem other_of_resume {j : Nat} (hj : index ≠ j) (hresume : resume index m = .ok goesOn m') :
    m'.fibers[j]? = m.fibers[j]? := by
  obtain ⟨g, -, hfibers⟩ := (resumed_of_resume hresume).retains
  rw [hfibers, List.getElem?_modify_ne _ _ hj]

theorem unparks_of_resume (hf : m.fibers[index]? = some f) (hresume : resume index m = .ok goesOn m') :
    ∃ f', m'.fibers[index]? = some f' ∧ f.Same f' ∧ Unparks m.registers f m'.registers f' goesOn := by
  obtain ⟨f', hf', hunparks⟩ := (resumed_of_resume hresume).unparks hf
  obtain ⟨g, hretains, hfibers⟩ := (resumed_of_resume hresume).retains
  have hf'' := hf'
  rw [hfibers, getElem?_modified hf, Option.some.injEq] at hf''
  exact ⟨f', hf', hf'' ▸ ⟨hretains.id f, hretains.function f⟩, hunparks⟩

end Same

end Stepping

end BusScript
