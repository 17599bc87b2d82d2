import BusScript.Proofs.Chunks
import BusScript.Proofs.WriterCode

namespace BusScript

open Item

namespace CodeWriter

variable {w : CodeWriter} {items : List Item} {target : Nat → Option Nat}

variable {t p : Nat} {label : Label}

theorem patchJump_outcome {l : Nat} (hcode : w.code.toList = render target 0 items)
    (hcond : Conditions items) (hmem : (p, l) ∈ jumps 0 items) (hopen : target p = none)
    (hapart : t ≠ p) :
    Outcome (fun _ w' => w' = { w with code := w'.code } ∧
        w'.code.toList = render (fun q => if q = p then some t else target q) 0 items ∧
        (ahead p t).natAbs ≤ maxJump)
      (fun stop _ => (∃ n, stop = .abort (.jumpTooFar n)) ∧ maxJump < (ahead p t).natAbs)
      (patchJump t p w) := by
  have hself : ¬ ((t : Int) - p - 2 = -2) := by omega
  simp only [patchJump, if_neg hself]
  by_cases hfar : maxJump < (ahead p t).natAbs
  · rw [ahead] at hfar
    simp only [if_pos hfar]
    exact ⟨⟨_, rfl⟩, hfar⟩
  · have hnear := Nat.le_of_not_lt hfar
    have hpatched := render_patch hcond hmem hopen hnear
    rw [ahead] at hfar
    simp only [if_neg hfar]
    refine (⟨rfl, ?_, hnear⟩ : _ ∧ _ ∧ _)
    rw [← hpatched, ← hcode]
    simp only [orWord, Array.toList_modify, Nat.sub_zero]
    rfl

theorem patchJumps_outcome {places : List Nat}
    (hcode : w.code.toList = render target 0 items) (hcond : Conditions items)
    (hplaces : ∀ p ∈ places, ∃ l, (p, l) ∈ jumps 0 items) (hnodup : places.Nodup)
    (hopen : ∀ p ∈ places, target p = none) (hapart : t ∉ places) :
    Outcome (fun _ w' => w' = { w with code := w'.code } ∧
        w'.code.toList = render (fun q => if q ∈ places then some t else target q) 0 items ∧
        ∀ p ∈ places, (ahead p t).natAbs ≤ maxJump)
      (fun stop _ => (∃ n, stop = .abort (.jumpTooFar n)) ∧ ∃ p ∈ places, maxJump < (ahead p t).natAbs)
      (patchJumps t places w) := by
  induction places generalizing w target with
  | nil => exact ⟨rfl, by simpa using hcode, nofun⟩
  | cons p rest ih =>
    obtain ⟨l, hl⟩ := hplaces p (by simp)
    obtain ⟨hp, hnodup⟩ := List.nodup_cons.1 hnodup
    rw [patchJumps]
    refine (patchJump_outcome hcode hcond hl (hopen p (by simp)) (fun h => hapart (by simp [h]))).bind
      ?_ fun stop w' h => ⟨h.1, p, by simp, h.2⟩
    rintro _ w' ⟨hw', hcode', hnear⟩
    refine (ih hcode' (fun q hq => hplaces q (by simp [hq])) hnodup (fun q hq => ?_)
      (fun h => hapart (by simp [h]))).mono ?_ fun stop w'' h => ⟨h.1, ?_⟩
    · grind
    · grind
    · grind

def assigned (labels : List Label) (p : Nat) : Option Nat :=
  labels.findSome? fun label => if p ∈ label.uses then label.offset else none

/-- Labels whose jumps are all there, and nobody else's. -/
structure Settled (items : List Item) (labels : List Label) : Prop where
  places : ∀ label ∈ labels, ∀ p ∈ label.uses, ∃ l, (p, l) ∈ jumps 0 items
  nodup : ∀ label ∈ labels, label.uses.Nodup
  apart : ∀ label ∈ labels, ∀ o, label.offset = some o → o ∉ label.uses
  disjoint : labels.Pairwise fun a b => ∀ p ∈ a.uses, p ∉ b.uses

theorem Settled.tail {rest : List Label} (h : Settled items (label :: rest)) :
    Settled items rest :=
  ⟨fun l hl => h.places l (by simp [hl]), fun l hl => h.nodup l (by simp [hl]),
    fun l hl => h.apart l (by simp [hl]), (List.pairwise_cons.1 h.disjoint).2⟩

theorem assigned_cons (label : Label) (rest : List Label) (p : Nat) : assigned (label :: rest) p =
      if p ∈ label.uses then label.offset.or (assigned rest p) else assigned rest p := by
  rw [assigned, List.findSome?_cons]
  split
  · simp_all
  · next heq =>
    split at heq
    · next hp => rw [if_pos hp, heq, Option.none_or, assigned]
    · next hp => rw [if_neg hp, assigned]

theorem patchLabels_outcome {strict : Bool} {labels : List Label} (hset : Settled items labels)
    (hcode : w.code.toList = render target 0 items) (hcond : Conditions items)
    (hopen : ∀ label ∈ labels, ∀ p ∈ label.uses, target p = none) :
    Outcome (fun _ w' => w' = { w with code := w'.code } ∧
        w'.code.toList = render (fun q => (assigned labels q).or (target q)) 0 items ∧
        (strict = true → ∀ label ∈ labels, label.offset = none → label.uses = []) ∧
        ∀ label ∈ labels, ∀ t, label.offset = some t → ∀ p ∈ label.uses, (ahead p t).natAbs ≤ maxJump)
      (fun stop _ => ∃ label ∈ labels, (strict = true ∧ label.offset = none ∧ label.uses ≠ []) ∨
        (∃ n, stop = .abort (.jumpTooFar n)) ∧
          ∃ t, label.offset = some t ∧ ∃ p ∈ label.uses, maxJump < (ahead p t).natAbs)
      (patchLabels strict labels w) := by
  induction labels generalizing w target with
  | nil => exact ⟨rfl, by simpa [assigned] using hcode, by simp, nofun⟩
  | cons label rest ih =>
    rw [patchLabels]
    cases hoffset : label.offset with
    | some t =>
      refine (patchJumps_outcome hcode hcond (hset.places label (by simp))
        (hset.nodup label (by simp)) (hopen label (by simp))
        (hset.apart label (by simp) t hoffset)).bind ?_ ?_
      · rintro _ w' ⟨hw', hcode', hnear⟩
        have hopen' : ∀ other ∈ rest, ∀ p ∈ other.uses, (if p ∈ label.uses then some t else target p) = none := by
          intro other hother p hp
          have hnot : p ∉ label.uses := fun h =>
            (List.pairwise_cons.1 hset.disjoint).1 other hother p h hp
          grind
        refine (ih hset.tail hcode' hopen').mono ?_ ?_
        · rintro _ w'' ⟨hw'', hcode'', hstrict, hrest⟩
          refine ⟨by rw [hw'', hw'], hcode''.trans ?_, ?_, ?_⟩
          · congr 1
            funext q
            rw [assigned_cons, hoffset]
            by_cases hq : q ∈ label.uses
            · have hnone : assigned rest q = none := by
                rw [assigned, List.findSome?_eq_none_iff]
                grind
              simp [hq, hnone]
            · simp [hq]
          · grind
          · grind
        · grind
      · simp_all
    | none =>
      by_cases hloose : strict = true ∧ label.uses ≠ []
      · have hif : (strict && !label.uses.isEmpty) = true := by simpa using hloose
        simp only [hif, if_true]
        exact ⟨label, by simp, .inl ⟨hloose.1, hoffset, hloose.2⟩⟩
      · have hif : ¬ (strict && !label.uses.isEmpty) = true := by simpa using hloose
        simp only [if_neg hif]
        refine (ih hset.tail hcode fun other hother => hopen other (by simp [hother])).mono ?_ ?_
        · rintro _ w' ⟨hw', hcode', hstrict, hrest⟩
          refine ⟨hw', hcode'.trans ?_, ?_, ?_⟩
          · congr 1
            funext q
            simp [assigned_cons, hoffset]
          · grind
          · grind
        · simp_all

theorem Lays.settled (h : w.Lays items) : Settled items w.labels.toList := by
  have hget : ∀ label ∈ w.labels.toList, ∃ l : Nat, w.labels[l]? = some label := by
    intro label hmem
    obtain ⟨l, hl⟩ := List.mem_iff_getElem?.1 hmem
    exact ⟨l, by simpa using hl⟩
  refine ⟨?_, ?_, ?_, ?_⟩
  · intro label hmem p hp
    obtain ⟨l, hl⟩ := hget label hmem
    rw [h.uses l label hl] at hp
    exact ⟨l, mem_uses.1 hp⟩
  · intro label hmem
    obtain ⟨l, hl⟩ := hget label hmem
    rw [h.uses l label hl]
    exact nodup_uses l items
  · intro label hmem o ho
    obtain ⟨l, hl⟩ := hget label hmem
    exact h.apart l label o hl ho
  · rw [List.pairwise_iff_getElem]
    intro i j hi hj hij p hp hp'
    rw [Array.length_toList] at hi hj
    rw [Array.getElem_toList, h.uses i _ (Array.getElem?_eq_getElem hi)] at hp
    rw [Array.getElem_toList, h.uses j _ (Array.getElem?_eq_getElem hj)] at hp'
    have := label_unique (mem_uses.1 hp) (mem_uses.1 hp')
    omega

theorem Lays.assigned_eq (h : w.Lays items) {l : Nat} (hmem : (p, l) ∈ jumps 0 items) (hl : w.labels[l]? = some label) :
    assigned w.labels.toList p = label.offset := by
  have honly : ∀ other ∈ w.labels.toList, p ∈ other.uses → other = label := by
    intro other hother hp
    obtain ⟨k, hk⟩ := List.mem_iff_getElem?.1 hother
    have hk : w.labels[k]? = some other := by simpa using hk
    rw [h.uses k other hk] at hp
    have hkl := label_unique (mem_uses.1 hp) hmem
    simp_all
  have hlabel : label ∈ w.labels.toList := by simpa using Array.mem_of_getElem? hl
  have huse : p ∈ label.uses := by
    rw [h.uses l label hl]
    exact mem_uses.2 hmem
  cases hoffset : label.offset with
  | none =>
    rw [assigned, List.findSome?_eq_none_iff]
    intro other hother
    split
    · next hp => rw [honly other hother hp, hoffset]
    · rfl
  | some t =>
    cases hfound : assigned w.labels.toList p with
    | none =>
      have := List.findSome?_eq_none_iff.1 hfound label hlabel
      simp_all
    | some t' =>
      obtain ⟨other, hother, hsome⟩ := List.exists_of_findSome?_eq_some hfound
      simp_all

theorem Lays.near (h : w.Lays items) (hlabel : label ∈ w.labels.toList)
    (hp : p ∈ label.uses) (ht : label.offset = some t) : (ahead p t).natAbs ≤ w.code.size := by
  obtain ⟨l, hl⟩ := List.mem_iff_getElem?.1 hlabel
  rw [Array.getElem?_toList] at hl
  rw [h.uses l label hl] at hp
  obtain ⟨k, -, rfl⟩ := h.bound l label t hl ht
  have hplace := place_of_mem_jumps (mem_uses.1 hp)
  have hsize : w.code.size = extent items := h.location_eq
  have hextent : extent (items.take k) ≤ extent items := by
    conv => rhs; rw [← List.take_append_drop k items, extent_append]
    omega
  rw [ahead]
  omega

def padding (items : List Item) : List Item :=
  if extent items % 2 = 1 then [.instr (.sync .ret 0 0 0 0)] else []

theorem extent_padding (items : List Item) : extent (items ++ padding items) % 2 = 0 := by
  rw [extent_append, padding]
  split
  · rw [show extent [.instr (.sync .ret 0 0 0 0)] = 1 from rfl]
    omega
  · rw [extent_nil]
    omega

theorem finalize_outcome (h : w.Lays items) (strict : Bool) : Outcome
      (fun _ w' => w' = { closeRun w with code := w'.code } ∧
        w'.code.toList = render (assigned w.labels.toList) 0 (items ++ padding items) ∧
        (∀ p l t, (p, l) ∈ jumps 0 items → assigned w.labels.toList p = some t → (ahead p t).natAbs ≤ maxJump) ∧
        (strict = true → ∀ label ∈ w.labels.toList, label.offset = none → label.uses = []))
      (fun stop _ => ∃ label ∈ w.labels.toList, (strict = true ∧ label.offset = none ∧ label.uses ≠ []) ∨
        (∃ n, stop = .abort (.jumpTooFar n)) ∧
          ∃ t, label.offset = some t ∧ ∃ p ∈ label.uses, maxJump < (ahead p t).natAbs)
      (finalize strict w) := by
  have h' : (closeRun w).Lays items := h.congr (code_closeRun w) (labels_closeRun w)
  simp only [finalize, Outcome.bind_iff, Outcome.modify_iff, Outcome.get_iff]
  rw [← labels_closeRun w]
  refine (patchLabels_outcome h'.settled h'.code h'.conditions fun _ _ _ _ => rfl).imp ?_
  rintro _ w' ⟨hw', hcode', hstrict, hall⟩
  simp only [Option.or_none] at hcode'
  have hnear : ∀ p l t, (p, l) ∈ jumps 0 items → assigned (closeRun w).labels.toList p = some t →
      (ahead p t).natAbs ≤ maxJump := by
    intro p l t hmem ht
    have hl := Array.getElem?_eq_getElem (h'.known p l hmem)
    rw [h'.assigned_eq hmem hl] at ht
    refine hall _ (Array.getElem_mem_toList (h'.known p l hmem)) t ht p ?_
    rw [h'.uses l _ hl]
    exact mem_uses.2 hmem
  have hlocation : w'.location = extent items := by
    rw [location, ← Array.length_toList, hcode', length_render]
  rw [hlocation, padding]
  by_cases hodd : extent items % 2 = 1
  · simp only [if_pos hodd]
    refine (⟨?_, ?_, hnear, hstrict⟩ : _ ∧ _ ∧ _ ∧ _)
    · rw [hw']
    · rw [render_append, ← hcode']
      simp [render, Instr.words, Instr.lastWord, Instr.frontWords, Instr.operandPart, Instr.form]
  · simp only [if_neg hodd, List.append_nil]
    exact ⟨hw', hcode', hnear, hstrict⟩

theorem patchJumps_apart (t : Nat) (places : List Nat) (w : CodeWriter) :
    Outcome (fun _ _ => t ∉ places) (fun _ _ => True) (patchJumps t places w) := by
  induction places generalizing w with
  | nil => exact List.not_mem_nil
  | cons p rest ih =>
    have hfirst : Outcome (fun _ _ => t ≠ p) (fun _ _ => True) (patchJump t p w) := by
      by_cases hself : (t : Int) - p - 2 = -2
      · simp only [patchJump, if_pos hself]
        trivial
      · simp only [patchJump, if_neg hself]
        have hne : t ≠ p := fun heq => hself (by omega)
        split
        · trivial
        · exact hne
    rw [patchJumps]
    refine hfirst.bind (fun _ w' hne => ?_) fun _ _ => id
    exact (ih w').imp fun _ _ hrest => List.not_mem_cons_of_ne_of_not_mem hne hrest

theorem patchLabels_apart (strict : Bool) (labels : List Label) (w : CodeWriter) :
    Outcome (fun _ _ => ∀ label ∈ labels, ∀ o, label.offset = some o → o ∉ label.uses) (fun _ _ => True)
      (patchLabels strict labels w) := by
  induction labels generalizing w with
  | nil => exact nofun
  | cons label rest ih =>
    rw [patchLabels]
    cases hoffset : label.offset with
    | some t =>
      refine (patchJumps_apart t label.uses w).bind (fun _ w' hapart => ?_) fun _ _ => id
      simp_all
    | none =>
      have hlabel : ∀ o, label.offset = some o → o ∉ label.uses := by simp_all
      by_cases hloose : (strict && !label.uses.isEmpty) = true
      · simp only [hloose, if_true]
        trivial
      · simp only [if_neg hloose]
        exact (ih w).imp fun _ _ hrest => List.forall_mem_cons.2 ⟨hlabel, hrest⟩

theorem Places.lays_of_finalize (h : w.Places items) {strict : Bool} {w' : CodeWriter}
    (hfinal : finalize strict w = .ok () w') : w.Lays items := by
  have hapart : Outcome (fun _ _ => ∀ label ∈ w.labels.toList, ∀ o, label.offset = some o → o ∉ label.uses)
      (fun _ _ => True) (finalize strict w) := by
    simp only [finalize, Outcome.bind_iff, Outcome.modify_iff, Outcome.get_iff]
    refine (patchLabels_apart strict (closeRun w).labels.toList (closeRun w)).imp fun _ w1 happly => ?_
    rw [labels_closeRun] at happly
    split
    · exact (pushWords_outcome _ w1).mono (fun _ _ _ => happly) fun _ _ _ => trivial
    · exact happly
  rw [hfinal] at hapart
  exact ⟨h, fun l label o hl ho => hapart label (by simpa using Array.mem_of_getElem? hl) o ho⟩

end CodeWriter

end BusScript
