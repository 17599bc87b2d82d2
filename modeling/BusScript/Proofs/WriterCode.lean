import BusScript.Proofs.Items
import BusScript.Proofs.Outcome

namespace BusScript

def Item.uses (label : Nat) (items : List Item) : List Nat :=
  (Item.jumps 0 items).filterMap fun (p, l) => if l = label then some p else none

/-- The code of a writer is a row of items with jumps left open; labels know the jumps to them, and stand
between items. -/
structure CodeWriter.Places (w : CodeWriter) (items : List Item) : Prop where
  code : w.code.toList = Item.render (fun _ => none) 0 items
  encodable : ∀ i, .instr i ∈ items → i.Encodable
  conditions : Item.Conditions items
  uses : ∀ (l : Nat) (label : Label), w.labels[l]? = some label → label.uses = Item.uses l items
  known : ∀ p l, (p, l) ∈ Item.jumps 0 items → l < w.labels.size
  bound : ∀ (l : Nat) (label : Label) (o : Nat), w.labels[l]? = some label →
    label.offset = some o → ∃ k, k ≤ items.length ∧ o = Item.extent (items.take k)

/-- Besides, no label stands where a jump to it does. -/
structure CodeWriter.Lays (w : CodeWriter) (items : List Item) : Prop extends w.Places items where
  apart : ∀ (l : Nat) (label : Label) (o : Nat), w.labels[l]? = some label → label.offset = some o → o ∉ label.uses

namespace Item

theorem mem_uses {items : List Item} {label p : Nat} : p ∈ uses label items ↔ (p, label) ∈ jumps 0 items := by
  simp only [uses, List.mem_filterMap, Prod.exists]
  grind

theorem uses_append (label : Nat) (items more : List Item) : uses label (items ++ more) = uses label items ++
      (jumps (extent items) more).filterMap fun (p, l) => if l = label then some p else none := by
  rw [uses, uses, jumps_append, List.filterMap_append, Nat.zero_add]

theorem nodup_places {items : List Item} {place : Nat} : ((jumps place items).map Prod.fst).Nodup := by
  induction items generalizing place with
  | nil => exact List.nodup_nil
  | cons item rest ih =>
    cases item with
    | instr i => exact ih
    | jump label ifZero =>
      refine List.nodup_cons.2 ⟨fun hmem => ?_, ih⟩
      obtain ⟨⟨p, l⟩, hp, rfl⟩ := List.mem_map.1 hmem
      have := place_of_mem_jumps hp
      omega

theorem nodup_uses (label : Nat) (items : List Item) : (uses label items).Nodup := by
  have hsub : (uses label items).Sublist ((jumps 0 items).map Prod.fst) := by
    rw [uses]
    generalize jumps 0 items = js
    induction js with
    | nil => exact .slnil
    | cons j js ih => grind
  exact nodup_places.sublist hsub

end Item

namespace CodeWriter

variable {w : CodeWriter} {items : List Item}

theorem Places.location_eq (h : w.Places items) : w.location = Item.extent items := by
  rw [location, ← Array.length_toList, h.code, Item.length_render]

theorem lays_new : new.Lays [] := by
  refine ⟨⟨rfl, by simp, fun _ _ h => by simp at h, ?_, fun _ _ h => by simp [Item.jumps] at h, ?_⟩, ?_⟩
  · intro l label hl
    have hmem := Array.mem_of_getElem? hl
    simp only [new, Array.mem_def, List.mem_cons, List.not_mem_nil, or_false] at hmem
    rcases hmem with rfl | rfl <;> rfl
  · intro l label o hl ho
    have hmem := Array.mem_of_getElem? hl
    simp only [new, Array.mem_def, List.mem_cons, List.not_mem_nil, or_false] at hmem
    rcases hmem with rfl | rfl
    · exact ⟨0, Nat.le_refl _, by simpa using ho.symm⟩
    · cases ho
  · intro l label o hl ho
    have hmem := Array.mem_of_getElem? hl
    simp only [new, Array.mem_def, List.mem_cons, List.not_mem_nil, or_false] at hmem
    rcases hmem with rfl | rfl <;> simp

theorem Places.congr (h : w.Places items) {w' : CodeWriter} (hcode : w'.code = w.code)
    (hlabels : w'.labels = w.labels) : w'.Places items :=
  ⟨hcode ▸ h.code, h.encodable, h.conditions, hlabels ▸ h.uses, hlabels ▸ h.known, hlabels ▸ h.bound⟩

theorem Lays.congr (h : w.Lays items) {w' : CodeWriter} (hcode : w'.code = w.code)
    (hlabels : w'.labels = w.labels) : w'.Lays items :=
  ⟨h.toPlaces.congr hcode hlabels, hlabels ▸ h.apart⟩

theorem code_closeRun (w : CodeWriter) : (closeRun w).code = w.code := by
  rw [closeRun]
  split <;> rfl

theorem labels_closeRun (w : CodeWriter) : (closeRun w).labels = w.labels := by
  rw [closeRun]
  split <;> rfl

variable {l : Nat} {ifZero : Option Nat}

variable {label : Label} {k : Nat}

theorem Places.bound_append (h : w.Places items) (more : List Item) {o : Nat}
    (hl : w.labels[l]? = some label) (ho : label.offset = some o) :
    ∃ k, k ≤ (items ++ more).length ∧ o = Item.extent ((items ++ more).take k) := by
  obtain ⟨k, hk, rfl⟩ := h.bound l label o hl ho
  refine ⟨k, ?_, ?_⟩
  · rw [List.length_append]
    omega
  · rw [List.take_append_of_le_length hk]

theorem pushWords_outcome (xs : List (Except Defect Word)) (w : CodeWriter) : Outcome
      (fun _ w' => ∃ ws : List Word, xs = ws.map .ok ∧ w' = { w with code := w.code ++ ws })
      (fun stop w' => (∃ defect, stop = .abort defect ∧ .error defect ∈ xs) ∧
        ∃ ws : List Word, w' = { w with code := w.code ++ ws })
      (pushWords xs w) := by
  induction xs generalizing w with
  | nil => exact ⟨[], rfl, by simp⟩
  | cons x rest ih =>
    cases x with
    | error defect => exact ⟨⟨defect, rfl, by simp⟩, [], by simp⟩
    | ok word =>
      simp only [pushWords, pushWord, Outcome.bind_iff, Outcome.modify_iff]
      refine (ih _).mono ?_ ?_
      · rintro _ w' ⟨ws, rfl, rfl⟩
        exact ⟨word :: ws, rfl, by simp⟩
      · rintro stop w' ⟨⟨defect, rfl, hmem⟩, ws, rfl⟩
        exact ⟨⟨defect, rfl, by simp [hmem]⟩, word :: ws, by simp⟩

theorem emit_places (h : w.Places items) (i : Instr) : Outcome
      (fun _ w' => i.Encodable ∧ w'.Places (items ++ [.instr i]) ∧ w' = { w with code := w'.code })
      (fun stop w' => ¬ i.Encodable ∧ (∃ defect, stop = .abort defect ∧ ∀ fits, defect.IsLimit fits) ∧
        w' = { w with code := w'.code } ∧ w.code.size ≤ w'.code.size)
      (emit i w) := by
  rw [emit]
  refine (pushWords_outcome i.encode w).mono ?_ ?_
  · rintro _ w' ⟨ws, hws, rfl⟩
    have henc : i.Encodable := Instr.encodable_of_encode fun x hx => by
      grind
    have hwords : ws = i.words := by
      rw [henc.encode_eq] at hws
      exact ((List.map_inj_right fun _ _ hab => Except.ok.inj hab).1 hws).symm
    subst hwords
    refine ⟨henc, ⟨?_, ?_, ?_, ?_, ?_, ?_⟩, rfl⟩
    · simp [h.code, Item.render_append, Item.render]
    · intro j hj
      rcases List.mem_append.1 hj with hj | hj
      · exact h.encodable j hj
      · simp_all
    · intro l r hj
      rcases List.mem_append.1 hj with hj | hj
      · exact h.conditions l r hj
      · cases List.mem_singleton.1 hj
    · intro l label hl
      rw [Item.uses_append, h.uses l label hl]
      simp [Item.jumps]
    · intro p l hp
      rw [Item.jumps_append] at hp
      exact h.known p l (by simpa [Item.jumps] using hp)
    · intro l label o hl ho
      exact h.bound_append _ hl ho
  · rintro stop w' ⟨⟨defect, rfl, hmem⟩, ws, rfl⟩
    refine ⟨fun henc => ?_, ⟨defect, rfl, Instr.isLimit_of_mem_encode hmem⟩, rfl, ?_⟩
    · rw [henc.encode_eq] at hmem
      simp_all
    · rw [← Array.length_toList, ← Array.length_toList, Array.toList_appendList, List.length_append]
      exact Nat.le_add_right ..

theorem emit_of_encodable {i : Instr} (h : i.Encodable) (w : CodeWriter) :
    emit i w = .ok () { w with code := w.code ++ i.words } := by
  have hout := pushWords_outcome i.encode w
  rw [h.encode_eq] at hout
  rw [emit, h.encode_eq]
  cases hresult : pushWords (i.words.map .ok) w with
  | ok u w' =>
    rw [hresult] at hout
    obtain ⟨ws, hws, rfl⟩ := hout
    rw [(List.map_inj_right fun _ _ => Except.ok.inj).1 hws]
  | error stop w' =>
    rw [hresult] at hout
    obtain ⟨⟨defect, -, hmem⟩, -⟩ := hout
    simp at hmem

theorem emit_outcome (h : w.Lays items) (i : Instr) : Outcome
      (fun _ w' => i.Encodable ∧ w'.Lays (items ++ [.instr i]) ∧ w' = { w with code := w'.code })
      (fun stop w' => ¬ i.Encodable ∧ (∃ defect, stop = .abort defect ∧ ∀ fits, defect.IsLimit fits) ∧
        w' = { w with code := w'.code } ∧ w.code.size ≤ w'.code.size)
      (emit i w) := by
  refine (emit_places h.toPlaces i).imp ?_
  rintro _ w' ⟨henc, hplaces, hw'⟩
  exact ⟨henc, ⟨hplaces, by rw [hw']; exact h.apart⟩, hw'⟩

theorem newLabel_places (h : w.Places items) (name : String) :
    Outcome (fun l w' => l = w.labels.size ∧ w'.Places items ∧ w' = { w with labels := w.labels.push { name } })
      (fun _ _ => False) (newLabel name w) := by
  change _ ∧ _ ∧ _
  refine ⟨rfl, ⟨h.code, h.encodable, h.conditions, ?_, ?_, ?_⟩, rfl⟩
  · intro l label hl
    rw [Array.getElem?_push] at hl
    split at hl
    · next hsize =>
      cases hl
      refine (List.eq_nil_iff_forall_not_mem.2 fun p hp => ?_).symm
      have := h.known p l (Item.mem_uses.1 hp)
      omega
    · exact h.uses l label hl
  · intro p l hp
    rw [Array.size_push]
    exact Nat.lt_succ_of_lt (h.known p l hp)
  · intro l label o hl ho
    rw [Array.getElem?_push] at hl
    split at hl
    · cases hl
      cases ho
    · exact h.bound l label o hl ho

theorem newLabel_outcome (h : w.Lays items) (name : String) : Outcome (fun l w' => l = w.labels.size ∧ w'.Lays items ∧
        w' = { w with labels := w.labels.push { name } })
      (fun _ _ => False) (newLabel name w) := by
  refine (newLabel_places h.toPlaces name).imp ?_
  rintro l w' ⟨hl, hplaces, rfl⟩
  refine ⟨hl, ⟨hplaces, fun l label o hl ho => ?_⟩, rfl⟩
  rw [Array.getElem?_push] at hl
  split at hl
  · cases hl
    cases ho
  · exact h.apart l label o hl ho

theorem getElem?_bound {other : Label}
    (hk : (w.labels.modify l ({ · with offset := some w.location }))[k]? = some other) :
    ∃ old, w.labels[k]? = some old ∧ other.uses = old.uses ∧
      (other.offset = old.offset ∨ k = l ∧ other.offset = some w.location) := by grind

theorem Places.bindLabel (h : w.Places items) (l : Nat) :
    { w with labels := w.labels.modify l ({ · with offset := some w.location }) }.Places items := by
  refine ⟨h.code, h.encodable, h.conditions, ?_, ?_, ?_⟩
  · intro k other hk
    obtain ⟨old, hold, huses, -⟩ := getElem?_bound hk
    rw [huses, h.uses k old hold]
  · intro p k hp
    rw [Array.size_modify]
    exact h.known p k hp
  · intro k other o hk ho
    obtain ⟨old, hold, -, hoffset | ⟨-, hoffset⟩⟩ := getElem?_bound hk
    · exact h.bound k old o hold (hoffset ▸ ho)
    · rw [hoffset, Option.some.injEq, h.location_eq] at ho
      exact ⟨items.length, Nat.le_refl _, by rw [List.take_length, ho]⟩

theorem bindLabel_outcome (h : w.Lays items)
    (hl : w.labels[l]? = some label) (hopen : label.offset = none) : Outcome (fun _ w' => w'.Lays items ∧
        w' = { w with labels := w.labels.modify l ({ · with offset := some w.location }) })
      (fun _ _ => False) (bindLabel l w) := by
  obtain ⟨name, offset, uses⟩ := label
  cases hopen
  simp only [CodeWriter.bindLabel, Outcome.bind_iff, Outcome.get_iff, hl]
  change _ ∧ _
  refine ⟨⟨h.toPlaces.bindLabel l, fun k other o hk ho hmem => ?_⟩, rfl⟩
  obtain ⟨old, hold, huses, hoffset | ⟨-, hoffset⟩⟩ := getElem?_bound hk
  · exact h.apart k old o hold (hoffset ▸ ho) (huses ▸ hmem)
  · rw [hoffset, Option.some.injEq, h.location_eq] at ho
    rw [huses, h.uses k old hold] at hmem
    have := Item.place_of_mem_jumps (Item.mem_uses.1 hmem)
    omega

theorem getElem?_used {other : Label}
    (hk : (w.labels.modify l fun l => { l with uses := l.uses ++ [w.location] })[k]? = some other) :
    ∃ old, w.labels[k]? = some old ∧ other.offset = old.offset ∧
      other.uses = if k = l then old.uses ++ [w.location] else old.uses := by grind

theorem emitJump_eq (l : Nat) (hcond : ∀ r, ifZero = some r → r < 16) (w : CodeWriter) :
    emitJump l ifZero w = .ok () { w with
      code := (w.code.push (Word.make .setB 0)).push (Word.make .jump (Item.jumpArg ifZero))
      labels := w.labels.modify l fun l => { l with uses := l.uses ++ [w.location] } } := by
  have harg : Item.jumpArg ifZero ≤ 0xfff := Item.jumpArg_le hcond
  cases ifZero with
  | none => rfl
  | some r =>
    rw [Item.jumpArg] at harg
    simp only [emitJump, emitRaw, Instr.word, if_pos harg]
    rfl

theorem emitJump_places (h : w.Places items) (hlt : l < w.labels.size) (hcond : ∀ r, ifZero = some r → r < 16) :
    Outcome (fun _ w' => w'.Places (items ++ [.jump l ifZero]) ∧ w' = { w with
          code := w'.code
          labels := w.labels.modify l fun l => { l with uses := l.uses ++ [w.location] } })
      (fun _ _ => False) (emitJump l ifZero w) := by
  rw [emitJump_eq l hcond]
  change _ ∧ _
  refine ⟨⟨?_, ?_, ?_, ?_, ?_, ?_⟩, rfl⟩
  · simp [h.code, Item.render_append, Item.render, Item.jumpWords]
  · intro i hi
    rcases List.mem_append.1 hi with hi | hi
    · exact h.encodable i hi
    · cases List.mem_singleton.1 hi
  · intro k r hj
    rcases List.mem_append.1 hj with hj | hj
    · exact h.conditions k r hj
    · simp_all
  · intro k other hk
    obtain ⟨old, hold, -, huses⟩ := getElem?_used hk
    rw [huses, Item.uses_append, h.uses k old hold, h.location_eq]
    by_cases hkl : k = l
    · simp [Item.jumps, hkl]
    · simp [Item.jumps, hkl, Ne.symm hkl]
  · intro p k hp
    rw [Array.size_modify]
    rw [Item.jumps_append] at hp
    rcases List.mem_append.1 hp with hp | hp
    · exact h.known p k hp
    · simp only [Item.jumps, List.mem_singleton] at hp
      cases hp
      exact hlt
  · intro k other o hk ho
    obtain ⟨old, hold, hoffset, -⟩ := getElem?_used hk
    exact h.bound_append _ hold (hoffset ▸ ho)

theorem emitJump_outcome (h : w.Lays items) (hl : w.labels[l]? = some label) (hapart : label.offset ≠ some w.location)
    (hcond : ∀ r, ifZero = some r → r < 16) : Outcome (fun _ w' => w'.Lays (items ++ [.jump l ifZero]) ∧ w' = { w with
          code := w'.code
          labels := w.labels.modify l fun l => { l with uses := l.uses ++ [w.location] } })
      (fun _ _ => False) (emitJump l ifZero w) := by
  obtain ⟨hlt, -⟩ := Array.getElem?_eq_some_iff.1 hl
  refine (emitJump_places h.toPlaces hlt hcond).imp ?_
  rintro _ w' ⟨hplaces, hw'⟩
  refine ⟨⟨hplaces, fun k other o hk ho hmem => ?_⟩, hw'⟩
  rw [hw'] at hk
  obtain ⟨old, hold, hoffset, huses⟩ := getElem?_used hk
  rw [huses] at hmem
  split at hmem
  · next hkl =>
    subst hkl
    rw [hl, Option.some.injEq] at hold
    subst hold
    rcases List.mem_append.1 hmem with hmem | hmem
    · exact h.apart k label o hl (hoffset ▸ ho) hmem
    · grind
  · exact h.apart k old o hold (hoffset ▸ ho) hmem

end CodeWriter

end BusScript
