import BusScript.Proofs.FinishedBodies

namespace BusScript

open Item

/-- At word `p` an instruction starts that jumps to word `o`. -/
structure Body.JumpsAt (code : Array Word) (p o : Nat) : Prop where
  starts : startsAt code p = true
  jumps : ∃ word, code[p + 1]? = some word ∧ word.opClass? = some .jump ∧
    word.jumpTarget (p + 1) (seenAt code (p + 1) word).b = o ∧
    (word.jumpsBack = true → (seenAt code (p + 1) word).b ≤ p + 2)

namespace CodeWriter

def usesOf (w : CodeWriter) (l : Nat) : List Nat := (w.labels[l]?.map (·.uses)).getD []

/-- Every use of a label is a jump to the start of an instruction where the label stands, and every jump is a use of
one label. -/
structure Linked (w : CodeWriter) : Prop where
  used : ∀ l, ∀ p ∈ w.usesOf l, ∃ o, w.offset? l = some o ∧ o ≠ p ∧ Body.startsAt w.code o = true ∧
    Body.JumpsAt w.code p o
  owned : ∀ (n : Nat) (word : Word), w.code[n]? = some word → word.opClass? = some .jump →
    ∃ p, n = p + 1 ∧ ∃ l, p ∈ w.usesOf l ∧ ∀ l', p ∈ w.usesOf l' → l' = l

/-- Labels that are used stand somewhere else than the jumps to them, and within their reach. -/
def Resolved (w : CodeWriter) : Prop :=
  ∀ l, ∀ p ∈ w.usesOf l, ∃ o, w.offset? l = some o ∧ o ≠ p ∧ (ahead p o).natAbs ≤ maxJump

variable {w w' : CodeWriter} {items : List Item}

variable {l : Nat}

theorem usesOf_eq {label : Label} (hl : w.labels[l]? = some label) : w.usesOf l = label.uses := by
  rw [usesOf, hl, Option.map_some, Option.getD_some]

theorem offset?_eq {label : Label} (hl : w.labels[l]? = some label) : w.offset? l = label.offset := by
  rw [offset?, hl, Option.bind_some]

theorem Places.mem_usesOf (h : w.Places items) {p : Nat} : p ∈ w.usesOf l ↔ (p, l) ∈ jumps 0 items := by
  cases hl : w.labels[l]? with
  | none =>
    rw [usesOf, hl]
    refine ⟨fun hp => absurd hp List.not_mem_nil, fun hmem => ?_⟩
    rw [Array.getElem?_eq_getElem (h.known p l hmem)] at hl
    cases hl
  | some label =>
    rw [usesOf_eq hl, h.uses l label hl]
    exact mem_uses

end CodeWriter

variable {items : List Item}

theorem Item.exists_of_mem_jumps {place p label : Nat} (h : (p, label) ∈ jumps place items) :
    ∃ k ifZero, items[k]? = some (.jump label ifZero) ∧ p = place + extent (items.take k) := by
  induction items generalizing place with
  | nil => cases h
  | cons item rest ih =>
    have hrest {q : Nat} (hq : (p, label) ∈ jumps q rest) (hlen : q = place + item.length) :
        ∃ k ifZero, (item :: rest)[k]? = some (.jump label ifZero) ∧ p = place + extent ((item :: rest).take k) := by
      obtain ⟨k, ifZero, hk, hp⟩ := ih hq
      refine ⟨k + 1, ifZero, hk, ?_⟩
      rw [List.take_succ_cons, extent_cons, hp, hlen, Nat.add_assoc]
    cases item with
    | instr i => exact hrest h rfl
    | jump first ifZero =>
      rcases List.mem_cons.1 h with heq | hmem
      · cases heq
        exact ⟨0, ifZero, rfl, rfl⟩
      · exact hrest hmem rfl

theorem Item.Rows.jumpsAt {target : Nat → Option Nat} {cs : List Chunk} (h : Rows target 0 items cs)
    {p label : Nat} (hmem : (p, label) ∈ jumps 0 items) : Body.JumpsAt (Chunk.body cs) p (goal target p) := by
  obtain ⟨k, ifZero, hitem, hp⟩ := exists_of_mem_jumps hmem
  obtain ⟨c, hc, hfront, hclass, -, -, hgoal, hback⟩ := h.exists_chunk hitem
  obtain ⟨hlt, -⟩ := List.getElem?_eq_some_iff.1 hitem
  have hoffset : Chunk.offset cs k = p := by
    rw [h.offset_eq (Nat.le_of_lt hlt), hp, Nat.zero_add]
  rw [← hp] at hgoal hback
  have hword := Body.getElem?_body hc (i := 1) (by rw [Chunk.length_words, hfront]; decide)
  have hseen := Body.seenAt_chunk hc
  rw [hoffset] at hword
  rw [hoffset, hfront] at hseen
  refine ⟨?_, c.word, ?_, hclass, ?_, ?_⟩
  · rw [← hoffset]
    exact Body.startsAt_offset (h.length ▸ Nat.le_of_lt hlt)
  · rw [hword, Chunk.words, ← hfront, List.getElem?_concat_length]
  · rw [hseen, hgoal]
  · rw [hseen]
    exact hback

theorem Item.Rows.mem_jumps {target : Nat → Option Nat} {cs : List Chunk} (h : Rows target 0 items cs)
    (henc : ∀ i, .instr i ∈ items → i.Encodable) {n : Nat} {word : Word} (hword : (Chunk.body cs)[n]? = some word)
    (hjump : word.opClass? = some .jump) : ∃ p l, n = p + 1 ∧ (p, l) ∈ jumps 0 items := by
  have hno : word.isOperandPrefix = false :=
    (Operands.absorb?_eq_none_iff (p := {})).1 (by rw [Operands.absorb?, hjump])
  obtain ⟨k, c, hc, hn, rfl⟩ := Body.exists_chunk hword hno
  obtain ⟨item, hitem, hbecomes⟩ := h.exists_item hc
  obtain ⟨hlt, -⟩ := List.getElem?_eq_some_iff.1 hitem
  cases item with
  | instr i =>
    rw [hbecomes.2.1, Instr.opClass?_lastWord (henc i (List.mem_of_getElem? hitem))] at hjump
    cases i <;> cases hjump
  | jump label ifZero =>
    refine ⟨_, label, ?_, mem_jumps_of_getElem? 0 hitem⟩
    rw [hn, h.offset_eq (Nat.le_of_lt hlt), hbecomes.1, Nat.zero_add]

namespace CodeWriter

variable {w w' : CodeWriter} {items : List Item}

theorem exists_of_mem_usesOf {l p : Nat} (hp : p ∈ w.usesOf l) : ∃ label, w.labels[l]? = some label ∧ p ∈ label.uses := by
  cases hl : w.labels[l]? with
  | none =>
    rw [usesOf, hl] at hp
    exact absurd hp List.not_mem_nil
  | some label => exact ⟨label, rfl, usesOf_eq hl ▸ hp⟩

theorem Resolved.lays (h : w.Places items) (hres : w.Resolved) : w.Lays items := by
  refine ⟨h, fun l label o hl ho hmem => ?_⟩
  obtain ⟨o', ho', hne, -⟩ := hres l o (usesOf_eq hl ▸ hmem)
  rw [offset?_eq hl, ho] at ho'
  cases ho'
  exact hne rfl

theorem Places.finalize_iff (h : w.Places items) : (∃ w', finalize true w = .ok () w') ↔ w.Resolved := by
  constructor
  · rintro ⟨w', hfinal⟩ l p hp
    have hlays := h.lays_of_finalize hfinal
    have hout := finalize_outcome hlays true
    rw [hfinal] at hout
    obtain ⟨-, -, hnear, hstrict⟩ := hout
    obtain ⟨label, hl, huse⟩ := exists_of_mem_usesOf hp
    have hmem := h.mem_usesOf.1 hp
    cases ho : label.offset with
    | none =>
      rw [hstrict rfl label (Array.mem_toList_iff.2 (Array.mem_of_getElem? hl)) ho] at huse
      cases huse
    | some o =>
      refine ⟨o, (offset?_eq hl).trans ho, fun heq => hlays.apart l label o hl ho (heq ▸ huse), ?_⟩
      exact hnear p l o hmem ((hlays.assigned_eq hmem hl).trans ho)
  · intro hres
    have hout := finalize_outcome (hres.lays h) true
    revert hout
    cases finalize true w with
    | ok u w' => exact fun _ => ⟨w', rfl⟩
    | error stop w' =>
      rintro ⟨label, hlabel, hwhy⟩
      obtain ⟨l, hl⟩ := List.mem_iff_getElem?.1 hlabel
      rw [Array.getElem?_toList] at hl
      rcases hwhy with ⟨-, hnone, huses⟩ | ⟨-, t, ht, p, hp, hfar⟩
      · obtain ⟨p, hp⟩ := List.exists_mem_of_ne_nil _ huses
        obtain ⟨o, ho, -⟩ := hres l p (usesOf_eq hl ▸ hp)
        rw [offset?_eq hl, hnone] at ho
        cases ho
      · obtain ⟨o, ho, -, hnear⟩ := hres l p (usesOf_eq hl ▸ hp)
        rw [offset?_eq hl, ht] at ho
        cases ho
        exact absurd hnear (Nat.not_le.2 hfar)

theorem Places.linked (h : w.Places items) (hfinal : finalize true w = .ok () w') :
    w'.labels = w.labels ∧ w.code.size ≤ w'.code.size ∧ w'.Linked := by
  have hlays := h.lays_of_finalize hfinal
  have hres := h.finalize_iff.1 ⟨w', hfinal⟩
  have hout := finalize_outcome hlays true
  rw [hfinal] at hout
  obtain ⟨hw', hcode, hnear, -⟩ := hout
  have hlabels : w'.labels = w.labels := by
    rw [hw']
    exact labels_closeRun w
  have huses (l : Nat) : w'.usesOf l = w.usesOf l := by rw [usesOf, usesOf, hlabels]
  have hoffset (l : Nat) : w'.offset? l = w.offset? l := by rw [offset?, offset?, hlabels]
  obtain ⟨cs, hrows⟩ := h.exists_rows hnear
  have hbody : w'.code = Chunk.body cs := Array.toList_inj.1 (hcode.trans hrows.words.symm)
  refine ⟨hlabels, ?_, fun l p hp => ?_, fun n word hword hjump => ?_⟩
  · rw [hbody, hrows.size_body, extent_append]
    exact Nat.le_trans (Nat.le_of_eq h.location_eq) (Nat.le_add_right _ _)
  · rw [huses] at hp
    obtain ⟨o, ho, hne, -⟩ := hres l p hp
    obtain ⟨label, hl, -⟩ := exists_of_mem_usesOf hp
    have hmem := h.mem_usesOf.1 hp
    have hgoal : goal (assigned w.labels.toList) p = o := by
      rw [goal, hlays.assigned_eq hmem hl, ← offset?_eq hl, ho, Option.getD_some]
    rw [hoffset, hbody]
    refine ⟨o, ho, hne, ?_, ?_⟩
    · obtain ⟨k, hk, rfl⟩ := h.bound_append (padding items) hl (offset?_eq hl ▸ ho)
      rw [← hrows.offset_eq hk]
      exact Body.startsAt_offset (hrows.length ▸ hk)
    · rw [← hgoal]
      exact hrows.jumpsAt ((jumps_padding items).symm ▸ hmem)
  · rw [hbody] at hword
    obtain ⟨p, l, hn, hmem⟩ := hrows.mem_jumps h.encodable_padded hword hjump
    rw [jumps_padding] at hmem
    refine ⟨p, hn, l, ?_, fun l' hl' => ?_⟩
    · rw [huses]
      exact h.mem_usesOf.2 hmem
    · rw [huses] at hl'
      exact label_unique (h.mem_usesOf.1 hl') hmem

end CodeWriter

theorem Procedure.finalize_writer {strict : Bool} {p p' : Procedure} (h : p.finalize strict = .ok p') :
    CodeWriter.finalize strict p.writer = .ok () p'.writer := by
  rw [finalize] at h
  grind

namespace Draft

variable {c : Catalog} {o : CompileOptions} {script : List Stmt} {d : Draft}

theorem whole_of_draftOf (h : draftOf c o script = .ok d) : (lowered c o script).Whole := by
  have hout : Outcome _ _ (Lowering.wholeScript script (Draft.new c o)) := Lowering.wholeScript_outcome False.elim
  cases hwhole : Lowering.wholeScript script (Draft.new c o) with
  | error stop d' =>
    rw [draftOf_of_error hwhole] at h
    cases h
  | ok u d' =>
    rw [hwhole] at hout
    rw [lowered, hwhole]
    exact hout.1

theorem linked_of_draftOf (h : draftOf c o script = .ok d) (hclean : d.findings.count = 0) {p : Procedure}
    (hp : p ∈ d.procedures) :
    p.writer.Linked ∧ ∀ l, l < p.writer.labels.size → ∃ o, p.writer.offset? l = some o ∧ o < p.writer.code.size := by
  have hwhole := whole_of_draftOf h
  have hpatched := (complete_of_draftOf h).2.2
  have hproblems : (lowered c o script).findings.count = 0 := by
    rw [hpatched.rest] at hclean
    exact hclean
  obtain ⟨i, hi⟩ := Array.mem_iff_getElem?.1 hp
  obtain ⟨q, hq, hfinal, -⟩ := hpatched.procedures i p hi
  have hsound := hwhole.sound.procedures i q hq
  have hbound := (hwhole.finished hproblems q (Array.mem_of_getElem? hq)).1.bound
  obtain ⟨items, hlays, -, hends⟩ := hsound.rows
  obtain ⟨front, rfl, hbefore⟩ := hends (hbound CodeWriter.retLabel hsound.size)
  rw [isClean_iff.2 hproblems] at hfinal
  obtain ⟨hlabels, hsize, hlinked⟩ := hlays.toPlaces.linked (Procedure.finalize_writer hfinal)
  refine ⟨hlinked, fun l hl => ?_⟩
  rw [hlabels] at hl
  obtain ⟨o, ho⟩ := Option.ne_none_iff_exists'.1 (hbound l hl)
  have hle := hbefore l o ho
  have hlen : q.writer.code.size = _ := hlays.location_eq
  have hret : extent [.instr .ret] = 1 := rfl
  rw [extent_append, hret] at hlen
  refine ⟨o, ?_, by omega⟩
  rw [CodeWriter.offset?, hlabels]
  exact ho

end Draft

end BusScript
