import BusScript.Proofs.Drafts

/-!
What a step of lowering does to a sound draft. A construct may open labels and register scopes of its own;
when it is done all of them are bound and popped, what it wrote stands behind what was there, and defects
are possible only where the draft has outgrown what images can hold.
-/

namespace BusScript

open CodeWriter

def CodeWriter.saving (w : CodeWriter) (m : Nat) : CodeWriter := { w with maxRegs := m }

def Bounds.saving (b : Bounds) (m : Nat) : Bounds := { b with regs := m }

structure Procedure.Advances (p p' : Procedure) : Prop where
  numParams : p'.numParams = p.numParams
  locals : ∀ (i : Nat) (v : Variable), p.locals.slots[i]? = some v → p'.locals.slots[i]? = some v
  maxRegs : p.writer.maxRegs ≤ p'.writer.maxRegs
  code : p.writer.code.size ≤ p'.writer.code.size
  labels : p.writer.labels.size ≤ p'.writer.labels.size
  bound : ∀ l o, p.writer.offset? l = some o → p'.writer.offset? l = some o

namespace Draft

/-- Code may go into the current procedure: it has not returned yet. -/
structure Ready (d : Draft) : Prop where
  sound : d.Sound
  isOpen : d.writer.offset? retLabel = none

/-- A draft on the way from `d0`, with `j` scopes pushed on the way and still there. -/
structure Within (d0 : Draft) (j : Nat) (d : Draft) : Prop where
  ready : d.Ready
  size : 2 ≤ d0.writer.labels.size
  grown : d0.Extends d
  elsewhere : d0.atTopLevel = false → d0.SameElsewhere d
  reserved : d0.Reserved → d.Reserved
  offsets : ∀ l, l < d0.writer.labels.size → d.writer.offset? l = d0.writer.offset? l
  scopes : ∃ own added, d.writer.scopes = own ++ grow added d0.writer.scopes ∧ own.length = j
  others : ∀ i, i ≠ d0.current → d.scopesOf i = d0.scopesOf i

/-- Of the labels made on the way, `labels` are still to be bound. -/
structure Inside (d0 : Draft) (labels : List Nat) (j : Nat) (d : Draft) : Prop
    extends d0.Within j d where
  accounted : d.findings.count = 0 → d0.Accounted → d.Accounted
  nodup : labels.Nodup
  unbound : ∀ l ∈ labels, d0.writer.labels.size ≤ l ∧ l < d.writer.labels.size ∧
    d.writer.offset? l = none
  bound : d.findings.count = 0 → ∀ l, d0.writer.labels.size ≤ l → l < d.writer.labels.size →
    d.writer.offset? l ≠ none ∨ l ∈ labels

variable {d0 d d' : Draft} {labels : List Nat} {j k : Nat}

theorem Ready.inside (h : d.Ready) : d.Inside [] 0 d := by
  refine ⟨⟨h, h.sound.procedure.size, Extends.refl d, fun _ => ⟨fun _ _ => rfl, rfl, rfl⟩, id, fun _ _ => rfl,
    ⟨[], [], by simp, rfl⟩, fun _ _ => rfl⟩, fun _ => id, List.nodup_nil, nofun, fun _ l hl hlt => ?_⟩
  omega

theorem Within.trans (h : d0.Within j d) (h' : d.Within k d') : d0.Within (k + j) d' := by
  refine ⟨h'.ready, h.size, h.grown.trans h'.grown, fun htop => ?_, fun hres => h'.reserved (h.reserved hres),
    fun l hl => ?_, ?_, fun i hi => (h'.others i (h.grown.current ▸ hi)).trans (h.others i hi)⟩
  · refine (h.elsewhere htop).trans (h'.elsewhere ?_) h.grown.current
    rw [h.grown.atTopLevel, htop]
  · exact (h'.offsets l (Nat.lt_of_lt_of_le hl h.grown.labels)).trans (h.offsets l hl)
  · obtain ⟨own, added, hscopes, rfl⟩ := h.scopes
    obtain ⟨own', added', hscopes', rfl⟩ := h'.scopes
    rw [hscopes] at hscopes'
    cases own with
    | nil =>
      refine ⟨own', added ++ added', ?_, rfl⟩
      rw [hscopes', List.nil_append, grow_grow]
    | cons scope rest =>
      refine ⟨own' ++ (scope ++ added') :: rest, added, ?_, by simp⟩
      rw [hscopes', List.cons_append, grow_cons, List.append_assoc, List.cons_append]

theorem Inside.trans (h : d0.Inside labels j d) (h' : d.Inside [] 0 d') :
    d0.Inside labels j d' := by
  refine ⟨Nat.zero_add j ▸ h.toWithin.trans h'.toWithin, fun hclean hacc => ?_, h.nodup,
    fun l hl => ?_, fun hclean l hl hlt => ?_⟩
  · exact h'.accounted hclean (h.accounted (h'.grown.clean hclean) hacc)
  · obtain ⟨hge, hlt, hnone⟩ := h.unbound l hl
    exact ⟨hge, Nat.lt_of_lt_of_le hlt h'.grown.labels, (h'.offsets l hlt).trans hnone⟩
  · by_cases hold : l < d.writer.labels.size
    · rw [h'.offsets l hold]
      exact h.bound (h'.grown.clean hclean) l hl hold
    · exact .inl ((h'.bound hclean l (Nat.le_of_not_lt hold) hlt).resolve_right (by simp))

theorem Inside.perm (h : d0.Inside labels j d) {labels' : List Nat} (hperm : labels.Perm labels') :
    d0.Inside labels' j d :=
  ⟨h.toWithin, h.accounted, hperm.nodup_iff.1 h.nodup, fun l hl => h.unbound l (hperm.mem_iff.2 hl),
    fun hclean l hl hlt => (h.bound hclean l hl hlt).imp_right hperm.mem_iff.1⟩

theorem Within.scopes_ne (h : d0.Within j d) (hne : d0.writer.scopes ≠ []) : d.writer.scopes ≠ [] := by
  obtain ⟨own, added, hscopes, -⟩ := h.scopes
  rw [hscopes, ← List.length_pos_iff, List.length_append, length_grow]
  have := List.length_pos_iff.2 hne
  omega

theorem Within.scopes_ne_of_pushed (h : d0.Within (j + 1) d) : d.writer.scopes ≠ [] := by
  obtain ⟨own, added, hscopes, hlen⟩ := h.scopes
  rw [hscopes, ← List.length_pos_iff, List.length_append]
  omega

/-! ### Changes of the current procedure -/

theorem getElem?_modifyProcedure (h : d.Sound) (f : Procedure → Procedure) (i : Nat) :
    (d.modifyProcedure f).procedures[i]? =
      if i = d.current then some (f d.procedure) else d.procedures[i]? := by
  rw [modifyProcedure, Array.getElem?_modify]
  split
  · next heq => rw [if_pos heq.symm, ← heq, h.procedure_eq, Option.map_some]
  · next hne => rw [if_neg (Ne.symm hne)]

theorem procedure_modifyProcedure (h : d.Sound) (f : Procedure → Procedure) :
    (d.modifyProcedure f).procedure = f d.procedure := by
  rw [procedure, Array.getD_eq_getD_getElem?, getElem?_modifyProcedure h, modifyProcedure, if_pos rfl,
    Option.getD_some]

theorem writer_modifyProcedure (h : d.Sound) (f : Procedure → Procedure) :
    (d.modifyProcedure f).writer = (f d.procedure).writer := by
  rw [writer, procedure_modifyProcedure h]

theorem sameElsewhere_modifyProcedure (h : d.Sound) (f : Procedure → Procedure) :
    d.SameElsewhere (d.modifyProcedure f) :=
  ⟨fun i hi => by rw [getElem?_modifyProcedure h, if_neg hi], rfl, rfl⟩

variable {w : CodeWriter} {f : Procedure → Procedure} {scopes : List (List Nat)}

theorem extends_modifyProcedure (h : d.Sound)
    (hf : d.procedure.Advances (f d.procedure)) : d.Extends (d.modifyProcedure f) := by
  have hproc := procedure_modifyProcedure h f
  refine ⟨⟨rfl, fun _ _ => id, fun _ _ => id, fun _ _ => id, fun i p hp => ?_,
    (Grows.refl d).functions, (Grows.refl d).roles, Nat.le_refl _⟩, rfl, rfl, ?_, ?_, ?_, ?_⟩
  · rw [getElem?_modifyProcedure h]
    split
    · next heq =>
      rw [heq, h.procedure_eq, Option.some.injEq] at hp
      subst hp
      exact ⟨_, rfl, hf.numParams, size_le_of_getElem? fun i v hv => ⟨v, hf.locals i v hv⟩,
        hf.maxRegs, hf.code⟩
    · exact ⟨p, hp, rfl, Nat.le_refl _, Nat.le_refl _, Nat.le_refl _⟩
  · rw [hproc]
    exact hf.locals
  · rw [writer_modifyProcedure h]
    exact hf.code
  · rw [writer_modifyProcedure h]
    exact hf.labels
  · rw [writer_modifyProcedure h]
    exact hf.bound

theorem sound_modifyProcedure (h : d.Sound) (hf : d.procedure.Advances (f d.procedure))
    (hp : (f d.procedure).Sound d.catalog.Fits (d.bounds (f d.procedure))) : (d.modifyProcedure f).Sound := by
  have hgrows := (extends_modifyProcedure h hf).toGrows
  refine ⟨?_, fun i p hi => ?_, fun i f hf => ?_, h.services, fun i entry disp he hdisp => ?_⟩
  · exact Nat.lt_of_lt_of_le h.current hgrows.procedures_le
  · rw [getElem?_modifyProcedure h] at hi
    split at hi
    · cases hi
      exact hp.mono (hgrows.bounds_le (Nat.le_refl _) (Nat.le_refl _))
    · exact (h.procedures i p hi).mono (hgrows.bounds_le (Nat.le_refl _) (Nat.le_refl _))
  · obtain ⟨hparams, p, hp, hnum⟩ := h.functions i f hf
    obtain ⟨p', hp', hnum', -⟩ := hgrows.procedures f.procedure p hp
    exact ⟨hparams, p', hp', hnum'.trans hnum⟩
  · exact hgrows.dispatcherSound (h.dispatchers i entry disp he hdisp)

theorem Within.modifyProcedure (h : d0.Within j d) (hf : d.procedure.Advances (f d.procedure))
    (hp : (f d.procedure).Sound d.catalog.Fits (d.bounds (f d.procedure)))
    (hopen : (f d.procedure).writer.offset? retLabel = none) (hoffsets : ∀ l, l < d0.writer.labels.size →
      (f d.procedure).writer.offset? l = d.writer.offset? l)
    (hscopes : ∃ own added, (f d.procedure).writer.scopes = own ++ grow added d0.writer.scopes ∧
      own.length = k) : d0.Within k (d.modifyProcedure f) := by
  have hd := h.ready.sound
  have helse := sameElsewhere_modifyProcedure hd f
  refine ⟨⟨sound_modifyProcedure hd hf hp, ?_⟩, h.size, h.grown.trans (extends_modifyProcedure hd hf),
    fun htop => (h.elsewhere htop).trans helse h.grown.current,
    fun hres => helse.reserved rfl (h.reserved hres), ?_, ?_,
    fun i hi => (helse.scopesOf i (h.grown.current ▸ hi)).trans (h.others i hi)⟩
  · rw [writer_modifyProcedure hd]
    exact hopen
  · rw [writer_modifyProcedure hd]
    exact fun l hl => (hoffsets l hl).trans (h.offsets l hl)
  · rw [writer_modifyProcedure hd]
    exact hscopes

theorem Inside.modifyProcedure (h : d0.Inside labels j d) (hf : d.procedure.Advances (f d.procedure))
    (hp : (f d.procedure).Sound d.catalog.Fits (d.bounds (f d.procedure)))
    (hsize : (f d.procedure).writer.labels.size = d.writer.labels.size)
    (hoffsets : ∀ l, (f d.procedure).writer.offset? l = d.writer.offset? l)
    (hscopes : ∃ own added, (f d.procedure).writer.scopes = own ++ grow added d0.writer.scopes ∧
      own.length = k) : d0.Inside labels k (d.modifyProcedure f) := by
  have hd := h.ready.sound
  refine ⟨h.toWithin.modifyProcedure hf hp ((hoffsets retLabel).trans h.ready.isOpen)
    (fun l _ => hoffsets l) hscopes, fun hclean hacc => ?_, h.nodup, ?_, ?_⟩
  · exact (sameElsewhere_modifyProcedure hd f).accounted rfl (h.accounted hclean hacc)
  · rw [writer_modifyProcedure hd, hsize]
    simpa only [hoffsets] using h.unbound
  · rw [writer_modifyProcedure hd, hsize]
    simp only [hoffsets]
    exact h.bound

/-! ### Registers -/

theorem offset?_congr {w' : CodeWriter} (h : w'.labels = w.labels) (l : Nat) : w'.offset? l = w.offset? l := by
  rw [offset?, offset?, h]

variable {p : Procedure} {items : List Item} {l : Nat}

theorem advances_rescoped
    (hw : Rescoped p.writer w scopes) : p.Advances { p with writer := w } := by
  have hcode : w.code = p.writer.code := by rw [hw.eq]
  have hlabels : w.labels = p.writer.labels := by rw [hw.eq]
  have hmax : w.maxRegs = p.writer.maxRegs := by rw [hw.eq]
  exact ⟨rfl, fun _ _ => id, Nat.le_of_eq hmax.symm, Nat.le_of_eq (congrArg Array.size hcode.symm),
    Nat.le_of_eq (congrArg Array.size hlabels.symm),
    fun l o hl => (offset?_congr hlabels l).trans hl⟩

theorem sound_rescoped {fits : Prop} {b : Bounds} (hp : p.Sound fits b)
    (hw : Rescoped p.writer w scopes) : ({ p with writer := w } : Procedure).Sound fits b := by
  obtain ⟨harity, hregs, hsize, htop, items, hlays, hitems, hends⟩ := hp
  have hcode : w.code = p.writer.code := by rw [hw.eq]
  have hlabels : w.labels = p.writer.labels := by rw [hw.eq]
  refine ⟨harity, hw.registers, ?_, (offset?_congr hlabels _).trans htop, items, hlays.congr hcode hlabels,
    hitems, ?_⟩
  · exact hlabels ▸ hsize
  · simpa only [offset?_congr hlabels] using hends

theorem Sound.extends_rescoped (h : d.Sound) (hw : Rescoped d.writer w scopes) : d.Extends (d.setWriter w) :=
  extends_modifyProcedure h (advances_rescoped hw)

theorem Inside.rescoped (h : d0.Inside labels j d) (hw : Rescoped d.writer w scopes)
    (hscopes : ∃ own added, scopes = own ++ grow added d0.writer.scopes ∧ own.length = k) :
    d0.Inside labels k (d.setWriter w) := by
  have hlabels : w.labels = d.writer.labels := by rw [hw.eq]
  have hmax : w.maxRegs = d.writer.maxRegs := by rw [hw.eq]
  refine h.modifyProcedure (advances_rescoped hw) ?_ (congrArg Array.size hlabels)
    (offset?_congr hlabels) (hw.scopes_eq ▸ hscopes)
  refine (sound_rescoped h.ready.sound.procedure hw).mono ?_
  exact (Grows.refl d).bounds_le (Nat.le_refl _) (Nat.le_of_eq hmax.symm)

theorem Within.grown_scopes (h : d0.Within j d) (added : List Nat) :
    ∃ own added', grow added d.writer.scopes = own ++ grow added' d0.writer.scopes ∧ own.length = j := by
  obtain ⟨own, added', hscopes, hlen⟩ := h.scopes
  rw [hscopes]
  cases own with
  | nil => exact ⟨[], added' ++ added, grow_grow .., hlen⟩
  | cons scope own => exact ⟨(scope ++ added) :: own, added', rfl, hlen⟩

theorem Ready.registers (h : d.Ready) : d.writer.Registers := h.sound.procedure.registers

/-! ### Instructions -/

/-- Code, and the registers to save, are all that is not as in `w`. -/
def Recoded (w w' : CodeWriter) (m : Nat) : Prop := w' = { w with code := w'.code, maxRegs := m }

theorem advances_code {m : Nat} (hm : p.writer.maxRegs ≤ m) (hw : Recoded p.writer w m)
    (hcode : p.writer.code.size ≤ w.code.size) : p.Advances { p with writer := w } := by
  have hlabels : w.labels = p.writer.labels := by rw [hw]
  have hmax : w.maxRegs = m := by rw [hw]
  exact ⟨rfl, fun _ _ => id, hmax ▸ hm, hcode, Nat.le_of_eq (congrArg Array.size hlabels.symm),
    fun l o hl => (offset?_congr hlabels l).trans hl⟩

theorem Inside.emitted (h : d0.Inside labels j d) {i : Instr}
    {m : Nat} (hm : d.writer.maxRegs ≤ m) (hw : Recoded d.writer w m)
    (hitems : ∀ i, .instr i ∈ items → i.Sound d.catalog.Fits (d.bounds d.procedure))
    (hlays : d.writer.Lays items) (hlays' : w.Lays (items ++ [.instr i]))
    (hi : i.Sound d.catalog.Fits ((d.bounds d.procedure).saving m)) :
    d0.Inside labels j (d.setWriter w) ∧ d.Extends (d.setWriter w) ∧
      d.writer.location < (d.setWriter w).writer.location := by
  have hd := h.ready.sound
  have hlabels : w.labels = d.writer.labels := by rw [hw]
  have hmax : w.maxRegs = m := by rw [hw]
  have hlt : d.writer.location < w.location := by
    rw [hlays.location_eq, hlays'.location_eq, Item.extent_append, Item.extent_cons, Item.length,
      Instr.words, List.length_append, List.length_singleton]
    omega
  have hadv := advances_code hm hw (Nat.le_of_lt hlt)
  refine ⟨h.modifyProcedure hadv ?_ (congrArg Array.size hlabels) (offset?_congr hlabels) ?_,
    extends_modifyProcedure hd hadv, ?_⟩
  · have hp := hd.procedure
    have hscopes : w.scopes = d.writer.scopes := by rw [hw]
    have hallocated : w.allocated = d.writer.allocated := by rw [hw]
    have hle : (d.bounds d.procedure).Le (d.bounds { d.procedure with writer := w }) :=
      (Grows.refl d).bounds_le (Nat.le_refl _) (hmax ▸ hm)
    refine ⟨hp.arity, ⟨hscopes ▸ hp.registers.nodup, ?_, hscopes ▸ hp.registers.small⟩, hlabels ▸ hp.size,
      (offset?_congr hlabels _).trans hp.top, items ++ [.instr i], hlays', ?_, ?_⟩
    · rw [hallocated, hscopes]
      exact hp.registers.allocated
    · intro other hmem
      rcases List.mem_append.1 hmem with hmem | hmem
      · exact (hitems other hmem).mono hle
      · cases List.mem_singleton.1 hmem
        rw [← hmax] at hi
        exact hi
    · intro hret
      exact absurd ((offset?_congr hlabels retLabel).trans h.ready.isOpen) hret
  · have hscopes : w.scopes = d.writer.scopes := by rw [hw]
    exact hscopes ▸ h.scopes
  · rw [setWriter, writer_modifyProcedure hd]
    exact hlt

/-! ### Labels -/

theorem offset?_newLabel (w : CodeWriter) (name : String) (l : Nat) :
    CodeWriter.offset? { w with labels := w.labels.push { name } } l = w.offset? l := by
  rw [offset?, offset?, Array.getElem?_push]
  split
  · next heq =>
    subst heq
    rw [Array.getElem?_eq_none (Nat.le_refl _)]
    rfl
  · rfl

theorem offset?_bindLabel (w : CodeWriter) (hl : l < w.labels.size) (o m : Nat) :
    CodeWriter.offset? { w with labels := w.labels.modify l ({ · with offset := some o }) } m =
      if m = l then some o else w.offset? m := by
  rw [offset?, Array.getElem?_modify]
  split
  · simp_all
  · next hne => rw [if_neg (Ne.symm hne), offset?]

theorem offset?_emitJump (w : CodeWriter) (code : Array Word) (l m : Nat) (uses : List Nat) :
    CodeWriter.offset? { w with
        code := code
        labels := w.labels.modify l fun label => { label with uses := label.uses ++ uses } } m =
      w.offset? m := by
  rw [offset?, offset?, Array.getElem?_modify]
  grind

/-- A step that writes into the current procedure and leaves its registers alone. -/
structure Wrote (d0 d : Draft) (w : CodeWriter) : Prop where
  scopes : w.scopes = d.writer.scopes
  allocated : w.allocated = d.writer.allocated
  maxRegs : w.maxRegs = d.writer.maxRegs
  code : d.writer.code.size ≤ w.code.size
  labels : d.writer.labels.size ≤ w.labels.size
  bound : ∀ l o, d.writer.offset? l = some o → w.offset? l = some o
  isOpen : w.offset? retLabel = none
  kept : ∀ l, l < d0.writer.labels.size → w.offset? l = d.writer.offset? l
  rows : ∃ items, w.Lays items ∧
    ∀ i, .instr i ∈ items → i.Sound d.catalog.Fits (d.bounds d.procedure)

theorem Wrote.extends (hd : d.Sound) (hw : d0.Wrote d w) : d.Extends (d.setWriter w) :=
  extends_modifyProcedure hd ⟨rfl, fun _ _ => id, Nat.le_of_eq hw.maxRegs.symm, hw.code, hw.labels, hw.bound⟩

theorem Within.wrote (h : d0.Within j d) (hw : d0.Wrote d w) : d0.Within j (d.setWriter w) := by
  have hp := h.ready.sound.procedure
  obtain ⟨items, hlays, hitems⟩ := hw.rows
  refine h.modifyProcedure
    ⟨rfl, fun _ _ => id, Nat.le_of_eq hw.maxRegs.symm, hw.code, hw.labels, hw.bound⟩ ?_ hw.isOpen
    hw.kept (hw.scopes ▸ h.scopes)
  refine ⟨hp.arity, ⟨hw.scopes ▸ hp.registers.nodup, ?_, hw.scopes ▸ hp.registers.small⟩,
    Nat.le_trans hp.size hw.labels, hw.bound _ _ hp.top, items, hlays, fun i hi => (hitems i hi).mono ?_,
    fun hret => absurd hw.isOpen hret⟩
  · rw [hw.scopes, hw.allocated]
    exact hp.registers.allocated
  · exact (Grows.refl d).bounds_le (Nat.le_refl _) (Nat.le_of_eq hw.maxRegs.symm)

theorem Inside.wrote (h : d0.Inside labels j d) (hw : d0.Wrote d w) (hsize : w.labels.size = d.writer.labels.size)
    (hoffsets : ∀ l, w.offset? l = d.writer.offset? l) :
    d0.Inside labels j (d.setWriter w) ∧ d.Extends (d.setWriter w) := by
  have hd := h.ready.sound
  have hwriter : (d.setWriter w).writer = w := writer_modifyProcedure hd _
  refine ⟨⟨h.toWithin.wrote hw, fun hclean hacc => ?_, h.nodup, ?_, ?_⟩, hw.extends hd⟩
  · exact (sameElsewhere_modifyProcedure hd _).accounted rfl (h.accounted hclean hacc)
  · rw [hwriter, hsize]
    simpa only [hoffsets] using h.unbound
  · rw [hwriter, hsize]
    simp only [hoffsets]
    exact h.bound

theorem Inside.newLabel (h : d0.Inside labels j d) {name : String}
    (hw : w = { d.writer with labels := d.writer.labels.push { name } }) (hlays : w.Lays items)
    (hitems : ∀ i, .instr i ∈ items → i.Sound d.catalog.Fits (d.bounds d.procedure)) :
    d0.Inside (d.writer.labels.size :: labels) j (d.setWriter w) ∧ d.Extends (d.setWriter w) := by
  have hd := h.ready.sound
  have hoffsets : ∀ l, w.offset? l = d.writer.offset? l := fun l => by rw [hw, offset?_newLabel]
  have hsize : w.labels.size = d.writer.labels.size + 1 := by rw [hw, Array.size_push]
  have hwrote : d0.Wrote d w := by
    refine ⟨by rw [hw], by rw [hw], by rw [hw], Nat.le_of_eq (by rw [hw]), ?_,
      fun l o hl => (hoffsets l).trans hl, (hoffsets _).trans h.ready.isOpen, fun l _ => hoffsets l,
      items, hlays, hitems⟩
    omega
  have hwriter : (d.setWriter w).writer = w := writer_modifyProcedure hd _
  refine ⟨⟨h.toWithin.wrote hwrote, fun hclean hacc => ?_, ?_, ?_, ?_⟩, hwrote.extends hd⟩
  · exact (sameElsewhere_modifyProcedure hd _).accounted rfl (h.accounted hclean hacc)
  · exact List.nodup_cons.2 ⟨fun hmem => absurd (h.unbound _ hmem).2.1 (Nat.lt_irrefl _), h.nodup⟩
  · rw [hwriter, hsize]
    intro l hl
    rcases List.mem_cons.1 hl with rfl | hl
    · refine ⟨h.grown.labels, Nat.lt_succ_self _, (hoffsets _).trans ?_⟩
      rw [offset?, Array.getElem?_eq_none (Nat.le_refl _)]
      rfl
    · obtain ⟨hge, hlt, hnone⟩ := h.unbound l hl
      exact ⟨hge, Nat.lt_succ_of_lt hlt, (hoffsets l).trans hnone⟩
  · rw [hwriter, hsize]
    intro hclean l hge hlt
    rw [hoffsets]
    by_cases heq : l = d.writer.labels.size
    · exact .inr (by simp [heq])
    · exact (h.bound hclean l hge (by omega)).imp_right (List.mem_cons_of_mem _)

theorem Inside.bindLabel (h : d0.Inside (l :: labels) j d) (hw : w = { d.writer with
      labels := d.writer.labels.modify l ({ · with offset := some d.writer.location }) }) (hlays : w.Lays items)
    (hitems : ∀ i, .instr i ∈ items → i.Sound d.catalog.Fits (d.bounds d.procedure)) :
    d0.Inside labels j (d.setWriter w) ∧ d.Extends (d.setWriter w) ∧
      (d.setWriter w).writer.offset? l = some (d.setWriter w).writer.location := by
  have hd := h.ready.sound
  obtain ⟨hge, hlt, hnone⟩ := h.unbound l (by simp)
  obtain ⟨hnotin, hnodup⟩ := List.nodup_cons.1 h.nodup
  have hoffsets : ∀ m, w.offset? m = if m = l then some d.writer.location else d.writer.offset? m :=
    fun m => by rw [hw, offset?_bindLabel d.writer hlt]
  have hsize : w.labels.size = d.writer.labels.size := by rw [hw, Array.size_modify]
  have hret : retLabel ≠ l := by
    have hroom := h.size
    rw [retLabel]
    omega
  have hwrote : d0.Wrote d w := by
    refine ⟨by rw [hw], by rw [hw], by rw [hw], Nat.le_of_eq (by rw [hw]),
      Nat.le_of_eq hsize.symm, fun m o hm => ?_, ?_, fun m hm => ?_, items, hlays, hitems⟩
    · grind
    · rw [hoffsets, if_neg hret, h.ready.isOpen]
    · grind
  have hwriter : (d.setWriter w).writer = w := writer_modifyProcedure hd _
  refine ⟨⟨h.toWithin.wrote hwrote, fun hclean hacc => ?_, hnodup, ?_, ?_⟩, hwrote.extends hd, ?_⟩
  · exact (sameElsewhere_modifyProcedure hd _).accounted rfl (h.accounted hclean hacc)
  · rw [hwriter, hsize]
    intro m hm
    obtain ⟨hge', hlt', hnone'⟩ := h.unbound m (by simp [hm])
    grind
  · rw [hwriter, hsize]
    intro hclean m hge' hlt'
    rw [hoffsets]
    by_cases heq : m = l
    · exact .inl (by simp [heq])
    · rw [if_neg heq]
      refine (h.bound hclean m hge' hlt').imp_right fun hm => ?_
      exact (List.mem_cons.1 hm).resolve_left heq
  · rw [hwriter, hoffsets, if_pos rfl, hw]
    rfl

theorem Inside.jumped (h : d0.Inside labels j d) {ifZero : Option Nat} (hw : w = { d.writer with
      code := w.code
      labels := d.writer.labels.modify l fun label =>
        { label with uses := label.uses ++ [d.writer.location] } }) (hlays : d.writer.Lays items) (hlays' : w.Lays (items ++ [.jump l ifZero]))
    (hitems : ∀ i, .instr i ∈ items → i.Sound d.catalog.Fits (d.bounds d.procedure)) :
    d0.Inside labels j (d.setWriter w) ∧ d.Extends (d.setWriter w) := by
  have hd := h.ready.sound
  have hoffsets : ∀ m, w.offset? m = d.writer.offset? m := fun m => by rw [hw, offset?_emitJump]
  have hsize : w.labels.size = d.writer.labels.size := by rw [hw, Array.size_modify]
  have hcode : d.writer.code.size ≤ w.code.size := by
    have hlocation := hlays'.location_eq
    rw [Item.extent_append, ← hlays.location_eq] at hlocation
    rw [location, location] at hlocation
    omega
  have hwrote : d0.Wrote d w := by
    refine ⟨by rw [hw], by rw [hw], by rw [hw], hcode, Nat.le_of_eq hsize.symm,
      fun m o hm => (hoffsets m).trans hm, (hoffsets _).trans h.ready.isOpen, fun m _ => hoffsets m,
      _, hlays', fun i hi => ?_⟩
    grind
  exact h.wrote hwrote hsize hoffsets

theorem exists_label (hl : l < w.labels.size) :
    ∃ label, w.labels[l]? = some label ∧ label.offset = w.offset? l := by
  refine ⟨w.labels[l], Array.getElem?_eq_getElem hl, ?_⟩
  rw [offset?, Array.getElem?_eq_getElem hl]
  rfl

/-! ### Tables -/

theorem Grows.extends (h : d.Grows d') (hcurrent : d'.current = d.current) (htop : d'.topLevel = d.topLevel)
    (hproc : d'.procedure = d.procedure) : d.Extends d' := by
  have hwriter : d'.writer = d.writer := by rw [writer, hproc, writer]
  refine ⟨h, hcurrent, htop, ?_, ?_, ?_, ?_⟩
  · rw [hproc]
    exact fun _ _ => id
  · exact Nat.le_of_eq (by rw [hwriter])
  · exact Nat.le_of_eq (by rw [hwriter])
  · rw [hwriter]
    exact fun _ _ => id

section

variable (hsound : d'.Sound) (hext : d.Extends d') (hwriter : d'.writer = d.writer)
  (helse : d0.atTopLevel = false → d.SameElsewhere d') (hres : d.Reserved → d'.Reserved)
  (hothers : ∀ i, i ≠ d.current → d'.scopesOf i = d.scopesOf i)

include hsound hext hwriter helse hres hothers

theorem Within.around (h : d0.Within j d) : d0.Within j d' :=
  ⟨⟨hsound, hwriter ▸ h.ready.isOpen⟩, h.size, h.grown.trans hext,
    fun htop => (h.elsewhere htop).trans (helse htop) h.grown.current, fun hres0 => hres (h.reserved hres0),
    hwriter ▸ h.offsets, hwriter ▸ h.scopes,
    fun i hi => (hothers i (h.grown.current ▸ hi)).trans (h.others i hi)⟩

theorem Inside.around (h : d0.Inside labels j d) (hacc : d'.findings.count = 0 → d.Accounted → d'.Accounted) :
    d0.Inside labels j d' :=
  ⟨h.toWithin.around hsound hext hwriter helse hres hothers,
    fun hclean hacc0 => hacc hclean (h.accounted (hext.clean hclean) hacc0), h.nodup,
    hwriter ▸ h.unbound, fun hclean => hwriter ▸ h.bound (hext.clean hclean)⟩

end

theorem Inside.tabled (h : d0.Inside labels j d) {floats : Array Number} {strings : Array String} {globals : Variables}
    (hgrows : d.Grows { d with floats, strings, globals }) : d0.Inside labels j { d with floats, strings, globals } := by
  have hd := h.ready.sound
  have helse : d.SameElsewhere { d with floats, strings, globals } := ⟨fun _ _ => rfl, rfl, rfl⟩
  refine h.around ⟨hd.current, fun i p hp => ?_, hd.functions, hd.services, fun i entry disp he hdisp => ?_⟩
    (hgrows.extends rfl rfl rfl) rfl (fun _ => helse) (helse.reserved rfl) helse.scopesOf
    fun _ => helse.accounted rfl
  · exact (hd.procedures i p hp).mono (hgrows.bounds_le (Nat.le_refl _) (Nat.le_refl _))
  · exact hgrows.dispatcherSound (hd.dispatchers i entry disp he hdisp)

theorem getElem?_push_of_some {α : Type} {xs : Array α} {i : Nat} {x : α} (y : α)
    (h : xs[i]? = some x) : (xs.push y)[i]? = some x := by grind

theorem grows_floats (d : Draft) (x : Number) : d.Grows { d with floats := d.floats.push x } :=
  { Grows.refl d with floats := fun _ _ => getElem?_push_of_some x }

theorem grows_strings (d : Draft) (s : String) : d.Grows { d with strings := d.strings.push s } :=
  { Grows.refl d with strings := fun _ _ => getElem?_push_of_some s }

theorem grows_globals (d : Draft) (name : String) :
    d.Grows { d with globals := d.globals.add name } :=
  { Grows.refl d with globals := fun _ _ => getElem?_push_of_some _ }

end Draft

namespace Lowering

open Draft

variable {α β : Type} {P : Prop} {d0 d d' : Draft} {labels labels' : List Nat} {j k : Nat}
  {Q : α → Draft → Prop}

/-- How a construct that began in `d0` may stop: at a problem, with scopes left behind, or at a defect,
which `P` and a fitting catalog allow only in a draft that does not fit. -/
def Stops (P : Prop) (d0 : Draft) : Stop → Draft → Prop
  | .reject _, d => ∃ k, d0.Within k d
  | .abort defect, d => defect.IsLimit d0.catalog.Fits ∧ (P → d0.catalog.Fits → ¬ d.Fits)

/-- How far a construct that began in `d0` has come when a part of it is done. -/
def Run (P : Prop) (d0 : Draft) (labels : List Nat) (j : Nat) (Q : α → Draft → Prop) :
    EStateM.Result Stop Draft α → Prop :=
  Outcome (fun a d => d0.Inside labels j d ∧ Q a d) (Stops P d0)

def Runs (P : Prop) (d : Draft) (Q : α → Draft → Prop) (x : Lowering α) : Prop := Run P d [] 0 Q (x d)

abbrev Passes (P : Prop) (d : Draft) (x : Lowering α) : Prop := Run P d [] 0 (fun _ _ => True) (x d)

theorem Stops.trans (h : d0.Within j d) {stop : Stop} (hstop : Stops P d stop d') :
    Stops P d0 stop d' := by
  cases stop with
  | reject p =>
    obtain ⟨k, hk⟩ := hstop
    exact ⟨k + j, h.trans hk⟩
  | abort defect => rwa [Stops, h.grown.catalog] at hstop

theorem exists_of_bind_ok {x : Lowering α} {f : α → Lowering β} {b : β} (h : (x >>= f) d = .ok b d') :
    ∃ a d1, x d = .ok a d1 ∧ f a d1 = .ok b d' := by
  simp only [bind, EStateM.bind] at h
  grind

theorem eq_of_located {span : Span} {act : Lowering α} {a : α} (h : located span act d = .ok a d') :
    act d = .ok a d' := by
  rw [located] at h
  split at h
  · cases h
    assumption
  · cases h

namespace Run

theorem mono {Q' : α → Draft → Prop} {r : EStateM.Result Stop Draft α} (h : Run P d0 labels j Q r)
    (hq : ∀ a d, d0.Inside labels j d → Q a d → Q' a d) : Run P d0 labels j Q' r :=
  Outcome.imp h fun a d hd => ⟨hd.1, hq a d hd.1 hd.2⟩

theorem pure (h : d0.Inside labels j d) {a : α} (hq : Q a d) :
    Run P d0 labels j Q ((Pure.pure a : Lowering α) d) :=
  ⟨h, hq⟩

theorem reject (h : d0.Within j d) {p : Diagnostic} :
    Run P d0 labels k Q ((throw (.reject p) : Lowering α) d) :=
  ⟨j, h⟩

variable {Q' : β → Draft → Prop} {f : Unit → Lowering β} {x : Lowering α}

theorem bind {f : α → Lowering β} (h : d0.Inside labels j d) (hx : Run P d [] 0 Q (x d))
    (hf : ∀ a d', d0.Inside labels j d' → d.Inside [] 0 d' → Q a d' → Run P d0 labels' k Q' (f a d')) :
    Run P d0 labels' k Q' ((x >>= f) d) :=
  Outcome.bind hx (fun a d' hd' => hf a d' (h.trans hd'.1) hd'.1 hd'.2)
    fun _ _ => Stops.trans h.toWithin

theorem within (h : d0.Inside labels j d) (hx : Run P d [] 0 Q (x d)) : Run P d0 labels j Q (x d) :=
  Outcome.mono hx (fun _ _ hd' => ⟨h.trans hd'.1, hd'.2⟩) fun _ _ => Stops.trans h.toWithin

theorem located {span : Span} {act : Lowering α} (h : Run P d0 labels j Q (act d)) :
    Run P d0 labels j Q (Lowering.located span act d) := by
  rw [Lowering.located]
  revert h
  cases act d with
  | ok a d' => exact id
  | error stop d' =>
    cases stop with
    | reject | abort => exact id

theorem look {f : α → Lowering β} {Q : α → Prop} (h : d0.Within j d)
    (hx : Outcome (fun a d' => d' = d ∧ Q a) (fun stop d' => d' = d ∧ ∃ p, stop = .reject p) (x d))
    (hf : ∀ a, Q a → Run P d0 labels k Q' (f a d)) : Run P d0 labels k Q' ((x >>= f) d) := by
  refine Outcome.bind hx ?_ ?_
  · rintro a d' ⟨rfl, ha⟩
    exact hf a ha
  · rintro stop d' ⟨rfl, p, rfl⟩
    exact ⟨j, h⟩

/-! ### Writing -/

theorem write_bind {act : Writing α} {f : α → Lowering β} {Q : α → CodeWriter → Prop}
    {E : Stop → CodeWriter → Prop} (hact : Outcome Q E (act d.writer))
    (hf : ∀ a w, Q a w → Run P d0 labels k Q' (f a (d.setWriter w)))
    (he : ∀ stop w, E stop w → Stops P d0 stop (d.setWriter w)) : Run P d0 labels k Q' ((write act >>= f) d) := by
  rw [Run, Outcome.bind_iff, write]
  revert hact
  cases act d.writer with
  | ok a w => exact hf a w
  | error stop w => exact he stop w

theorem push_outcome (h : d0.Inside labels j d) :
    Outcome (fun _ d' => d0.Inside labels (j + 1) d' ∧ d.Extends d' ∧ d'.writer.scopes = [] :: d.writer.scopes)
      (fun _ _ => False) (write push d) := by
  have hpush := h.ready.registers.push
  obtain ⟨own, added, hscopes, hlen⟩ := h.scopes
  refine ⟨h.rescoped hpush ⟨[] :: own, added, ?_, ?_⟩, h.ready.sound.extends_rescoped hpush, ?_⟩
  · rw [hscopes, List.cons_append]
  · rw [List.length_cons, hlen]
  · rw [setWriter, writer_modifyProcedure h.ready.sound]

theorem push_bind (h : d0.Inside labels j d)
    (hf : ∀ d', d0.Inside labels (j + 1) d' → d.Extends d' → Run P d0 labels' k Q' (f () d')) :
    Run P d0 labels' k Q' ((write push >>= f) d) :=
  Outcome.bind (push_outcome h) (fun _ d' hd' => hf d' hd'.1 hd'.2.1) fun _ _ => False.elim

theorem inside_pop_outcome (h : d0.Inside labels (j + 1) d) :
    Outcome (fun _ d' => d0.Inside labels j d' ∧ d.Extends d' ∧ d'.writer.scopes = d.writer.scopes.tail)
      (fun _ _ => False) (write pop d) := by
  obtain ⟨own, added, hscopes, hlen⟩ := h.scopes
  obtain ⟨scope, own, rfl⟩ := List.exists_cons_of_length_eq_add_one hlen
  rw [List.cons_append] at hscopes
  have hpop := h.ready.registers.pop hscopes
  rw [write]
  revert hpop
  change Outcome _ _ (pop d.writer) → _
  cases pop d.writer with
  | error stop w => exact id
  | ok a w =>
    intro hw
    refine ⟨h.rescoped hw ⟨own, added, rfl, Nat.succ.inj hlen⟩, h.ready.sound.extends_rescoped hw, ?_⟩
    rw [setWriter, writer_modifyProcedure h.ready.sound, hscopes]
    exact hw.scopes_eq

theorem pop_bind (h : d0.Inside labels (j + 1) d)
    (hf : ∀ d', d0.Inside labels j d' → d.Extends d' → Run P d0 labels' k Q' (f () d')) :
    Run P d0 labels' k Q' ((write pop >>= f) d) :=
  Outcome.bind (inside_pop_outcome h) (fun _ d' hd' => hf d' hd'.1 hd'.2.1) fun _ _ => False.elim

theorem popExcept_bind {keep : Nat} (h : d0.Inside labels (j + 1) d) (hne : d0.writer.scopes ≠ [])
    (hf : ∀ d', d0.Inside labels j d' → d.Extends d' → Run P d0 labels' k Q' (f () d')) :
    Run P d0 labels' k Q' ((write (popExcept (some keep)) >>= f) d) := by
  obtain ⟨own, added, hscopes, hlen⟩ := h.scopes
  obtain ⟨scope, own, rfl⟩ := List.exists_cons_of_length_eq_add_one hlen
  rw [List.cons_append] at hscopes
  have hrest : own ++ grow added d0.writer.scopes ≠ [] := by
    rw [← List.length_pos_iff, List.length_append, length_grow]
    have := List.length_pos_iff.2 hne
    omega
  refine write_bind (h.ready.registers.popExcept hscopes fun _ => hrest) ?_ nofun
  intro _ w hw
  refine hf _ (h.rescoped hw ?_) (h.ready.sound.extends_rescoped hw)
  cases own with
  | nil => exact ⟨[], added ++ kept (some keep) scope, grow_grow .., Nat.succ.inj hlen⟩
  | cons outer own => exact ⟨(outer ++ kept (some keep) scope) :: own, added, rfl, Nat.succ.inj hlen⟩

section

variable (h : d0.Inside labels j d)

include h

theorem alloc_stops {stop : Stop} {w : CodeWriter}
    (hw : w = d.writer ∧ ∃ p, stop = .reject p) : Stops P d0 stop (d.setWriter w) := by
  obtain ⟨rfl, p, rfl⟩ := hw
  have hself : Rescoped d.writer d.writer d.writer.scopes := ⟨rfl, h.ready.registers⟩
  exact ⟨j, (h.rescoped hself h.scopes).toWithin⟩

theorem allocReg_bind {f : Nat → Lowering β} (hne : d.writer.scopes ≠ [])
    (hf : ∀ r d', d0.Inside labels j d' → d.Extends d' → r < 16 → Run P d0 labels' k Q' (f r d')) :
    Run P d0 labels' k Q' ((write allocReg >>= f) d) := by
  refine write_bind (h.ready.registers.allocReg hne) ?_ fun stop w hw => alloc_stops h hw
  rintro r w ⟨hw, hr, -⟩
  exact hf r _ (h.rescoped hw (h.grown_scopes [r])) (h.ready.sound.extends_rescoped hw) hr

theorem allocBuffer_bind (hne : d.writer.scopes ≠ [])
    (hf : ∀ d', d0.Inside labels j d' → d.Extends d' → Run P d0 labels' k Q' (f () d')) :
    Run P d0 labels' k Q' ((write allocBuffer >>= f) d) := by
  refine write_bind (h.ready.registers.allocBuffer hne) ?_ fun stop w hw => alloc_stops h hw
  intro _ w hw
  exact hf _ (h.rescoped hw (h.grown_scopes _)) (h.ready.sound.extends_rescoped hw)

theorem allocArgs_bind {count : Nat} {f : List Nat → Lowering β}
    (hne : d.writer.scopes ≠ []) (hcount : P → count ≤ 32)
    (hf : ∀ d', d0.Inside labels j d' → d.Extends d' → (∀ r ∈ List.range (count % 256), r < 32) →
      Run P d0 labels' k Q' (f (List.range (count % 256)) d')) :
    Run P d0 labels' k Q' ((write (allocArgs count) >>= f) d) := by
  refine write_bind (h.ready.registers.allocArgs hne count) ?_ ?_
  · rintro regs w ⟨rfl, hw, hsmall⟩
    exact hf _ (h.rescoped hw (h.grown_scopes _)) (h.ready.sound.extends_rescoped hw) hsmall
  · rintro stop w ⟨⟨regs, hw⟩, ⟨p, rfl⟩ | ⟨rfl, hlarge⟩⟩
    · exact ⟨j, (h.rescoped hw (h.grown_scopes _)).toWithin⟩
    · exact ⟨trivial, fun hp => absurd (hcount hp) (Nat.not_le_of_lt hlarge)⟩

/-! ### Instructions -/

theorem emits_bind {act : Writing Unit} {i : Instr} {m : Nat}
    (hact : act d.writer = emit i (d.writer.saving m)) (hm : d.writer.maxRegs ≤ m)
    (hi : i.Encodable → i.Sound d.catalog.Fits ((d.bounds d.procedure).saving m))
    (hfit : P → d.catalog.Fits → d.Fits → i.Encodable)
    (hf : ∀ d', d0.Inside labels j d' → d.Extends d' → d.writer.location < d'.writer.location →
      Run P d0 labels' k Q' (f () d')) : Run P d0 labels' k Q' ((write act >>= f) d) := by
  have hd := h.ready.sound
  obtain ⟨items, hlays, hitems, -⟩ := hd.procedure.rows
  have hlays1 : (d.writer.saving m).Lays items := hlays.congr rfl rfl
  have hout := emit_outcome hlays1 i
  rw [← hact] at hout
  refine write_bind hout ?_ ?_
  · rintro _ w ⟨henc, hlays', hw⟩
    obtain ⟨hinside, hext, hlt⟩ := h.emitted hm hw hitems hlays hlays' (hi henc)
    exact hf _ hinside hext hlt
  · rintro stop w ⟨hnot, ⟨defect, rfl, hlimit⟩, hw, hcode⟩
    refine ⟨hlimit _, fun hp hfits hdfits => ?_⟩
    have hadv := advances_code hm hw hcode
    exact hnot (hfit hp (h.grown.catalog ▸ hfits) ((extends_modifyProcedure hd hadv).fits hdfits))

theorem emit_bind {i : Instr} (hi : i.Encodable → i.Sound d.catalog.Fits (d.bounds d.procedure))
    (hfit : P → d.catalog.Fits → d.Fits → i.Encodable)
    (hf : ∀ d', d0.Inside labels j d' → d.Extends d' → d.writer.location < d'.writer.location →
      Run P d0 labels' k Q' (f () d')) : Run P d0 labels' k Q' ((write (emit i) >>= f) d) :=
  emits_bind h rfl (Nat.le_refl _) hi hfit hf

/-! ### Labels -/

theorem newLabel_bind {name : String} {f : Nat → Lowering β}
    (hf : ∀ l d', d0.Inside (l :: labels) j d' → d.Extends d' → Run P d0 labels' k Q' (f l d')) :
    Run P d0 labels' k Q' ((write (newLabel name) >>= f) d) := by
  obtain ⟨items, hlays, hitems, -⟩ := h.ready.sound.procedure.rows
  refine write_bind (newLabel_outcome hlays name) ?_ nofun
  rintro l w ⟨rfl, hlays', hw⟩
  obtain ⟨hinside, hext⟩ := h.newLabel hw hlays' hitems
  exact hf _ _ hinside hext

end

variable {l : Nat}

theorem bindLabel_bind (h : d0.Inside (l :: labels) j d)
    (hf : ∀ d', d0.Inside labels j d' → d.Extends d' →
      d'.writer.offset? l = some d'.writer.location → Run P d0 labels' k Q' (f () d')) :
    Run P d0 labels' k Q' ((write (bindLabel l) >>= f) d) := by
  obtain ⟨-, hlt, hnone⟩ := h.unbound l (by simp)
  obtain ⟨label, hlabel, hoffset⟩ := exists_label hlt
  have hopen := hoffset.trans hnone
  obtain ⟨items, hlays, hitems, -⟩ := h.ready.sound.procedure.rows
  refine write_bind (bindLabel_outcome hlays hlabel hopen) ?_ nofun
  rintro _ w ⟨hlays', hw⟩
  obtain ⟨hinside, hext, hoffset⟩ := h.bindLabel hw hlays' hitems
  exact hf _ hinside hext hoffset

theorem emitJump_bind {ifZero : Option Nat} (h : d0.Inside labels j d) (hl : l < d.writer.labels.size)
    (hapart : d.writer.offset? l ≠ some d.writer.location) (hcond : ∀ r, ifZero = some r → r < 16)
    (hf : ∀ d', d0.Inside labels j d' → d.Extends d' → Run P d0 labels' k Q' (f () d')) :
    Run P d0 labels' k Q' ((write (emitJump l ifZero) >>= f) d) := by
  obtain ⟨label, hlabel, hoffset⟩ := exists_label hl
  obtain ⟨items, hlays, hitems, -⟩ := h.ready.sound.procedure.rows
  refine write_bind (emitJump_outcome hlays hlabel (hoffset ▸ hapart) hcond) ?_ nofun
  rintro _ w ⟨hlays', hw⟩
  obtain ⟨hinside, hext⟩ := h.jumped hw hlays hlays' hitems
  exact hf _ hinside hext

theorem forward_bind {ifZero : Option Nat}
    (h : d0.Inside labels j d) (hl : l ∈ labels) (hcond : ∀ r, ifZero = some r → r < 16)
    (hf : ∀ d', d0.Inside labels j d' → d.Extends d' → Run P d0 labels' k Q' (f () d')) :
    Run P d0 labels' k Q' ((write (emitJump l ifZero) >>= f) d) := by
  obtain ⟨-, hlt, hnone⟩ := h.unbound l hl
  exact emitJump_bind h hlt (by rw [hnone]; exact nofun) hcond hf

/-! ### Plain steps -/

theorem tail (h : Run P d0 labels j Q ((x >>= Pure.pure) d)) : Run P d0 labels j Q (x d) := by
  rwa [bind_pure] at h

theorem get_bind {f : Draft → Lowering β}
    (h : Run P d0 labels k Q' (f d d)) : Run P d0 labels k Q' (((get : Lowering Draft) >>= f) d) :=
  h

theorem reject_bind {p : Diagnostic} {f : α → Lowering β}
    (h : d0.Within j d) : Run P d0 labels k Q' (((throw (.reject p) : Lowering α) >>= f) d) :=
  ⟨j, h⟩

theorem abort_bind {defect : Defect} {f : α → Lowering β}
    (hlimit : defect.IsLimit d0.catalog.Fits) (h : P → d0.catalog.Fits → ¬ d.Fits) :
    Run P d0 labels k Q' (((throw (.abort defect) : Lowering α) >>= f) d) :=
  ⟨hlimit, h⟩

theorem emit_run {i : Instr} (h : d0.Inside labels j d)
    (hi : i.Encodable → i.Sound d.catalog.Fits (d.bounds d.procedure))
    (hfit : P → d.catalog.Fits → d.Fits → i.Encodable) :
    Run P d0 labels j (fun _ _ => True) (write (emit i) d) :=
  tail (emit_bind h hi hfit fun _ hd' _ _ => Run.pure hd' trivial)

end Run

end Lowering

end BusScript
