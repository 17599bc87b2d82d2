import BusScript.Proofs.LoweredOperands

namespace BusScript

open CodeWriter

namespace Draft

variable {d0 d d' d'' : Draft} {labels : List Nat} {j k : Nat}

/-! ### Scopes put back -/

/-- Some of the innermost scopes are gone; nothing else has changed. -/
structure Shed (d : Draft) (scopes : List (List Nat)) (d' : Draft) : Prop where
  sound : d'.Sound
  grown : d.Extends d'
  elsewhere : d.SameElsewhere d'
  offsets : ∀ l, d'.writer.offset? l = d.writer.offset? l
  size : d'.writer.labels.size = d.writer.labels.size
  scopes : d'.writer.scopes = scopes
  findings : d'.findings = d.findings

theorem Shed.refl (h : d.Sound) : d.Shed d.writer.scopes d :=
  ⟨h, Extends.refl d, ⟨fun _ _ => rfl, rfl, rfl⟩, fun _ => rfl, rfl, rfl, rfl⟩

variable {p : Procedure} {index : Nat} {f : RoleEntry → RoleEntry} {scopes : List (List Nat)}

theorem Shed.trans {scopes' : List (List Nat)} (h : d.Shed scopes d') (h' : d'.Shed scopes' d'') :
    d.Shed scopes' d'' :=
  ⟨h'.sound, h.grown.trans h'.grown, h.elsewhere.trans h'.elsewhere h.grown.current,
    fun l => (h'.offsets l).trans (h.offsets l), h'.size.trans h.size, h'.scopes,
    h'.findings.trans h.findings⟩

variable {w : CodeWriter} {role : Nat}

theorem Sound.shed (h : d.Sound)
    (hw : Rescoped d.writer w scopes) : d.Shed scopes (d.setWriter w) := by
  have hlabels : w.labels = d.writer.labels := by rw [hw.eq]
  have hmax : w.maxRegs = d.writer.maxRegs := by rw [hw.eq]
  have hwriter : (d.setWriter w).writer = w := writer_modifyProcedure h _
  refine ⟨sound_modifyProcedure h (advances_rescoped hw) ?_, h.extends_rescoped hw,
    sameElsewhere_modifyProcedure h _, fun l => ?_, ?_, ?_, rfl⟩
  · refine (sound_rescoped h.procedure hw).mono ?_
    exact (Grows.refl d).bounds_le (Nat.le_refl _) (Nat.le_of_eq hmax.symm)
  · rw [hwriter, offset?_congr hlabels]
  · rw [hwriter, hlabels]
  · rw [hwriter, hw.scopes_eq]

theorem Shed.scopesOf_eq (h : d.Shed scopes d') (hcurrent : d'.current = index) (hscopes : scopes = d0.scopesOf index) :
    d'.scopesOf index = d0.scopesOf index := by
  rw [← hcurrent, h.sound.scopesOf_current, h.scopes, hscopes, hcurrent]

theorem Within.shed (h : d0.Within j d) (own : List (List Nat)) (added : List Nat)
    (hshed : d.Shed (own ++ grow added d0.writer.scopes) d') : d0.Within own.length d' :=
  ⟨⟨hshed.sound, (hshed.offsets _).trans h.ready.isOpen⟩, h.size, h.grown.trans hshed.grown,
    fun htop => (h.elsewhere htop).trans hshed.elsewhere h.grown.current,
    fun hres => hshed.elsewhere.reserved hshed.grown.current (h.reserved hres),
    fun l hl => (hshed.offsets l).trans (h.offsets l hl), ⟨own, added, hshed.scopes, rfl⟩,
    fun i hi => (hshed.elsewhere.scopesOf i (h.grown.current ▸ hi)).trans (h.others i hi)⟩

theorem Sound.retitled (h : d.Sound) {current : Nat} (hcurrent : current < d.procedures.size) (topLevel : Bool)
    (findings : Findings) : Sound { d with current, topLevel, findings } := by
  refine ⟨hcurrent, h.procedures, h.functions, h.services, fun i entry disp he hdisp => ?_⟩
  obtain ⟨hp, he, hw, hc, hdis⟩ := h.dispatchers i entry disp he hdisp
  exact ⟨hp, he, hw, hc, hdis⟩

theorem grows_reported (d : Draft) (p : Diagnostic) : d.Grows (d.reported p) :=
  { Grows.refl d with findings := Nat.le_succ _ }

theorem Within.reported (h : d0.Within j d) (p : Diagnostic) :
    d0.Within j (d.reported p) := by
  have hd := h.ready.sound
  have helse : d.SameElsewhere (d.reported p) := ⟨fun _ _ => rfl, rfl, rfl⟩
  exact h.around (hd.retitled hd.current ..) ((grows_reported d p).extends rfl rfl rfl) rfl (fun _ => helse)
    (helse.reserved rfl) helse.scopesOf

theorem Within.numScopes_eq (h : d0.Within 0 d) : d.writer.numScopes = d0.writer.numScopes := by
  obtain ⟨own, added, hscopes, hlen⟩ := h.scopes
  rw [CodeWriter.numScopes, hscopes, List.length_append, hlen, length_grow, Nat.zero_add,
    CodeWriter.numScopes]

theorem Within.inside (h : d0.Within j d) (hdirty : d.findings.count ≠ 0) : d0.Inside [] j d :=
  ⟨h, fun hclean => absurd hclean hdirty, List.nodup_nil, nofun, fun hclean => absurd hclean hdirty⟩

/-! ### Source maps -/

/-- The source map may have changed, and nothing else. -/
structure Mapped (w w' : CodeWriter) : Prop where
  code : w'.code = w.code
  labels : w'.labels = w.labels
  scopes : w'.scopes = w.scopes
  allocated : w'.allocated = w.allocated
  maxRegs : w'.maxRegs = w.maxRegs

theorem mapped_closeRun (w : CodeWriter) (statement : Option (Nat × Nat)) :
    Mapped w { closeRun w with statement } := by
  rw [closeRun]
  split <;> exact ⟨rfl, rfl, rfl, rfl, rfl⟩

theorem Inside.mapped (h : d0.Inside labels j d) (hw : Mapped d.writer w) :
    d0.Inside labels j (d.setWriter w) ∧ d.Extends (d.setWriter w) := by
  obtain ⟨items, hlays, hitems, -⟩ := h.ready.sound.procedure.rows
  have hsize := congrArg Array.size hw.labels
  have hoffsets := offset?_congr hw.labels
  have hwrote : d0.Wrote d w :=
    ⟨hw.scopes, hw.allocated, hw.maxRegs, Nat.le_of_eq (congrArg Array.size hw.code.symm), Nat.le_of_eq hsize.symm,
      fun l o hl => (hoffsets l).trans hl, (hoffsets _).trans h.ready.isOpen, fun l _ => hoffsets l,
      items, hlays.congr hw.code hw.labels, hitems⟩
  exact h.wrote hwrote hsize hoffsets

/-! ### Levels -/

def leveled (d : Draft) (top : Bool) : Draft := { d with topLevel := top }

theorem Sound.leveled (h : d.Sound) (top : Bool) : (d.leveled top).Sound := h.retitled h.current ..

theorem grows_leveled (d : Draft) (top : Bool) : d.Grows (d.leveled top) := { Grows.refl d with }

theorem Ready.leveled (h : d.Ready) (top : Bool) : (d.leveled top).Ready := ⟨h.sound.leveled top, h.isOpen⟩

theorem Within.releveled (h : (d.leveled false).Within j d') : d.Within j (d'.leveled d.topLevel) := by
  have helse : d.SameElsewhere (d'.leveled d.topLevel) := by
    obtain ⟨hprocedures, hfunctions, hroles⟩ := h.elsewhere rfl
    exact ⟨hprocedures, hfunctions, hroles⟩
  have hgrown : d.Grows (d'.leveled d.topLevel) :=
    ((grows_leveled d false).trans h.grown.toGrows).trans (grows_leveled d' d.topLevel)
  exact ⟨h.ready.leveled _, h.size, ⟨hgrown, h.grown.current, rfl, h.grown.locals, h.grown.location,
    h.grown.labels, h.grown.bound⟩, fun _ => helse, fun hres => helse.reserved h.grown.current hres,
    h.offsets, h.scopes, helse.scopesOf⟩

theorem Inside.releveled (h : (d.leveled false).Inside labels j d') :
    d.Inside labels j (d'.leveled d.topLevel) := by
  refine ⟨h.toWithin.releveled, fun hclean hacc => ?_, h.nodup, h.unbound, h.bound⟩
  obtain ⟨hprocedures, hfunctions, hroles⟩ := h.elsewhere rfl
  have helse : d.SameElsewhere (d'.leveled d.topLevel) := ⟨hprocedures, hfunctions, hroles⟩
  exact helse.accounted h.grown.current hacc

/-! ### The end of a procedure -/

structure Returned (d d' : Draft) : Prop where
  sound : d'.Sound
  grown : d.Extends d'
  elsewhere : d.SameElsewhere d'
  size : d'.writer.labels.size = d.writer.labels.size
  offsets : ∀ l, l ≠ retLabel → d'.writer.offset? l = d.writer.offset? l
  bound : d'.writer.offset? retLabel ≠ none
  scopes : d'.writer.scopes = d.writer.scopes
  findings : d'.findings = d.findings

theorem Returned.scopesOf_eq (h : d.Sound) (hreturned : d.Returned d') (i : Nat) :
    d'.scopesOf i = d.scopesOf i := by
  by_cases hi : i = d.current
  · rw [hi, h.scopesOf_current, ← hreturned.grown.current, hreturned.sound.scopesOf_current, hreturned.scopes]
  · exact hreturned.elsewhere.scopesOf i hi

theorem setWriter_setWriter (d : Draft) (w w' : CodeWriter) :
    (d.setWriter w).setWriter w' = d.setWriter w' := by
  have hprocedures : (d.procedures.modify d.current ({ · with writer := w })).modify d.current
      ({ · with writer := w' }) = d.procedures.modify d.current ({ · with writer := w' }) := by grind
  simp only [setWriter, modifyProcedure, hprocedures]

theorem Ready.returned (h : d.Ready) {items : List Item} (hlays : d.writer.Lays items)
    (hitems : ∀ i, .instr i ∈ items → i.Sound d.catalog.Fits (d.bounds d.procedure))
    (hw : w = { d.writer with
      code := w.code
      labels := d.writer.labels.modify retLabel ({ · with offset := some d.writer.location }) })
    (hlays' : w.Lays (items ++ [.instr .ret])) : d.Returned (d.setWriter w) := by
  have hd := h.sound
  have hp := hd.procedure
  have hwriter : (d.setWriter w).writer = w := writer_modifyProcedure hd _
  have hret : retLabel < d.writer.labels.size := hp.size
  have hsize : w.labels.size = d.writer.labels.size := by rw [hw, Array.size_modify]
  have hoffsets : ∀ l, w.offset? l = if l = retLabel then some d.writer.location else d.writer.offset? l := by
    intro l
    have hl := offset?_bindLabel d.writer hret d.writer.location l
    rw [← hl, hw]
    rfl
  have hcode : d.writer.code.size ≤ w.code.size := by
    have hlocation := hlays'.location_eq
    rw [Item.extent_append, ← hlays.location_eq, location, location] at hlocation
    omega
  have hkept : ∀ l o, d.writer.offset? l = some o → w.offset? l = some o := by
    intro l o hl
    rw [hoffsets]
    split
    · next heq =>
      rw [heq, h.isOpen] at hl
      cases hl
    · exact hl
  have hadv : d.procedure.Advances { d.procedure with writer := w } := by
    refine ⟨rfl, fun _ _ => id, ?_, hcode, Nat.le_of_eq hsize.symm, hkept⟩
    rw [hw]
    exact Nat.le_refl _
  have hscopes : w.scopes = d.writer.scopes := by rw [hw]
  refine ⟨sound_modifyProcedure hd hadv ?_, extends_modifyProcedure hd hadv,
    sameElsewhere_modifyProcedure hd _, ?_, fun l hl => ?_, ?_, ?_, rfl⟩
  · have hallocated : w.allocated = d.writer.allocated := by rw [hw]
    have hle : (d.bounds d.procedure).Le (d.bounds { d.procedure with writer := w }) :=
      (Grows.refl d).bounds_le (Nat.le_refl _) hadv.maxRegs
    refine ⟨hp.arity, ⟨hscopes ▸ hp.registers.nodup, ?_, hscopes ▸ hp.registers.small⟩, ?_, hkept _ _ hp.top,
      _, hlays', fun i hi => ?_, fun _ => ⟨items, rfl, fun l o hl => ?_⟩⟩
    · rw [hallocated, hscopes]
      exact hp.registers.allocated
    · exact hsize ▸ hp.size
    · rcases List.mem_append.1 hi with hi | hi
      · exact (hitems i hi).mono hle
      · cases List.mem_singleton.1 hi
        exact Instr.sound_ret _ _
    · rw [hoffsets] at hl
      split at hl
      · cases hl
        exact Nat.le_of_eq hlays.location_eq
      · exact hlays.offset_le hl
  · rw [hwriter, hsize]
  · rw [hwriter, hoffsets, if_neg hl]
  · grind
  · rw [hwriter, hscopes]

/-! ### Other procedures -/

def entered (d : Draft) (index : Nat) : Draft := { d with current := index }

/-- What code that goes into one procedure leaves of the draft around it. -/
structure Visited (d : Draft) (index : Nat) (d' : Draft) : Prop where
  sound : d'.Sound
  grows : d.Grows d'
  current : d'.current = d.current
  topLevel : d'.topLevel = d.topLevel
  procedures : ∀ i : Nat, i ≠ index → d'.procedures[i]? = d.procedures[i]?
  functions : d'.functions = d.functions
  roles : d'.roles = d.roles
  scopes : ∀ i, d'.scopesOf i = d.scopesOf i

theorem Sound.entered (h : d.Sound) (hindex : index < d.procedures.size) : (d.entered index).Sound :=
  h.retitled hindex ..

theorem grows_entered (d : Draft) (index : Nat) : d.Grows (d.entered index) := { Grows.refl d with }

theorem procedure_entered (hindex : d.procedures[index]? = some p) : (d.entered index).procedure = p := by
  rw [procedure, Array.getD_eq_getD_getElem?, entered, hindex, Option.getD_some]

theorem Extends.numParams (h : d.Extends d') (hd : d.Sound) (hd' : d'.Sound) :
    d'.procedure.numParams = d.procedure.numParams := by
  obtain ⟨p, hp, hnum, -⟩ := h.procedures d.current d.procedure hd.procedure_eq
  have hp' := hd'.procedure_eq
  rw [h.current, hp] at hp'
  cases hp'
  exact hnum

theorem finished_of_returned (h : d.Sound)
    (hbound : d.findings.count = 0 → ∀ l, 2 ≤ l → l < d.writer.labels.size → d.writer.offset? l ≠ none)
    (hparams : d.findings.count = 0 → d.procedure.numParams ≤ d.procedure.locals.size)
    (hreturned : d.Returned d') (hshed : d'.Shed scopes d'')
    (hclean : d''.findings.count = 0) : d''.procedure.Finished := by
  have hext := hreturned.grown.trans hshed.grown
  have hclean1 : d.findings.count = 0 := hext.clean hclean
  refine ⟨fun l hl => ?_, ?_⟩
  · change l < d''.writer.labels.size at hl
    change d''.writer.offset? l ≠ none
    rw [hshed.size, hreturned.size] at hl
    rw [hshed.offsets]
    by_cases hret : l = retLabel
    · rw [hret]
      exact hreturned.bound
    rw [hreturned.offsets l hret]
    by_cases htop : l = topLabel
    · rw [htop]
      exact fun hnone => nomatch hnone.symm.trans h.procedure.top
    refine hbound hclean1 l ?_ hl
    rw [retLabel] at hret
    rw [topLabel] at htop
    omega
  · rw [hext.numParams h hshed.sound]
    exact Nat.le_trans (hparams hclean1) hext.locals_le

theorem Inside.bound_of_new (h : d0.Inside [] j d) (hnew : d0.writer = .new) (hclean : d.findings.count = 0)
    (l : Nat) (hl : 2 ≤ l) (hlt : l < d.writer.labels.size) : d.writer.offset? l ≠ none := by
  have hsize : d0.writer.labels.size = 2 := by rw [hnew]; rfl
  exact (h.bound hclean l (hsize ▸ hl) hlt).resolve_right (by simp)

theorem Sound.visited (h : d.Sound) (hsound : d'.Sound)
    (hext : (d.entered index).Extends d') (helse : (d.entered index).SameElsewhere d')
    (hscopes : d'.scopesOf index = d.scopesOf index) : d.Visited index (d'.entered d.current) := by
  have hgrows : d.Grows (d'.entered d.current) :=
    ((grows_entered d index).trans hext.toGrows).trans (grows_entered d' d.current)
  have hcurrent := Nat.lt_of_lt_of_le h.current hgrows.procedures_le
  refine ⟨hsound.entered hcurrent, hgrows, rfl, hext.topLevel, helse.procedures, helse.functions,
    helse.roles, fun i => ?_⟩
  by_cases hi : i = index
  · rw [hi]
    exact hscopes
  · exact helse.scopesOf i hi

theorem Visited.releveled (h : (d.leveled false).Visited index d') : d.Visited index (d'.leveled d.topLevel) :=
  ⟨h.sound.leveled _, ((grows_leveled d false).trans h.grows).trans (grows_leveled d' d.topLevel), h.current,
    rfl, h.procedures, h.functions, h.roles, h.scopes⟩

theorem Visited.reported (h : d.Visited index d') (p : Diagnostic) :
    d.Visited index (d'.reported p) :=
  ⟨h.sound.retitled h.sound.current .., h.grows.trans (grows_reported d' p), h.current, h.topLevel, h.procedures,
    h.functions, h.roles, h.scopes⟩

/-- Code of the current procedure and the way back to it stay as they are. -/
structure Aside (d d' : Draft) : Prop where
  sound : d'.Sound
  grows : d.Grows d'
  current : d'.current = d.current
  topLevel : d'.topLevel = d.topLevel
  procedure : d'.procedures[d.current]? = d.procedures[d.current]?
  scopes : ∀ i, d'.scopesOf i = d.scopesOf i

theorem Aside.trans (h : d.Aside d') (h' : d'.Aside d'') : d.Aside d'' :=
  ⟨h'.sound, h.grows.trans h'.grows, h'.current.trans h.current, h'.topLevel.trans h.topLevel,
    (h.current ▸ h'.procedure).trans h.procedure, fun i => (h'.scopes i).trans (h.scopes i)⟩

theorem Visited.aside (h : d.Visited index d') (hne : d.current ≠ index) : d.Aside d' :=
  ⟨h.sound, h.grows, h.current, h.topLevel, h.procedures _ hne, h.scopes⟩

theorem Aside.procedure_eq (h : d.Aside d') : d'.procedure = d.procedure := by
  rw [Draft.procedure, Draft.procedure, Array.getD_eq_getD_getElem?, Array.getD_eq_getD_getElem?,
    h.current, h.procedure]

theorem Aside.writer_eq (h : d.Aside d') : d'.writer = d.writer := by
  rw [writer, h.procedure_eq, writer]

theorem Aside.extends (h : d.Aside d') : d.Extends d' := h.grows.extends h.current h.topLevel h.procedure_eq

theorem Within.aside (h : d0.Within j d) (htop : d0.atTopLevel = true) (haside : d.Aside d')
    (hres : d.Reserved → d'.Reserved) : d0.Within j d' := by
  refine h.around haside.sound haside.extends haside.writer_eq (fun hnot => ?_) hres fun i _ => haside.scopes i
  rw [htop] at hnot
  cases hnot

theorem Inside.aside (h : d0.Inside labels j d) (htop : d0.atTopLevel = true) (haside : d.Aside d')
    (hres : d.Reserved → d'.Reserved) (hacc : d'.findings.count = 0 → d.Accounted → d'.Accounted) :
    d0.Inside labels j d' := by
  refine h.around haside.sound haside.extends haside.writer_eq (fun hnot => ?_) hres (fun i _ => haside.scopes i)
    hacc
  rw [htop] at hnot
  cases hnot

/-! ### New procedures -/

def added (d : Draft) (p : Procedure) : Draft := { d with procedures := d.procedures.push p }

theorem getElem?_added (d : Draft) (p : Procedure) (i : Nat) :
    (d.added p).procedures[i]? = if i = d.procedures.size then some p else d.procedures[i]? :=
  Array.getElem?_push

theorem getElem?_added_size (d : Draft) (p : Procedure) :
    (d.added p).procedures[d.procedures.size]? = some p := by
  rw [getElem?_added, if_pos rfl]

theorem grows_added (d : Draft) (p : Procedure) : d.Grows (d.added p) := by
  refine ⟨rfl, fun _ _ => id, fun _ _ => id, fun _ _ => id, fun i q hq => ?_, (Grows.refl d).functions,
    (Grows.refl d).roles, Nat.le_refl _⟩
  exact ⟨q, getElem?_push_of_some p hq, rfl, Nat.le_refl _, Nat.le_refl _, Nat.le_refl _⟩

theorem Sound.added (h : d.Sound) (hp : p.Fresh) : (d.added p).Sound := by
  have hgrows := grows_added d p
  refine ⟨Nat.lt_of_lt_of_le h.current hgrows.procedures_le, fun i q hq => ?_, fun i f hf => ?_, h.services,
    fun i entry disp he hdisp => hgrows.dispatcherSound (h.dispatchers i entry disp he hdisp)⟩
  · rw [getElem?_added] at hq
    split at hq
    · cases hq
      exact hp.sound
    · exact (h.procedures i q hq).mono (hgrows.bounds_le (Nat.le_refl _) (Nat.le_refl _))
  · obtain ⟨hparams, q, hq, hnum⟩ := h.functions i f hf
    exact ⟨hparams, q, getElem?_push_of_some p hq, hnum⟩

theorem scopesOf_added (hp : p.Fresh) (i : Nat) : (d.added p).scopesOf i = d.scopesOf i := by
  rw [scopesOf, getElem?_added]
  split
  · next heq =>
    rw [heq, scopesOf, Array.getElem?_eq_none (Nat.le_refl _), Option.map_some, hp.writer]
    rfl
  · rfl

theorem Sound.aside_added (h : d.Sound) (hp : p.Fresh) : d.Aside (d.added p) := by
  refine ⟨h.added hp, grows_added d p, rfl, rfl, ?_, scopesOf_added hp⟩
  rw [getElem?_added, if_neg (Nat.ne_of_lt h.current)]

theorem Owns.lt (h : d.Sound) {o : Owner} {n : Nat} (ho : d.Owns o n) : n < d.procedures.size := by
  cases o with
  | function i =>
    obtain ⟨f, hf, rfl⟩ := ho
    obtain ⟨-, p, hp, -⟩ := h.functions i f hf
    exact (Array.getElem?_eq_some_iff.1 hp).1
  | dispatcher role =>
    obtain ⟨entry, disp, he, hdisp, rfl⟩ := ho
    obtain ⟨p, hp, -⟩ := (h.dispatchers role entry disp he hdisp).procedure
    exact (Array.getElem?_eq_some_iff.1 hp).1

theorem mainIndex_lt (h : d.Sound) : mainIndex < d.procedures.size := Nat.lt_of_le_of_lt (Nat.zero_le _) h.current

theorem Visited.reserved (h : d.Sound) (hvisited : (d.added p).Visited d.procedures.size d')
    (hres : d.Reserved) : d'.Reserved := by
  have howns : ∀ o n, d'.Owns o n ↔ d.Owns o n := by
    intro o n
    cases o <;> simp only [Owns, hvisited.functions, hvisited.roles] <;> rfl
  have hawaits : ∀ o n, d'.Awaits o n ↔ d.Awaits o n := by
    intro o n
    cases o <;> simp only [Awaits, howns, hvisited.functions]
    rfl
  refine ⟨fun o o' n ho ho' => hres.unique o o' n ((howns o n).1 ho) ((howns o' n).1 ho'),
    fun o n ho => hres.apart o n ((howns o n).1 ho), fun o n ho => ?_⟩
  have ho' := (hawaits o n).1 ho
  obtain ⟨hne, q, hq, hfresh⟩ := hres.fresh o n ho'
  have hlt := ho'.owns.lt h
  refine ⟨fun heq => hne (heq.trans hvisited.current), q, ?_, hfresh⟩
  rw [hvisited.procedures n (Nat.ne_of_lt hlt), getElem?_added, if_neg (Nat.ne_of_lt hlt), hq]

theorem Visited.accounted (hvisited : (d.added p).Visited d.procedures.size d')
    (hfinished : ∃ q, d'.procedures[d.procedures.size]? = some q ∧ q.Finished) (hacc : d.Accounted) :
    d'.Accounted := by
  intro i q hq
  by_cases hi : i = d.procedures.size
  · simp_all
  · rw [hvisited.procedures i hi, getElem?_added, if_neg hi] at hq
    rcases hacc i q hq with hmain | hcur | hfin | ⟨o, ho⟩
    · exact .inl hmain
    · exact .inr (.inl (hcur.trans hvisited.current.symm))
    · exact .inr (.inr (.inl hfin))
    · refine .inr (.inr (.inr ⟨o, ?_⟩))
      cases o with
      | function n =>
        simp only [Awaits, hvisited.functions]
        exact ho
      | dispatcher role =>
        simp only [Awaits, Owns, hvisited.roles]
        exact ho

/-! ### Roles -/

theorem getElem?_modifyRole (d : Draft) (role : Nat) (f : RoleEntry → RoleEntry) (i : Nat) :
    (d.modifyRole role f).roles[i]? = if role = i then d.roles[i]?.map f else d.roles[i]? :=
  Array.getElem?_modify

structure Retuned (f : RoleEntry → RoleEntry) : Prop where
  name : ∀ entry, (f entry).name = entry.name
  service : ∀ entry, (f entry).service = entry.service

theorem Retuned.grows (hf : Retuned f) (d : Draft) (role : Nat) : d.Grows (d.modifyRole role f) := by
  refine { Grows.refl d with roles := ⟨Array.size_modify .., fun i entry he => ?_⟩ }
  rw [getElem?_modifyRole, he]
  split
  · exact ⟨f entry, rfl, hf.name entry, hf.service entry⟩
  · exact ⟨entry, rfl, rfl, rfl⟩

theorem Retuned.aside (hf : Retuned f) (h : d.Sound)
    (hdisp : ∀ entry disp, d.roles[role]? = some entry → (f entry).dispatcher = some disp →
      d.DispatcherSound disp) : d.Aside (d.modifyRole role f) := by
  have hgrows := hf.grows d role
  refine ⟨⟨h.current, fun i p hp => ?_, h.functions, fun i entry he => ?_, fun i entry disp he hentry => ?_⟩,
    hgrows, rfl, rfl, rfl, fun _ => rfl⟩
  · exact (h.procedures i p hp).mono (hgrows.bounds_le (Nat.le_refl _) (Nat.le_refl _))
  · rw [getElem?_modifyRole] at he
    split at he
    · obtain ⟨old, hold, rfl⟩ := Option.map_eq_some_iff.1 he
      rw [hf.service]
      exact h.services i old hold
    · exact h.services i entry he
  · refine hgrows.dispatcherSound ?_
    rw [getElem?_modifyRole] at he
    split at he
    · grind
    · exact h.dispatchers i entry disp he hentry

theorem owns_modifyRole
    (hproc : ∀ entry, (f entry).dispatcher.map (·.procedure) = entry.dispatcher.map (·.procedure))
    (o : Owner) (n : Nat) : (d.modifyRole role f).Owns o n ↔ d.Owns o n := by
  cases o with
  | function i => exact Iff.rfl
  | dispatcher r =>
    have hiff : ∀ d' : Draft, d'.Owns (.dispatcher r) n ↔
        ∃ entry, d'.roles[r]? = some entry ∧ entry.dispatcher.map (·.procedure) = some n := by
      intro d'
      simp only [Owns, Option.map_eq_some_iff]
      simp_all
    rw [hiff, hiff]
    simp only [getElem?_modifyRole]
    grind

theorem Inside.retuned (h : d0.Inside labels j d) (htop : d0.atTopLevel = true) (hf : Retuned f) (role : Nat)
    (hproc : ∀ entry, (f entry).dispatcher.map (·.procedure) = entry.dispatcher.map (·.procedure))
    (hdisp : ∀ entry disp, d.roles[role]? = some entry → (f entry).dispatcher = some disp →
      d.DispatcherSound disp) : d0.Inside labels j (d.modifyRole role f) := by
  have howns := @owns_modifyRole d f role hproc
  have hawaits : ∀ o n, (d.modifyRole role f).Awaits o n ↔ d.Awaits o n := by
    intro o n
    cases o with
    | function i => exact Iff.rfl
    | dispatcher r => exact howns (.dispatcher r) n
  refine h.aside htop (hf.aside h.ready.sound hdisp) (fun hres => ?_) fun _ hacc i p hp => ?_
  · exact ⟨fun o o' n ho ho' => hres.unique o o' n ((howns o n).1 ho) ((howns o' n).1 ho'),
      fun o n ho => hres.apart o n ((howns o n).1 ho),
      fun o n ho => hres.fresh o n ((hawaits o n).1 ho)⟩
  · exact (hacc i p hp).imp_right (Or.imp_right (Or.imp_right fun ⟨o, ho⟩ => ⟨o, (hawaits o i).2 ho⟩))

def dispatched (d : Draft) (role : Nat) (p : Procedure) : Draft :=
  (d.added p).modifyRole role ({ · with dispatcher := some { procedure := d.procedures.size } })

theorem owns_dispatched {entry : RoleEntry} (he : d.roles[role]? = some entry)
    (hnone : entry.dispatcher = none) (p : Procedure) (o : Owner) (n : Nat) :
    (d.dispatched role p).Owns o n ↔ d.Owns o n ∨ o = .dispatcher role ∧ n = d.procedures.size := by
  cases o with
  | function i =>
    simp only [reduceCtorEq, false_and, or_false]
    exact Iff.rfl
  | dispatcher r =>
    have hroles := getElem?_modifyRole (d.added p) role
      ({ · with dispatcher := some { procedure := d.procedures.size } }) r
    constructor
    · rintro ⟨entry', disp, he', hdisp, rfl⟩
      rw [dispatched, hroles] at he'
      split at he'
      · grind
      · exact .inl ⟨entry', disp, he', hdisp, rfl⟩
    · rintro (⟨entry', disp, he', hdisp, rfl⟩ | ⟨heq, rfl⟩)
      · refine ⟨entry', disp, ?_, hdisp, rfl⟩
        have hne : role ≠ r := by grind
        rw [dispatched, hroles, if_neg hne]
        exact he'
      · cases heq
        refine ⟨{ entry with dispatcher := some { procedure := d.procedures.size } }, _, ?_, rfl, rfl⟩
        rw [dispatched, hroles, if_pos rfl]
        exact congrArg (Option.map _) he

theorem Sound.aside_dispatched (h : d.Sound) (hp : p.Fresh) (hnum : p.numParams = 0)
    (role : Nat) : d.Aside (d.dispatched role p) := by
  have hretuned : Retuned ({ · with dispatcher := some { procedure := d.procedures.size } }) :=
    ⟨fun _ => rfl, fun _ => rfl⟩
  refine (h.aside_added hp).trans (hretuned.aside (h.added hp) fun entry disp _ hdisp => ?_)
  cases hdisp
  exact ⟨⟨p, getElem?_added_size d p, hnum⟩, nofun, nofun, nofun, nofun⟩

theorem Inside.dispatched (h : d0.Inside labels j d) (htop : d0.atTopLevel = true)
    {entry : RoleEntry} (he : d.roles[role]? = some entry) (hnone : entry.dispatcher = none)
    (hp : p.Fresh) (hnum : p.numParams = 0) : d0.Inside labels j (d.dispatched role p) := by
  have hd := h.ready.sound
  have howns := owns_dispatched he hnone p
  have hawaits : ∀ o n, (d.dispatched role p).Awaits o n ↔
      d.Awaits o n ∨ o = .dispatcher role ∧ n = d.procedures.size := by
    intro o n
    cases o with
    | function i =>
      simp only [reduceCtorEq, false_and, or_false]
      exact Iff.rfl
    | dispatcher r => exact howns (.dispatcher r) n
  refine h.aside htop (hd.aside_dispatched hp hnum role) (fun hres => ?_) fun _ hacc i q hq => ?_
  · refine ⟨fun o o' n ho ho' => ?_, fun o n ho => ?_, fun o n ho => ?_⟩
    · rcases (howns o n).1 ho with ho | ⟨rfl, rfl⟩
      · rcases (howns o' n).1 ho' with ho' | ⟨-, rfl⟩
        · exact hres.unique o o' n ho ho'
        · exact absurd (ho.lt hd) (Nat.lt_irrefl _)
      · rcases (howns o' _).1 ho' with ho' | ⟨rfl, -⟩
        · exact absurd (ho'.lt hd) (Nat.lt_irrefl _)
        · rfl
    · rcases (howns o n).1 ho with ho | ⟨-, rfl⟩
      · exact hres.apart o n ho
      · exact Nat.ne_of_gt (mainIndex_lt hd)
    · rcases (hawaits o n).1 ho with ho | ⟨-, rfl⟩
      · obtain ⟨hne, q, hq, hfresh⟩ := hres.fresh o n ho
        exact ⟨hne, q, getElem?_push_of_some p hq, hfresh⟩
      · exact ⟨Nat.ne_of_gt hd.current, p, getElem?_added_size d p, hp⟩
  · change (d.added p).procedures[i]? = some q at hq
    rw [getElem?_added] at hq
    split at hq
    · next heq => exact .inr (.inr (.inr ⟨.dispatcher role, (hawaits _ i).2 (.inr ⟨rfl, heq⟩)⟩))
    · exact (hacc i q hq).imp_right (Or.imp_right (Or.imp_right
        fun ⟨o, ho⟩ => ⟨o, (hawaits o i).2 (.inl ho)⟩))

end Draft

namespace Lowering

open Draft Run

variable {α : Type} {P : Prop} {d0 d d' : Draft} {labels : List Nat} {j k : Nat}

variable {act : Lowering Unit} {rest : List (List Nat)}

theorem pop_outcome (h : d.Sound) {scope : List Nat} (hscopes : d.writer.scopes = scope :: rest) :
    Outcome (fun _ d' => d.Shed rest d') (fun _ _ => False) (write pop d) := by
  have hpop := h.procedure.registers.pop hscopes
  rw [write]
  revert hpop
  change Outcome _ _ (pop d.writer) → _
  cases pop d.writer with
  | ok a w => exact fun hw => h.shed hw
  | error stop w => exact id

theorem popScopes_outcome (h : d.Sound) {own : List (List Nat)} (hscopes : d.writer.scopes = own ++ rest) :
    Outcome (fun _ d' => d.Shed rest d') (fun _ _ => False) (popScopes own.length d) := by
  induction own generalizing d with
  | nil =>
    rw [List.nil_append] at hscopes
    rw [← hscopes]
    exact Shed.refl h
  | cons scope own ih =>
    refine Outcome.bind (pop_outcome h hscopes) (fun _ d1 hd1 => ?_) fun _ _ => False.elim
    exact (ih hd1.sound hd1.scopes).imp fun _ _ => hd1.trans

theorem numScopes_iff {Q : Nat → Draft → Prop} {E : Stop → Draft → Prop} :
    Outcome Q E (Lowering.numScopes d) ↔ Q d.writer.numScopes d :=
  Iff.rfl

theorem unwind_outcome (h : d.Sound) {own : List (List Nat)} (hscopes : d.writer.scopes = own ++ rest) :
    Outcome (fun _ d' => d.Shed rest d') (fun _ _ => False) (unwind rest.length d) := by
  have hcount : d.writer.numScopes - rest.length = own.length := by
    rw [CodeWriter.numScopes, hscopes, List.length_append, Nat.add_sub_cancel]
  change Outcome _ _ (popScopes (d.writer.numScopes - rest.length) d)
  rw [hcount]
  exact popScopes_outcome h hscopes

/-! ### Problems caught -/

/-- What may come out of a part whose problems are caught: the part is done, or there is a problem. -/
theorem attempt_bind {β : Type} {act : Lowering α} {f : Except Diagnostic α → Lowering β}
    {Q : α → Draft → Prop} {Q' : β → Draft → Prop} {E : Stop → Draft → Prop}
    (hact : Outcome Q (Stops P d0) (act d)) (hok : ∀ a d', Q a d' → Outcome Q' E (f (.ok a) d'))
    (hcaught : ∀ p k d', d0.Within k d' → Outcome Q' E (f (.error p) d'))
    (habort : ∀ defect d', Stops P d0 (.abort defect) d' → E (.abort defect) d') :
    Outcome Q' E ((attempt act >>= f) d) := by
  rw [Outcome.bind_iff, attempt]
  revert hact
  cases act d with
  | ok a d' => exact hok a d'
  | error stop d' =>
    cases stop with
    | reject p =>
      rintro ⟨k, h⟩
      exact hcaught p k d' h
    | abort defect => exact habort defect d'

/-- How a construct may stop that reports its own problems. -/
def Halts (P : Prop) (d0 : Draft) (stop : Stop) (d : Draft) : Prop :=
  (∃ defect, stop = .abort defect ∧ defect.IsLimit d0.catalog.Fits) ∧ (P → d0.catalog.Fits → ¬ d.Fits)

theorem Halts.of_catalog {stop : Stop} {d1 d2 : Draft} (heq : d1.catalog = d0.catalog)
    (h : Halts P d1 stop d2) : Halts P d0 stop d2 := by
  rwa [Halts, heq] at h

/-- A construct that reports its own problems and frees what it allocated. -/
def Completes (P : Prop) (d0 : Draft) (Q : Draft → Prop) : EStateM.Result Stop Draft Unit → Prop :=
  Outcome (fun _ d => (d0.Inside [] 0 d ∧ d.writer.scopes = d0.writer.scopes) ∧ Q d) (Halts P d0)

variable {Q : Draft → Prop} {p : Procedure}

theorem Completes.scopesOf_eq (h : d0.Sound) (hd : d0.Inside [] 0 d ∧ d.writer.scopes = d0.writer.scopes) (i : Nat) :
    d.scopesOf i = d0.scopesOf i := by
  by_cases hi : i = d0.current
  · rw [hi, h.scopesOf_current, ← hd.1.grown.current, hd.1.ready.sound.scopesOf_current, hd.2]
  · exact hd.1.others i hi

theorem Completes.run {r : EStateM.Result Stop Draft Unit} (h : Completes P d0 Q r) :
    Run P d0 [] 0 (fun _ d => Q d) r := by
  refine Outcome.mono h (fun _ _ hd => ⟨hd.1.1, hd.2⟩) ?_
  rintro _ d ⟨⟨defect, rfl, hlimit⟩, hstop⟩
  exact ⟨hlimit, hstop⟩

theorem guarded_completes (span : Span) (h : d.Ready)
    (hact : ∀ d', d.Within 1 d' → Run P d' [] 0 (fun _ d'' => Q d'') (act d'))
    (hgrow : ∀ d' d'', d'.Extends d'' → Q d' → Q d'') (hdirty : ∀ d', d'.findings.count ≠ 0 → Q d') :
    Completes P d Q (guarded span act d) := by
  rw [Completes, guarded, Outcome.bind_iff, numScopes_iff]
  refine Outcome.bind (push_outcome h.inside) ?_ fun _ _ => False.elim
  rintro _ d1 ⟨hd1, -, hpushed⟩
  refine attempt_bind (hact d1 hd1.toWithin) ?_ ?_ ?_
  · rintro _ d2 ⟨hd2, hq⟩
    obtain ⟨own, added, hscopes, hlen⟩ := hd2.scopes
    rw [hpushed, List.eq_nil_of_length_eq_zero hlen, List.nil_append, grow_cons] at hscopes
    refine Outcome.bind (inside_pop_outcome (hd1.trans hd2)) ?_ fun _ _ => False.elim
    rintro _ d3 ⟨hd3, hext3, hpopped⟩
    rw [hscopes, List.tail_cons] at hpopped
    change Completes P d Q ((if d3.writer.numScopes ≠ d.writer.numScopes
      then abort (.scopeImbalance d3.writer.numScopes d.writer.numScopes) else pure () : Lowering Unit) d3)
    rw [if_neg fun hne => hne hd3.numScopes_eq]
    exact ⟨⟨hd3, hpopped⟩, hgrow d2 d3 hext3 hq⟩
  · intro p k d2 hd2
    obtain ⟨own, added, hscopes, -⟩ := hd2.scopes
    rw [hpushed, grow_cons, List.append_cons] at hscopes
    have hreported := (hd1.toWithin.trans hd2).reported (p.orAt span)
    have hunwound := unwind_outcome hreported.ready.sound hscopes
    refine hunwound.mono (fun _ d3 hshed => ?_) fun _ _ => False.elim
    have hdirty3 : d3.findings.count ≠ 0 := by
      rw [hshed.findings]
      exact Nat.succ_ne_zero _
    have hwithin := hreported.shed [] [] (by rwa [grow_nil, List.nil_append])
    exact ⟨⟨hwithin.inside hdirty3, hshed.scopes⟩, hdirty d3 hdirty3⟩
  · intro defect _ hstop
    rw [Stops, hd1.grown.catalog] at hstop
    exact ⟨⟨defect, rfl, hstop.1⟩, hstop.2⟩

theorem statement_completes {span : Span} (h : d.Ready)
    (hact : ∀ d', d.Within 1 d' → Run P d' [] 0 (fun _ d'' => Q d'') (act d'))
    (hgrow : ∀ d' d'', d'.Extends d'' → Q d' → Q d'') (hdirty : ∀ d', d'.findings.count ≠ 0 → Q d') :
    Completes P d Q (statement span act d) := by
  obtain ⟨hstart, -⟩ := h.inside.mapped (mapped_closeRun d.writer (some (span.line, d.writer.location)))
  change Completes P d Q ((do
    guarded span act
    write (endStatement d.writer.currentLine) : Lowering Unit)
      (d.setWriter { closeRun d.writer with statement := some (span.line, d.writer.location) }))
  have hguarded := guarded_completes span hstart.ready
    (fun d' hd' => hact d' (hstart.toWithin.trans hd')) hgrow hdirty
  refine Outcome.bind hguarded ?_ ?_
  · rintro _ d2 ⟨⟨hd2, hscopes⟩, hq⟩
    have hmapped := mapped_closeRun d2.writer (d.writer.currentLine.map (·, d2.writer.location))
    obtain ⟨hend, hext2⟩ := (hstart.trans hd2).mapped hmapped
    refine ⟨⟨hend, ?_⟩, hgrow d2 _ hext2 hq⟩
    rw [setWriter, writer_modifyProcedure hd2.ready.sound]
    refine hmapped.scopes.trans (hscopes.trans ?_)
    rw [setWriter, writer_modifyProcedure h.sound]
    exact (mapped_closeRun d.writer _).scopes
  · exact fun _ _ => Halts.of_catalog hstart.grown.catalog

theorem plain_statement_completes {span : Span} (h : d.Ready)
    (hact : ∀ d', d'.Ready → d'.writer.scopes ≠ [] → Passes P d' act) :
    Completes P d (fun _ => True) (statement span act d) :=
  statement_completes h (fun d' hd' => hact d' hd'.ready hd'.scopes_ne_of_pushed) (fun _ _ _ => id)
    fun _ _ => trivial

theorem nested_run (hact : Passes P (d.leveled false) act) :
    Passes P d (nested act) := by
  change Run P d [] 0 _ ((do
    let result ← attempt act
    modify ({ · with topLevel := d.topLevel })
    ofExcept result : Lowering Unit) (d.leveled false))
  refine attempt_bind hact ?_ ?_ ?_
  · exact fun _ d1 hd1 => ⟨hd1.1.releveled, trivial⟩
  · exact fun p k d1 hd1 => ⟨k, hd1.releveled⟩
  · exact fun _ _ hstop => hstop

/-! ### Code that goes elsewhere -/

theorem emitReturn_outcome (h : d.Ready) :
    Outcome (fun _ d' => d.Returned d') (fun _ _ => False) (emitReturn d) := by
  have hd := h.sound
  obtain ⟨items, hlays, hitems, -⟩ := hd.procedure.rows
  obtain ⟨label, hlabel, hoffset⟩ := exists_label (show retLabel < d.writer.labels.size from hd.procedure.size)
  change d.writer.Lays items at hlays
  have hbind := bindLabel_outcome hlays hlabel (hoffset.trans h.isOpen)
  change Outcome _ _ ((write (bindLabel retLabel) >>= fun _ => write (emit .ret)) d)
  rw [Outcome.bind_iff, write]
  revert hbind
  cases bindLabel retLabel d.writer with
  | error stop w => exact id
  | ok a w =>
    rintro ⟨hlays1, hw⟩
    have hwriter : (d.setWriter w).writer = w := writer_modifyProcedure hd _
    have hemit := emit_outcome hlays1 .ret
    rw [Outcome.ok_iff, write, hwriter]
    revert hemit
    cases emit .ret w with
    | error stop w' => exact fun herror => absurd Instr.encodable_ret herror.1
    | ok a w' =>
      rintro ⟨-, hlays', hw'⟩
      change d.Returned ((d.setWriter w).setWriter w')
      rw [setWriter_setWriter]
      rw [hw] at hw'
      exact h.returned hlays hitems hw' hlays'

/-- How code for a procedure of its own ends: with a return behind it, and slots for all parameters. -/
def Finishes (P : Prop) (d : Draft) : EStateM.Result Stop Draft Unit → Prop :=
  Outcome (fun _ d' => ∃ d1, d.Inside [] 0 d1 ∧
    (d1.findings.count = 0 → d1.procedure.numParams ≤ d1.procedure.locals.size) ∧ d1.Returned d') (Stops P d)

/-- How a procedure may be written from elsewhere: it is finished unless there are problems. -/
def Visits (P : Prop) (d : Draft) (index : Nat) : EStateM.Result Stop Draft Unit → Prop :=
  Outcome (fun _ d' => d.Visited index d' ∧
      (d'.findings.count = 0 → ∃ p, d'.procedures[index]? = some p ∧ p.Finished))
    fun stop d' => match stop with
      | .reject _ => d.Visited index d'
      | .abort defect => defect.IsLimit d.catalog.Fits ∧ (P → d.catalog.Fits → ¬ d'.Fits)

theorem inProcedure_visits {index : Nat} (h : d.Sound)
    (hindex : d.procedures[index]? = some p) (hp : p.Fresh) (hne : index ≠ mainIndex)
    (hact : ∀ d', d'.Ready → d'.writer.scopes ≠ [] → d'.atTopLevel = false → d.Grows d' →
      d'.procedure.numParams = p.numParams → Finishes P d' (act d')) :
    Visits P d index (inProcedure index act d) := by
  have hproc : (d.entered index).procedure = p := procedure_entered hindex
  have hwriter : (d.entered index).writer = .new := by rw [writer, hproc, hp.writer]
  have hready : (d.entered index).Ready := by
    refine ⟨h.entered (Array.getElem?_eq_some_iff.1 hindex).1, ?_⟩
    rw [hwriter]
    rfl
  have htop : (d.entered index).atTopLevel = false := by
    rw [atTopLevel, entered, Bool.and_eq_false_iff]
    exact .inr (beq_false_of_ne hne)
  rw [Visits, inProcedure, Outcome.bind_iff, Outcome.get_iff]
  dsimp only
  rw [Outcome.bind_iff, Outcome.modify_iff, Outcome.bind_iff, numScopes_iff]
  refine Outcome.bind (push_outcome hready.inside) ?_ fun _ _ => False.elim
  rintro _ d1 ⟨hd1, hext1, -⟩
  have htop1 : d1.atTopLevel = false := hext1.atTopLevel.trans htop
  have hnum := (hext1.numParams hready.sound hd1.ready.sound).trans (congrArg Procedure.numParams hproc)
  refine attempt_bind (hact d1 hd1.ready hd1.scopes_ne_of_pushed htop1
    ((grows_entered d index).trans hext1.toGrows) hnum) ?_ ?_ ?_
  · rintro _ d3 ⟨d2, hd2, hparams, hreturned⟩
    obtain ⟨scope, hscope⟩ : ∃ scope, d3.writer.scopes = [scope] := by
      obtain ⟨own, added, hscopes, hlen⟩ := (hd1.toWithin.trans hd2.toWithin).scopes
      rw [hwriter] at hscopes
      obtain ⟨scope, rfl⟩ := List.length_eq_one_iff.1 hlen
      exact ⟨scope, hreturned.scopes.trans hscopes⟩
    refine Outcome.bind (pop_outcome hreturned.sound hscope) (fun _ d4 hshed => ?_) fun _ _ => False.elim
    have hcount : d4.writer.numScopes = (d.entered index).writer.numScopes := by
      rw [CodeWriter.numScopes, hshed.scopes, hwriter]
      rfl
    rw [Outcome.bind_iff, numScopes_iff, if_neg (fun hneq => hneq hcount)]
    have hext := ((hext1.trans hd2.grown).trans hreturned.grown).trans hshed.grown
    have helse2 := (hd1.trans hd2).elsewhere htop
    have hcurrent2 := (hext1.trans hd2.grown).current
    have helse := (helse2.trans hreturned.elsewhere hcurrent2).trans hshed.elsewhere
      (hreturned.grown.current.trans hcurrent2)
    refine ⟨h.visited hshed.sound hext helse (hshed.scopesOf_eq hext.current ?_),
      fun hclean => ⟨d4.procedure, ?_, ?_⟩⟩
    · rw [scopesOf_of_getElem? hindex, hp.writer]
      rfl
    · rw [← hshed.sound.procedure_eq, hext.current]
    · exact finished_of_returned hd2.ready.sound ((hd1.trans hd2).bound_of_new hwriter) hparams hreturned
        hshed hclean
  · intro p k d2 hd2
    obtain ⟨own, added, hscopes, -⟩ := (hd1.toWithin.trans hd2).scopes
    have hunwound := unwind_outcome hd2.ready.sound hscopes
    rw [length_grow] at hunwound
    refine Outcome.bind hunwound (fun _ d3 hshed => ?_) fun _ _ => False.elim
    have helse := ((hd1.toWithin.trans hd2).elsewhere htop).trans hshed.elsewhere
      (hext1.trans hd2.grown).current
    have hext := (hext1.trans hd2.grown).trans hshed.grown
    refine h.visited hshed.sound hext helse (hshed.scopesOf_eq hext.current ?_)
    rw [scopesOf_of_getElem? hindex, hp.writer, hwriter]
    rfl
  · intro _ _ hstop
    rwa [Stops, hext1.catalog] at hstop

theorem nested_inProcedure_visits {index : Nat} (h : d.Sound)
    (hindex : d.procedures[index]? = some p) (hp : p.Fresh) (hne : index ≠ mainIndex)
    (hact : ∀ d', d'.Ready → d'.writer.scopes ≠ [] → d'.atTopLevel = false → d.Grows d' →
      d'.procedure.numParams = p.numParams → Finishes P d' (act d')) :
    Visits P d index (nested (inProcedure index act) d) := by
  have hinner := inProcedure_visits (h.leveled false) hindex hp hne
    fun d' hd' hne' htop hgrows hnum => hact d' hd' hne' htop ((grows_leveled d false).trans hgrows) hnum
  change Visits P d index ((do
    let result ← attempt (inProcedure index act)
    modify ({ · with topLevel := d.topLevel })
    ofExcept result : Lowering Unit) (d.leveled false))
  rw [Visits, Outcome.bind_iff, attempt]
  revert hinner
  cases inProcedure index act (d.leveled false) with
  | ok a d' => exact fun hvisited => ⟨hvisited.1.releveled, hvisited.2⟩
  | error stop d' =>
    cases stop with
    | reject p => exact fun hvisited => hvisited.releveled
    | abort defect => exact id

theorem Finishes.bind {x : Lowering α} {f : α → Lowering Unit} {Q : α → Draft → Prop}
    (h : d0.Inside [] 0 d) (hx : Run P d [] 0 Q (x d))
    (hf : ∀ a d', d0.Inside [] 0 d' → d.Inside [] 0 d' → Q a d' → Finishes P d0 (f a d')) :
    Finishes P d0 ((x >>= f) d) :=
  Outcome.bind hx (fun a d' hd' => hf a d' (h.trans hd'.1) hd'.1 hd'.2) fun _ _ => Stops.trans h.toWithin

theorem finishes_emitReturn (h : d0.Inside [] 0 d)
    (hparams : d.findings.count = 0 → d.procedure.numParams ≤ d.procedure.locals.size) :
    Finishes P d0 (emitReturn d) :=
  (emitReturn_outcome h.ready).mono (fun _ _ hd' => ⟨d, h, hparams, hd'⟩) fun _ _ => False.elim

theorem Visits.bind {β : Type} {x : Lowering Unit} {f : Unit → Lowering β}
    {Q : β → Draft → Prop} (h : d.Ready) (htop : d.atTopLevel = true) (hp : p.Fresh)
    (hx : Visits P (d.added p) d.procedures.size (x (d.added p)))
    (hf : ∀ d', d.Inside [] 0 d' → (∃ q, d'.procedures[d.procedures.size]? = some q) →
      Run P d [] 0 Q (f () d')) : Run P d [] 0 Q ((x >>= f) (d.added p)) := by
  have haside : ∀ {d'}, (d.added p).Visited d.procedures.size d' → d.Aside d' := fun hvisited =>
    (h.sound.aside_added hp).trans (hvisited.aside (Nat.ne_of_lt h.sound.current))
  refine Outcome.bind hx ?_ ?_
  · rintro _ d' ⟨hvisited, hfinished⟩
    refine hf d' ?_ ?_
    · exact h.inside.aside htop (haside hvisited) (hvisited.reserved h.sound)
        fun hclean => hvisited.accounted (hfinished hclean)
    · obtain ⟨q, hq, -⟩ := hvisited.grows.procedures _ p (getElem?_added_size d p)
      exact ⟨q, hq⟩
  · intro stop d' hstop
    cases stop with
    | reject problem => exact ⟨0, h.inside.toWithin.aside htop (haside hstop) (hstop.reserved h.sound)⟩
    | abort defect => exact hstop

end Lowering

end BusScript
