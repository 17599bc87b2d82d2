import BusScript.Proofs.LoweringRuns
import BusScript.Proofs.WholeNumbers

namespace BusScript

open CodeWriter Draft

def Value.Sound (d : Draft) : Value → Prop
  | .reg r => r < 16
  | .buffer => True
  | .cell kind index => kind = .local ∧ index < d.procedure.locals.size ∨ kind = .global ∧ index < d.globals.size
  | .float _ => True
  | .role i => i < d.roles.size
  | .register i packet => i < d.roles.size ∧ (d.catalog.Fits → packet.Fits)
  | .event i packet => i < d.roles.size ∧ (d.catalog.Fits → packet.Fits)
  | .command i packet => i < d.roles.size ∧ (d.catalog.Fits → packet.Fits)
  | .fields i packet => i < d.roles.size ∧ (d.catalog.Fits → packet.Fits)
  | .function _ => True

theorem Value.Sound.mono {d d' : Draft} {v : Value} (h : v.Sound d) (hext : d.Extends d') :
    v.Sound d' := by
  have hpacket : ∀ {role : Nat} {packet : PacketSpec}, role < d.roles.size ∧ (d.catalog.Fits → packet.Fits) →
        role < d'.roles.size ∧ (d'.catalog.Fits → packet.Fits) := by
    rintro role packet ⟨hrole, hfits⟩
    exact ⟨hext.roles.1 ▸ hrole, hext.catalog ▸ hfits⟩
  cases v with
  | cell kind index =>
    rcases h with ⟨hkind, hindex⟩ | ⟨hkind, hindex⟩
    · exact .inl ⟨hkind, Nat.lt_of_lt_of_le hindex hext.locals_le⟩
    · exact .inr ⟨hkind, Nat.lt_of_lt_of_le hindex hext.globals_le⟩
  | role i => exact Nat.lt_of_lt_of_eq h hext.roles.1.symm
  | reg | buffer | float | function => exact h
  | _ => exact hpacket h

/-- A part whose lowering keeps to the rules, as a value and as the body of a handler. -/
structure Part.Sound (P : Prop) (p : Part) : Prop where
  value : ∀ d : Draft, d.Ready → d.writer.scopes ≠ [] → Lowering.Run P d [] 0 (fun v d' => v.Sound d') (p.value d)
  body : ∀ d : Draft, d.Ready → d.atTopLevel = false → Lowering.Run P d [] 0 (fun _ _ => True) (p.body d)

namespace Lowering

open Run

variable {P : Prop} {d : Draft}

theorem floatLiteral_run (h : d.Ready) (x : Number) :
    Run P d [] 0 (fun index d' => index < d'.floats.size) (floatLiteral x d) := by
  rw [floatLiteral]
  refine Run.get_bind ?_
  cases hfound : d.floats.findIdx? (samePoolFloat x) with
  | some index => exact Run.pure h.inside (Array.findIdx?_eq_some_iff_getElem.1 hfound).1
  | none =>
    have hinside := h.inside.tabled (grows_floats d x)
    exact ⟨hinside, Nat.lt_of_lt_of_eq (Nat.lt_succ_self _) (Array.size_push ..).symm⟩

theorem stringLiteral_run (h : d.Ready) (s : String) :
    Run P d [] 0 (fun index d' => index < d'.strings.size) (stringLiteral s d) := by
  rw [stringLiteral]
  refine Run.get_bind ?_
  cases hfound : d.strings.findIdx? (· == s) with
  | some index => exact Run.pure h.inside (Array.findIdx?_eq_some_iff_getElem.1 hfound).1
  | none =>
    have hinside := h.inside.tabled (grows_strings d s)
    exact ⟨hinside, Nat.lt_of_lt_of_eq (Nat.lt_succ_self _) (Array.size_push ..).symm⟩

variable {index offset : Nat} {field : FieldSpec} {kind : CellKind}

variable {dst j : Nat} {d0 : Draft} {labels : List Nat}

theorem sound_load {fits : Prop} {b : Bounds}
    (hkind : kind ≠ .roleProperty) (h : b.HasCell kind index 0) : (Instr.load dst kind index 0).Sound fits b :=
  ⟨by simp [Instr.codesKnown, hkind], nofun, fun _ => h⟩

theorem div_le_maxOperand {n : Nat} (h : index < n) (hn : n ≤ maxOperand) (k : Nat) : index / k ≤ maxOperand :=
  Nat.le_trans (Nat.div_le_self ..) (Nat.le_trans (Nat.le_of_lt h) hn)

theorem loadFloat_run (h : d.Ready) (hdst : P → dst < 16) (x : Number) : Passes P d (loadFloat dst x) := by
  rw [loadFloat]
  split
  · refine emit_run h.inside (fun _ => sound_load nofun ⟨by decide, by decide⟩) ?_
    exact fun hp _ _ => Instr.encodable_load _ (hdst hp) (by decide) (Nat.zero_le _)
  · split
    · next hwhole =>
      refine emit_run h.inside (fun _ => sound_load nofun trivial) ?_
      refine fun hp _ _ => Instr.encodable_load _ (hdst hp) ?_ (Nat.zero_le _)
      rw [Bool.and_eq_true, decide_eq_true_iff] at hwhole
      have hle := Number.toUInt32_le_65535 hwhole.2
      exact div_le_maxOperand (Nat.lt_succ_of_le hle) (by decide) 64
    · refine Run.bind h.inside (floatLiteral_run h x) fun index d' hd' _ hindex => ?_
      refine emit_run hd' (fun _ => sound_load nofun hindex) ?_
      refine fun hp _ hfits => Instr.encodable_load _ (hdst hp) ?_ (Nat.zero_le _)
      exact div_le_maxOperand hindex hfits.floats 64

theorem hasCell_of_sound (h : (Value.cell kind index).Sound d) :
    kind ≠ .roleProperty ∧ Image.CellKind.isStorable kind = true ∧ (d.bounds d.procedure).HasCell kind index 0 := by
  rcases h with ⟨rfl, hindex⟩ | ⟨rfl, hindex⟩
  · exact ⟨nofun, rfl, hindex⟩
  · exact ⟨nofun, rfl, hindex⟩

theorem cell_le_maxOperand (h : d.Sound)
    (hcell : (Value.cell kind index).Sound d) (hfits : d.Fits) : index / 64 ≤ maxOperand := by
  rcases hcell with ⟨-, hindex⟩ | ⟨-, hindex⟩
  · have hlocals := (hfits.bodies d.procedure (Array.mem_of_getElem? h.procedure_eq)).1
    exact div_le_maxOperand hindex (Nat.le_trans hlocals (by decide)) 64
  · exact div_le_maxOperand hindex (Nat.le_trans hfits.globals (by decide)) 64

theorem loadValue_run (h : d.Ready) (hdst : dst < 32) (hlow : P → dst < 16) {v : Value}
    (hv : v.Sound d) : Passes P d (loadValue dst v) := by
  cases v with
  | reg src =>
    rw [loadValue]
    split
    · exact Run.pure h.inside trivial
    · refine emit_run h.inside (fun _ => ⟨rfl, nofun, fun _ => ⟨hv, ?_⟩⟩) fun hp _ _ => ?_
      · exact .inr ⟨rfl, hdst⟩
      · exact Instr.encodable_unary _ (hlow hp) hv
  | float x => exact loadFloat_run h hlow x
  | cell kind index =>
    obtain ⟨hkind, -, hcell⟩ := hasCell_of_sound hv
    refine emit_run h.inside (fun _ => sound_load hkind hcell) fun hp _ hfits => ?_
    exact Instr.encodable_load _ (hlow hp) (cell_le_maxOperand h.sound hv hfits) (Nat.zero_le _)
  | _ => exact Run.reject h.inside.toWithin

theorem forceReg_run (h : d.Ready) (hne : d.writer.scopes ≠ []) {v : Value} (hv : v.Sound d) :
    Run P d [] 0 (fun r _ => r < 16) (forceReg v d) := by
  have hnew : Run P d [] 0 (fun r _ => r < 16) ((do
      let r ← allocReg
      loadValue r v
      return r : Lowering Nat) d) := by
    refine allocReg_bind h.inside hne fun r d1 hd1 hext hr => ?_
    refine Run.bind hd1 (loadValue_run hd1.ready (by omega) (fun _ => hr) (hv.mono hext)) ?_
    exact fun _ d2 hd2 _ _ => Run.pure hd2 hr
  cases v with
  | reg r => exact Run.pure h.inside hv
  | float | cell => exact hnew
  | _ => exact Run.reject_bind h.inside.toWithin

theorem emitStore_run {src : Nat}
    (h : d0.Inside labels j d) (hsrc : src < 16) (hcell : (Value.cell kind index).Sound d) :
    Run P d0 labels j (fun _ _ => True) (write (emitStore src kind index 0) d) := by
  obtain ⟨hkind, hstorable, hhas⟩ := hasCell_of_sound hcell
  refine emit_run h (fun _ => ⟨by simp [Instr.codesKnown, hkind], nofun, fun _ => ⟨hstorable, hhas⟩⟩) ?_
  exact fun _ _ hfits => Instr.encodable_store _ hsrc (cell_le_maxOperand h.ready.sound hcell hfits) (Nat.zero_le _)

theorem assign_run (h : d.Ready) {dst src : Value} (hdst : dst.Sound d) (hsrc : src.Sound d) :
    Passes P d (assign dst src) := by
  rw [assign.eq_def]
  dsimp only
  split
  · exact Run.reject_bind h.inside.toWithin
  · split
    · split
      · exact emitStore_run h.inside hsrc hdst
      · exact Run.reject h.inside.toWithin
    · split
      · exact Run.reject_bind h.inside.toWithin
      · refine push_bind h.inside fun d1 hd1 hext1 => ?_
        refine Run.bind hd1 (forceReg_run hd1.ready hd1.scopes_ne_of_pushed (hsrc.mono hext1)) ?_
        intro r d2 hd2 hstep2 hr
        refine Run.bind hd2 (emitStore_run hd2.ready.inside hr ((hdst.mono hext1).mono hstep2.grown)) ?_
        intro _ d3 hd3 _ _
        exact Run.tail (pop_bind hd3 fun d4 hd4 _ => Run.pure hd4 trivial)
    · exact Run.reject h.inside.toWithin

theorem inReg_run {p : Part} (hp : p.Sound P) (h : d.Ready) (hne : d.writer.scopes ≠ []) :
    Run P d [] 0 (fun r _ => r < 16) (inReg p d) := by
  refine Run.bind h.inside (hp.value d h hne) fun v d1 hd1 _ hv => ?_
  exact Run.within hd1 (Run.located (forceReg_run hd1.ready (hd1.scopes_ne hne) hv))

theorem number_run {p : Part} (hp : p.Sound P) (h : d.Ready) (hne : d.writer.scopes ≠ []) :
    Run P d [] 0 (fun v d' => v.Sound d') (number p d) := by
  refine Run.bind h.inside (hp.value d h hne) fun v d1 hd1 _ hv => ?_
  dsimp only
  split
  · exact Run.reject_bind hd1.toWithin
  · exact Run.pure hd1 hv

theorem numbers_run {parts : List Part} (hparts : ∀ p ∈ parts, p.Sound P) (h : d.Ready) (hne : d.writer.scopes ≠ []) :
    Run P d [] 0 (fun vs d' => vs.length = parts.length ∧ ∀ v ∈ vs, v.Sound d') (numbers parts d) := by
  induction parts generalizing d with
  | nil => exact Run.pure h.inside ⟨rfl, nofun⟩
  | cons p rest ih =>
    refine Run.bind h.inside (number_run (hparts p (by simp)) h hne) fun v d1 hd1 _ hv => ?_
    have hrest := ih (fun q hq => hparts q (by simp [hq])) hd1.ready (hd1.scopes_ne hne)
    refine Run.bind hd1 hrest fun vs d2 hd2 hstep ⟨hlen, hvs⟩ => ?_
    refine Run.pure hd2 ⟨by rw [List.length_cons, hlen, List.length_cons], ?_⟩
    intro value hvalue
    rcases List.mem_cons.1 hvalue with rfl | hvalue
    · exact hv.mono hstep.grown
    · exact hvs value hvalue

theorem loadValues_run {pairs : List (Nat × Value)} (h : d.Ready)
    (hregs : ∀ pair ∈ pairs, pair.1 < 32) (hlow : P → ∀ pair ∈ pairs, pair.1 < 16)
    (hvalues : ∀ pair ∈ pairs, pair.2.Sound d) :
    Passes P d (loadValues pairs) := by
  induction pairs generalizing d with
  | nil => exact Run.pure h.inside trivial
  | cons pair rest ih =>
    have hload := loadValue_run h (hregs pair (by simp)) (fun hp => hlow hp pair (by simp)) (hvalues pair (by simp))
    refine Run.bind h.inside hload fun _ d1 hd1 hstep _ => ?_
    refine Run.within hd1 (ih hd1.ready (fun q hq => hregs q (by simp [hq]))
      (fun hp q hq => hlow hp q (by simp [hq])) fun q hq => ?_)
    exact (hvalues q (by simp [hq])).mono hstep.grown

theorem passValues_run {values : List Value} (h : d.Ready) (hne : d.writer.scopes ≠ [])
    (hcount : P → values.length ≤ 16) (hvalues : ∀ v ∈ values, v.Sound d) :
    Passes P d (passValues values) := by
  have hargs : P → values.length ≤ 32 := fun hp => Nat.le_trans (hcount hp) (by decide)
  refine allocArgs_bind h.inside hne hargs fun d1 hd1 hext hsmall => ?_
  refine Run.within hd1 (loadValues_run hd1.ready (fun pair hpair => ?_) (fun hp pair hpair => ?_) ?_)
  · exact hsmall _ (List.of_mem_zip hpair).1
  · have hlt := List.mem_range.1 (List.of_mem_zip hpair).1
    exact Nat.lt_of_lt_of_le hlt (Nat.le_trans (Nat.mod_le _ _) (hcount hp))
  · exact fun pair hpair => (hvalues _ (List.of_mem_zip hpair).2).mono hext

theorem passArgs_run {args : List Part} (hargs : ∀ p ∈ args, p.Sound P) (h : d.Ready)
    (hne : d.writer.scopes ≠ []) (hcount : P → args.length ≤ 16) :
    Passes P d (passArgs args) := by
  refine Run.bind h.inside (numbers_run hargs h hne) fun values d1 hd1 _ ⟨hlen, hvalues⟩ => ?_
  exact Run.within hd1 (passValues_run hd1.ready (hd1.scopes_ne hne) (hlen ▸ hcount) hvalues)

theorem saves_general {b : Bounds} {m : Nat} (w : CodeWriter) (hm : w.allocated.general.size ≤ m) :
    (b.saving m).Saves w.allocated.general.mask :=
  ⟨RegSet.general_mask_le _, hm⟩

theorem async_bind {β : Type} {labels' : List Nat} {k : Nat} {op : AsyncOp}
    {a b c : Nat} {f : Unit → Lowering β} {Q : β → Draft → Prop} (h : d0.Inside labels j d)
    (hrole : op = .queryReg ∨ op = .sendCmd → a < d.roles.size)
    (hfit : P → d.Fits → a ≤ maxOperand ∧ b ≤ maxOperand ∧ c ≤ maxOperand)
    (hf : ∀ d', d0.Inside labels j d' → d.Extends d' → d.writer.location < d'.writer.location →
      Run P d0 labels' k Q (f () d')) : Run P d0 labels' k Q ((write (emitAsync op a b c) >>= f) d) := by
  have hsaves := @saves_general (d.bounds d.procedure) _ d.writer (Nat.le_max_right d.writer.maxRegs _)
  refine emits_bind h rfl (Nat.le_max_left _ _) (fun _ => ⟨rfl, nofun, fun _ => ?_⟩) ?_ hf
  · cases op with
    | queryReg => exact ⟨hrole (.inl rfl), hsaves⟩
    | sendCmd => exact ⟨hrole (.inr rfl), hsaves⟩
    | pause | cloudUpload => exact hsaves
  · intro hp _ hfits
    obtain ⟨ha, hb, hc⟩ := hfit hp hfits
    have hmask := RegSet.general_mask_le d.writer.allocated
    exact Instr.encodable_async op ha hb hc (Nat.le_trans (Nat.div_le_self _ _) (Nat.le_trans hmask (by decide)))

theorem call_bind {β : Type} {labels' : List Nat} {k : Nat} {kind : CallKind}
    {function numArgs : Nat} {f : Unit → Lowering β} {Q : β → Draft → Prop}
    (h : d0.Inside labels j d) (hargs : numArgs < 16) {p : Procedure}
    (hcallee : d.procedures[function]? = some p) (hparams : numArgs ≤ p.numParams)
    (hf : ∀ d', d0.Inside labels j d' → d.Extends d' → Run P d0 labels' k Q (f () d')) :
    Run P d0 labels' k Q ((write (emitCall function numArgs kind) >>= f) d) := by
  have hbound : (d.bounds d.procedure).callee function = some p.numParams := by
    change d.procedures[function]?.map (·.numParams) = some p.numParams
    rw [hcallee, Option.map_some]
  have hfunction : d.Fits → function / 64 ≤ maxOperand := fun hfits =>
    div_le_maxOperand (Array.getElem?_eq_some_iff.1 hcallee).1 hfits.procedures 64
  have hnot : ¬ 16 ≤ numArgs := Nat.not_le.2 hargs
  have hmask := RegSet.general_mask_le d.writer.allocated
  by_cases hkind : kind = .sync
  · subst hkind
    have hact : emitCall function numArgs .sync d.writer =
        emit (.call .sync numArgs function d.writer.allocated.general.mask)
          (d.writer.saving (max d.writer.maxRegs d.writer.allocated.general.size)) := by
      rw [emitCall, if_neg hnot]
      rfl
    refine emits_bind h hact (Nat.le_max_left _ _) (fun _ => ⟨rfl, nofun, fun _ => ?_⟩) ?_
      fun d' hd' hext _ => hf d' hd' hext
    · exact ⟨⟨_, hbound, hparams⟩, fun _ => saves_general d.writer (Nat.le_max_right ..), nofun⟩
    · exact fun _ _ hfits => Instr.encodable_call _ hargs (hfunction hfits) (Nat.le_trans hmask (by decide))
  · have hact : emitCall function numArgs kind d.writer =
        emit (.call kind numArgs function 0) (d.writer.saving d.writer.maxRegs) := by
      rw [emitCall, if_neg hnot, if_neg hkind]
      rfl
    refine emits_bind h hact (Nat.le_refl _) (fun _ => ⟨rfl, nofun, fun _ => ?_⟩) ?_ fun d' hd' hext _ => hf d' hd' hext
    · exact ⟨⟨_, hbound, hparams⟩, fun hsync => absurd hsync hkind, fun _ => rfl⟩
    · exact fun _ _ hfits => Instr.encodable_call _ hargs (hfunction hfits) (Nat.zero_le _)

theorem bufferCell_run (h : d.Ready)
    (hfield : d.catalog.Fits → ∀ format, field.format? = some format → field.shift ≤ format.bits) :
    Run P d [] 0 (fun cell d' => d' = d ∧ ∃ format, field.format? = some format ∧
      cell = field.shift * 16 ||| format.code) (bufferCell field d) := by
  rw [bufferCell]
  cases hformat : field.format? with
  | none => exact Run.reject h.inside.toWithin
  | some format =>
    dsimp only
    split
    · next hlt =>
      have hnot : ¬ d.catalog.Fits := fun hfits => absurd (hfield hfits format hformat) (Nat.not_le.2 hlt)
      exact Run.abort_bind hnot fun _ hfits => absurd hfits hnot
    · exact Run.pure h.inside ⟨rfl, format, rfl, rfl⟩

theorem bufferCell_fields (shift : Nat) (format : FieldFormat) :
    (shift * 16 ||| format.code) % 16 = format.code ∧ (shift * 16 ||| format.code) / 16 = shift := by
  have hlt : format.code < 2 ^ 4 := by cases format <;> decide
  rw [Nat.mul_comm, show (16 : Nat) = 2 ^ 4 from rfl, ← Nat.two_pow_add_eq_or_of_lt hlt]
  omega

theorem hasCell_field (b : Bounds) {format : FieldFormat}
    (hfield : field.FitsAt offset) (hformat : field.format? = some format) :
    b.HasCell .buffer (field.shift * 16 ||| format.code) offset := by
  obtain ⟨hcode, hshift⟩ := bufferCell_fields field.shift format
  refine ⟨format, ?_, ?_, ?_⟩
  · rw [hcode, FieldFormat.ofCode?_code]
  · rw [hshift]
    exact hfield.shift format hformat
  · rw [FieldSpec.size_format hformat]
    exact hfield.room

theorem fieldCell_le {format : FieldFormat} (hfield : field.FitsAt offset) (hformat : field.format? = some format) :
    (field.shift * 16 ||| format.code) / 64 ≤ maxOperand ∧ offset ≤ maxOperand := by
  have hbits : format.bits ≤ 64 := by cases format <;> decide
  have hshift := hfield.shift format hformat
  have hroom := hfield.room
  obtain ⟨-, hdiv⟩ := bufferCell_fields field.shift format
  simp only [maxOperand, maxPayload] at *
  omega

theorem loadField_run (h : d.Ready) (hdst : dst < 16) (hfield : d.catalog.Fits → field.FitsAt offset) :
    Passes P d (loadField dst field offset) := by
  refine Run.bind h.inside (bufferCell_run h fun hfits => (hfield hfits).shift) ?_
  rintro cell d1 hd1 _ ⟨rfl, format, hformat, rfl⟩
  have hcell : d1.catalog.Fits → (d1.bounds d1.procedure).HasCell .buffer _ offset := fun hfits =>
    hasCell_field _ (hfield hfits) hformat
  refine emit_run hd1 (fun _ => ⟨rfl, nofun, hcell⟩) ?_
  intro _ hfits _
  obtain ⟨hcell, hoffset⟩ := fieldCell_le (hfield hfits) hformat
  exact Instr.encodable_load _ hdst hcell hoffset

theorem storeField_run (h : d.Ready) {src : Nat} (hsrc : src < 16) (hfield : d.catalog.Fits → field.FitsAt offset) :
    Passes P d (storeField src field offset) := by
  refine Run.bind h.inside (bufferCell_run h fun hfits => (hfield hfits).shift) ?_
  rintro cell d1 hd1 _ ⟨rfl, format, hformat, rfl⟩
  refine emit_run hd1 (fun _ => ⟨rfl, nofun, fun hfits => ⟨rfl, hasCell_field _ (hfield hfits) hformat⟩⟩) ?_
  intro _ hfits _
  obtain ⟨hcell, hoffset⟩ := fieldCell_le (hfield hfits) hformat
  exact Instr.encodable_store _ hsrc hcell hoffset

theorem loadText_run (h : d.Ready) (hne : d.writer.scopes ≠ []) (s : String) :
    Run P d [] 0 (fun v d' => v.Sound d') (loadText s d) := by
  refine allocBuffer_bind h.inside hne fun d1 hd1 _ => ?_
  refine Run.bind hd1 (stringLiteral_run hd1.ready s) fun index d2 hd2 _ hindex => ?_
  refine emit_bind hd2 (fun _ => ⟨rfl, nofun, fun _ => Nat.zero_le _⟩)
    (fun _ _ _ => Instr.encodable_sync _ (by decide) (Nat.zero_le _) (Nat.zero_le _) (Nat.zero_le _)) ?_
  intro d3 hd3 hext3 _
  have hindex3 := Nat.lt_of_lt_of_le hindex hext3.strings_le
  refine emit_bind hd3 (fun _ => ⟨rfl, nofun, fun _ => ⟨hindex3, Nat.zero_le _⟩⟩) ?_ ?_
  · exact fun _ _ hfits => Instr.encodable_sync _ (div_le_maxOperand hindex3 hfits.strings 16)
      (Nat.zero_le _) (Nat.zero_le _) (Nat.zero_le _)
  · exact fun d4 hd4 _ _ => Run.pure hd4 trivial

theorem slotted (h : d.Ready) (v : Variable) :
    let d' := d.modifyProcedure fun p => { p with locals := ⟨p.locals.slots.push v⟩ }
    d.Inside [] 0 d' ∧ d'.procedure.locals.size = d.procedure.locals.size + 1 := by
  intro d'
  let p : Procedure := { d.procedure with locals := ⟨d.procedure.locals.slots.push v⟩ }
  have hsize : p.locals.size = d.procedure.locals.size + 1 := Array.size_push ..
  have hadv : d.procedure.Advances p :=
    ⟨rfl, fun _ _ => getElem?_push_of_some _, Nat.le_refl _, Nat.le_refl _, Nat.le_refl _, fun _ _ => id⟩
  have hle : (d.bounds d.procedure).Le (d.bounds p) :=
    (Grows.refl d).bounds_le (hsize ▸ Nat.le_succ _) (Nat.le_refl _)
  have hsound := h.sound.procedure.mono hle
  have hproc : d'.procedure = p := procedure_modifyProcedure h.sound _
  refine ⟨h.inside.modifyProcedure hadv ?_ rfl (fun _ => rfl) h.inside.scopes, ?_⟩
  · exact ⟨hsound.arity, hsound.registers, hsound.size, hsound.top, hsound.rows⟩
  · rw [hproc, hsize]

theorem addLocal_run (h : d.Ready) (name : String) :
    Run P d [] 0 (fun slot d' => d'.procedure.locals.size = d.procedure.locals.size + 1 ∧
      (Value.cell .local slot).Sound d') (addLocal name d) := by
  obtain ⟨hinside, hsize⟩ := slotted h { name }
  exact ⟨hinside, hsize, .inl ⟨rfl, Nat.lt_of_lt_of_eq (Nat.lt_succ_self _) hsize.symm⟩⟩

theorem addHiddenLocal_run (h : d.Ready) (name : String) :
    Run P d [] 0 (fun slot d' => (Value.cell .local slot).Sound d') (addHiddenLocal name d) := by
  obtain ⟨hinside, hsize⟩ := slotted h ⟨name, true⟩
  exact ⟨hinside, .inl ⟨rfl, Nat.lt_of_lt_of_eq (Nat.lt_succ_self _) hsize.symm⟩⟩

theorem addGlobal_run (h : d.Ready) (name : String) :
    Run P d [] 0 (fun slot d' => (Value.cell .global slot).Sound d') (addGlobal name d) := by
  have hinside := h.inside.tabled (grows_globals d name)
  exact ⟨hinside, .inr ⟨rfl, Nat.lt_of_lt_of_eq (Nat.lt_succ_self _) (Array.size_push ..).symm⟩⟩

end Lowering

end BusScript
