import BusScript.Proofs.Layouts
import BusScript.Proofs.LoweredScripts

namespace BusScript

open CodeWriter Item

/-- A row of sound instructions, with jumps to places inside and a return at its end. -/
structure Item.Fills (fits : Prop) (b : Bounds) (target : Nat → Option Nat) (items : List Item)
    (cs : List Chunk) : Prop where
  rows : Rows target 0 items cs
  encodable : ∀ i, .instr i ∈ items → i.Encodable
  sound : ∀ i, .instr i ∈ items → i.Sound fits b
  goals : ∀ p l, (p, l) ∈ jumps 0 items → ∃ j, j ≤ items.length ∧ goal target p = extent (items.take j)
  inside : ∀ p l, (p, l) ∈ jumps 0 items → goal target p < extent items
  last : items.getLast? = some (.instr .ret)
  even : extent items % 2 = 0

def Body.Sound (fits : Prop) (b : Bounds) (code : Array Word) : Prop :=
  ∃ target items cs, Fills fits b target items cs ∧ code = Chunk.body cs

namespace Body.Sound

variable {fits : Prop} {b b' : Bounds} {code : Array Word}

theorem isClosed (h : Body.Sound fits b code) : Body.isClosed code = true := by
  obtain ⟨target, items, cs, hfills, rfl⟩ := h
  exact hfills.rows.isClosed hfills.encodable (fun i hi => (hfills.sound i hi).known) hfills.goals hfills.last

theorem panicCodes (h : Body.Sound fits b code) {panic : PanicCode} (hpanic : panic ∈ Body.panicCodes code) :
    ∃ a, a ≤ 9999 ∧ panic = .ofOperand a := by
  obtain ⟨target, items, cs, hfills, rfl⟩ := h
  obtain ⟨a, x, y, z, hmem, rfl⟩ := hfills.rows.mem_panicCodes hfills.encodable hpanic
  exact ⟨a, (hfills.sound _ hmem).panics a x y z rfl, rfl⟩

theorem checked (h : Body.Sound fits b code) (hfits : fits) {image : Image} {f : FunctionInfo}
    (hle : b.Le (image.bounds f)) : Image.Checked image f code := by
  obtain ⟨target, items, cs, hfills, rfl⟩ := h
  exact Image.checked_of_rows hfills.rows hfills.encodable
    (fun i hi => ((hfills.sound i hi).allowed hfits).mono hle) hfills.inside

end Body.Sound

namespace CodeWriter

variable {w : CodeWriter} {items : List Item}

theorem getLast?_padding {front : List Item} (h : items = front ++ [.instr .ret]) :
    (items ++ padding items).getLast? = some (.instr .ret) := by
  rw [padding]
  split
  · rw [List.getLast?_append]
    rfl
  · simp_all

/-- Code with a return at its end, whose labels are all bound in front of that, is patched into a sound
body. -/
theorem Lays.fills {fits : Prop} {b : Bounds} {front : List Item} (h : w.Lays items)
    (hitems : items = front ++ [.instr .ret]) (hsound : ∀ i, .instr i ∈ items → i.Sound fits b)
    (hbound : ∀ l, l < w.labels.size → w.offset? l ≠ none)
    (hends : ∀ l o, w.offset? l = some o → o ≤ extent front)
    (hnear : ∀ p l t, (p, l) ∈ jumps 0 items → assigned w.labels.toList p = some t → (ahead p t).natAbs ≤ maxJump) :
    ∃ cs, Fills fits b (assigned w.labels.toList) (items ++ padding items) cs := by
  have htarget : ∀ p l, (p, l) ∈ jumps 0 (items ++ padding items) →
      ∃ label o, w.labels[l]? = some label ∧ label.offset = some o ∧ goal (assigned w.labels.toList) p = o := by
    intro p l hmem
    rw [jumps_padding] at hmem
    have hlt := h.known p l hmem
    obtain ⟨label, hlabel, hoffset⟩ := Draft.exists_label hlt
    obtain ⟨o, ho⟩ := Option.ne_none_iff_exists'.1 (hbound l hlt)
    refine ⟨label, o, hlabel, hoffset.trans ho, ?_⟩
    rw [goal, h.assigned_eq hmem hlabel, hoffset, ho, Option.getD_some]
  obtain ⟨cs, hrows⟩ := h.exists_rows hnear
  refine ⟨cs, hrows, h.encodable_padded, fun i hi => ?_, fun p l hmem => ?_, fun p l hmem => ?_, getLast?_padding hitems,
    extent_padding _⟩
  · rcases mem_padded hi with hi | rfl
    · exact hsound i hi
    · exact Instr.sound_ret _ _
  · obtain ⟨label, o, hlabel, ho, hgoal⟩ := htarget p l hmem
    rw [hgoal]
    exact h.bound_append _ hlabel ho
  · obtain ⟨label, o, hlabel, ho, hgoal⟩ := htarget p l hmem
    have hle : o ≤ extent front := hends l o (by rw [offset?, hlabel, Option.bind_some, ho])
    have hret : extent [.instr .ret] = 1 := rfl
    rw [hgoal, extent_append, hitems, extent_append, hret]
    omega

end CodeWriter

namespace Procedure

variable {fits : Prop} {b : Bounds} {p : Procedure}

structure Patched (p p' : Procedure) : Prop where
  name : p'.name = p.name
  numParams : p'.numParams = p.numParams
  locals : p'.locals = p.locals
  maxRegs : p'.writer.maxRegs = p.writer.maxRegs
  even : p'.writer.code.size % 2 = 0
  size : p'.writer.code.size ≤ p.writer.code.size + 1

theorem finalize_cases (hp : p.Sound fits b) (strict : Bool) (hfin : strict = true → p.Finished) :
    (∃ p', p.finalize strict = .ok p' ∧ p.Patched p' ∧ (strict = true → Body.Sound fits b p'.writer.code)) ∨
      ∃ n, p.finalize strict = .error (.abort (.jumpTooFar n)) ∧ maxJump < p.writer.code.size := by
  obtain ⟨items, hlays, hitems, hends⟩ := hp.rows
  have hbound : strict = true → ∀ label ∈ p.writer.labels.toList, label.offset ≠ none := by
    intro hstrict label hmem
    obtain ⟨l, hl⟩ := List.mem_iff_getElem?.1 hmem
    rw [Array.getElem?_toList] at hl
    have hne := (hfin hstrict).bound l (Array.getElem?_eq_some_iff.1 hl).1
    rwa [offset?, hl, Option.bind_some] at hne
  have hout := finalize_outcome hlays strict
  rw [finalize]
  revert hout
  cases CodeWriter.finalize strict p.writer with
  | error stop w =>
    rintro ⟨label, hlabel, ⟨hstrict, hnone, -⟩ | ⟨⟨n, rfl⟩, t, ht, q, hq, hfar⟩⟩
    · exact absurd hnone (hbound hstrict label hlabel)
    · exact .inr ⟨n, rfl, Nat.lt_of_lt_of_le hfar (hlays.near hlabel hq ht)⟩
  | ok u w =>
    rintro ⟨hw, hcode, hnear, -⟩
    have hsize : w.code.size = extent (items ++ padding items) := by
      rw [← Array.length_toList, hcode, length_render]
    have hlen : p.writer.code.size = extent items := hlays.location_eq
    have hregs : w.maxRegs = p.writer.maxRegs := by
      rw [hw, closeRun]
      split <;> rfl
    refine .inl ⟨_, rfl, ⟨rfl, rfl, rfl, hregs, hsize ▸ extent_padding items, ?_⟩, fun hstrict => ?_⟩
    · change w.code.size ≤ _
      rw [hsize, hlen, extent_append, padding]
      split
      · exact Nat.le_refl _
      · exact Nat.le_succ _
    · have hall := (hfin hstrict).bound
      obtain ⟨front, hfront, hbefore⟩ := hends (hall retLabel hp.size)
      obtain ⟨cs, hfills⟩ := hlays.fills hfront hitems hall hbefore hnear
      refine ⟨_, _, cs, hfills, Array.toList_inj.1 ?_⟩
      rw [Chunk.body]
      exact hcode.trans hfills.rows.words.symm

end Procedure

theorem Except.mapM_cases {ε α β : Type} (f : α → Except ε β) (xs : List α) :
    (∃ ys, xs.mapM f = .ok ys ∧ ys.length = xs.length ∧
        ∀ (i : Nat) x y, xs[i]? = some x → ys[i]? = some y → f x = .ok y) ∨
      ∃ x ∈ xs, ∃ e, f x = .error e ∧ xs.mapM f = .error e := by
  induction xs with
  | nil => exact .inl ⟨[], rfl, rfl, nofun⟩
  | cons x xs ih =>
    rw [List.mapM_cons]
    cases hx : f x with
    | error e => exact .inr ⟨x, List.mem_cons_self, e, hx, rfl⟩
    | ok y =>
      rcases ih with ⟨ys, hys, hlen, hget⟩ | ⟨x', hx', e, he, hxs⟩
      · rw [hys]
        refine .inl ⟨y :: ys, rfl, by rw [List.length_cons, hlen, List.length_cons], fun i x' y' hx' hy' => ?_⟩
        grind
      · rw [hxs]
        exact .inr ⟨x', List.mem_cons_of_mem _ hx', e, he, rfl⟩

namespace Draft

variable {d d' : Draft}

/-- A draft whose procedures are patched: unless there are problems, every body is sound. -/
structure Complete (d : Draft) : Prop where
  main : mainIndex < d.procedures.size
  even : ∀ p ∈ d.procedures, p.writer.code.size % 2 = 0
  arity : ∀ p ∈ d.procedures, p.numParams ≤ Lowering.maxParams
  bodies : d.findings.count = 0 → ∀ p ∈ d.procedures, Body.Sound d.catalog.Fits (d.bounds p) p.writer.code ∧
    p.numParams ≤ p.locals.size ∧ p.writer.maxRegs ≤ Lowering.maxSavedRegs

structure Patched (d d' : Draft) : Prop where
  rest : d' = { d with procedures := d'.procedures }
  size : d'.procedures.size = d.procedures.size
  procedures : ∀ (i : Nat) (p' : Procedure), d'.procedures[i]? = some p' →
    ∃ p, d.procedures[i]? = some p ∧ p.finalize d.isClean = .ok p' ∧ p.Patched p'

theorem Patched.bounds_eq (h : d.Patched d') {p p' : Procedure} (hp : p.Patched p') : d'.bounds p' = d.bounds p := by
  have hcallee : ∀ i : Nat, d'.procedures[i]?.map (·.numParams) = d.procedures[i]?.map (·.numParams) := by
    intro i
    by_cases hi : i < d'.procedures.size
    · obtain ⟨q, hq, -, hpatched⟩ := h.procedures i _ (Array.getElem?_eq_getElem hi)
      rw [hq, Array.getElem?_eq_getElem hi, Option.map_some, Option.map_some, hpatched.numParams]
    · have hle := Nat.le_of_not_lt hi
      rw [Array.getElem?_eq_none hle, Array.getElem?_eq_none (h.size ▸ hle)]
  rw [bounds, bounds, hp.locals, hp.maxRegs, funext hcallee, h.rest]

def finalize (d : Draft) : Except Stop Draft := do
  let procedures ← d.procedures.toList.mapM (Procedure.finalize d.isClean)
  return { d with procedures := procedures.toArray }

theorem isClean_iff : d.isClean = true ↔ d.findings.count = 0 := beq_iff_eq

theorem Whole.finalize_cases (h : d.Whole) : (∃ d', d.finalize = .ok d' ∧ d'.Complete ∧ d.Patched d') ∨
      ∃ n, d.finalize = .error (.abort (.jumpTooFar n)) ∧ ∃ p ∈ d.procedures, maxJump < p.writer.code.size := by
  have hfinalize : ∀ (i : Nat) (p : Procedure), d.procedures[i]? = some p → _ := fun i p hp =>
    Procedure.finalize_cases (h.sound.procedures i p hp) d.isClean
      fun hclean => (h.finished (isClean_iff.1 hclean) p (Array.mem_of_getElem? hp)).1
  rw [finalize]
  rcases Except.mapM_cases (Procedure.finalize d.isClean) d.procedures.toList with
    ⟨ps, hps, hlen, hget⟩ | ⟨p, hp, stop, hstop, hps⟩
  · rw [hps]
    refine .inl ⟨_, rfl, ?_⟩
    have hbodies : ∀ (i : Nat) (p' : Procedure), ps.toArray[i]? = some p' → ∃ p, d.procedures[i]? = some p ∧
        p.finalize d.isClean = .ok p' ∧ p.Patched p' ∧
        (d.isClean = true → Body.Sound d.catalog.Fits (d.bounds p) p'.writer.code) := by
      intro i p' hp'
      rw [List.getElem?_toArray] at hp'
      have hlt : i < d.procedures.size := by
        have hlt := (List.getElem?_eq_some_iff.1 hp').1
        rwa [hlen, Array.length_toList] at hlt
      have hp := Array.getElem?_eq_getElem hlt
      have hok := hget i _ p' (Array.getElem?_toList.trans hp) hp'
      rcases hfinalize i _ hp with ⟨q, hq, hpatched, hbody⟩ | ⟨n, hq, -⟩
      · rw [hok] at hq
        cases hq
        exact ⟨_, hp, hok, hpatched, hbody⟩
      · rw [hok] at hq
        cases hq
    have hpatched : d.Patched { d with procedures := ps.toArray } := by
      refine ⟨rfl, ?_, fun i p' hp' => ?_⟩
      · rw [List.size_toArray, hlen, Array.length_toList]
      · grind
    refine ⟨⟨?_, fun p' hp' => ?_, fun p' hp' => ?_, fun hclean p' hp' => ?_⟩, hpatched⟩
    · rw [hpatched.size]
      exact mainIndex_lt h.sound
    · obtain ⟨i, hi⟩ := Array.mem_iff_getElem?.1 hp'
      obtain ⟨p, -, -, hone, -⟩ := hbodies i p' hi
      exact hone.even
    · obtain ⟨i, hi⟩ := Array.mem_iff_getElem?.1 hp'
      obtain ⟨p, hp, -, hone, -⟩ := hbodies i p' hi
      exact Nat.le_trans (Nat.le_of_eq hone.numParams) (h.sound.procedures i p hp).arity
    · obtain ⟨i, hi⟩ := Array.mem_iff_getElem?.1 hp'
      obtain ⟨p, hp, -, hone, hbody⟩ := hbodies i p' hi
      obtain ⟨hfin, hregs⟩ := h.finished hclean p (Array.mem_of_getElem? hp)
      rw [hpatched.bounds_eq hone, hone.numParams, hone.locals, hone.maxRegs]
      exact ⟨hbody (isClean_iff.2 hclean), hfin.params, hregs⟩
  · rw [hps]
    obtain ⟨i, hi⟩ := List.mem_iff_getElem?.1 hp
    rw [Array.getElem?_toList] at hi
    rcases hfinalize i p hi with ⟨q, hq, -⟩ | ⟨n, hq, hfar⟩
    · rw [hstop] at hq
      cases hq
    · rw [hstop] at hq
      cases hq
      exact .inr ⟨n, rfl, p, Array.mem_of_getElem? hi, hfar⟩

end Draft

def Procedure.table (p : Procedure) : FunctionTable := ⟨p.writer.code, p.locals.size, p.writer.maxRegs, p.numParams⟩

namespace Draft

variable {d d' : Draft} {o : CompileOptions} {P : Prop}

def lowered (c : Catalog) (o : CompileOptions) (script : List Stmt) : Draft :=
  match Lowering.wholeScript script (Draft.new c o) with
  | .ok _ d => d
  | .error _ d => d

theorem draftOf_of_ok {c : Catalog} {script : List Stmt} {u : Unit}
    (h : Lowering.wholeScript script (Draft.new c o) = .ok u d) : draftOf c o script = d.finalize := by
  rw [Lowering.wholeScript] at h
  rw [draftOf, h]
  rfl

theorem draftOf_of_error {c : Catalog} {script : List Stmt} {stop : Stop}
    (h : Lowering.wholeScript script (Draft.new c o) = .error stop d) : draftOf c o script = .error stop := by
  rw [Lowering.wholeScript] at h
  rw [draftOf, h]
  rfl

theorem draftOf_cases (c : Catalog) (o : CompileOptions) (script : List Stmt) (hlimits : P → Stmt.allWithinLimits script = true) :
    (∃ d, draftOf c o script = .ok d ∧ d.Complete ∧ d.catalog = c ∧ (lowered c o script).Patched d) ∨
      ∃ defect, draftOf c o script = .error (.abort defect) ∧ defect.IsLimit c.Fits ∧
        (P → c.Fits → ¬ (lowered c o script).Fits) := by
  have hout := Lowering.wholeScript_outcome (c := c) (o := o) hlimits
  cases hwhole : Lowering.wholeScript script (Draft.new c o) with
  | error stop d =>
    rw [hwhole] at hout
    obtain ⟨⟨defect, rfl, hlimit⟩, hstop⟩ := hout
    rw [lowered, hwhole]
    exact .inr ⟨defect, draftOf_of_error hwhole, hlimit, hstop⟩
  | ok u d =>
    rw [hwhole] at hout
    obtain ⟨hd, hcatalog⟩ := hout
    rw [lowered, hwhole, draftOf_of_ok hwhole]
    rcases hd.finalize_cases with ⟨d', hok, hcomplete, hpatched⟩ | ⟨n, herror, p, hp, hfar⟩
    · refine .inl ⟨d', hok, hcomplete, ?_, hpatched⟩
      rw [hpatched.rest]
      exact hcatalog
    · exact .inr ⟨_, herror, trivial, fun _ _ hfits => Nat.not_lt.2 (hfits.bodies p hp).2 hfar⟩

theorem tables_functions (d : Draft) : d.tables.functions = d.procedures.toList.map Procedure.table := rfl

theorem getElem?_tables {i : Nat} {p : Procedure} (hp : d.procedures[i]? = some p) :
    d.tables.functions[i]? = some p.table := by
  rw [tables_functions, List.getElem?_map, Array.getElem?_toList, hp, Option.map_some]

theorem exists_of_table {f : FunctionTable} (hf : f ∈ d.tables.functions) : ∃ p ∈ d.procedures, f = p.table := by
  rw [tables_functions] at hf
  grind

theorem Complete.aligned (h : d.Complete) : d.tables.Aligned := by
  intro f hf
  obtain ⟨p, hp, rfl⟩ := exists_of_table hf
  exact h.even p hp

theorem exists_of_loaded {i : Nat} {g : FunctionInfo} (hg : d.tables.loaded.functions[i]? = some g) :
    ∃ p s, d.procedures[i]? = some p ∧ g = ImageTables.info s p.table ∧ d.tables.loaded.body g = p.writer.code := by
  obtain ⟨f, s, hf, rfl, hbody⟩ := ImageTables.exists_of_loaded hg
  rw [tables_functions, List.getElem?_map, Array.getElem?_toList] at hf
  obtain ⟨p, hp, rfl⟩ := Option.map_eq_some_iff.1 hf
  exact ⟨p, s, hp, rfl, hbody⟩

theorem Complete.isClosed (h : d.Complete) (hclean : d.findings.count = 0) : d.tables.loaded.isClosed = true := by
  rw [Image.isClosed, Bool.and_eq_true, decide_eq_true_iff]
  refine ⟨?_, List.all_eq_true.2 fun g hg => ?_⟩
  · rw [ImageTables.size_loaded_functions, tables_functions, List.length_map, Array.length_toList]
    exact h.main
  · obtain ⟨i, hi⟩ := Array.mem_iff_getElem?.1 (Array.mem_toList_iff.1 hg)
    obtain ⟨p, s, hp, -, hbody⟩ := exists_of_loaded hi
    rw [hbody]
    exact (h.bodies hclean p (Array.mem_of_getElem? hp)).1.isClosed

theorem Complete.panicCodes (h : d.Complete) (hclean : d.findings.count = 0) {panic : PanicCode}
    (hpanic : panic ∈ d.tables.loaded.panicCodes) : ∃ a, a ≤ 9999 ∧ panic = .ofOperand a := by
  obtain ⟨g, hg, hmem⟩ := List.mem_flatMap.1 hpanic
  obtain ⟨i, hi⟩ := Array.mem_iff_getElem?.1 (Array.mem_toList_iff.1 hg)
  obtain ⟨p, s, hp, -, hbody⟩ := exists_of_loaded hi
  rw [hbody] at hmem
  exact (h.bodies hclean p (Array.mem_of_getElem? hp)).1.panicCodes hmem

theorem bounds_le_loaded (hglobals : d.globals.size ≤ 65535) (hlocals : ∀ p ∈ d.procedures, p.locals.size ≤ 65535)
    (hparams : ∀ p ∈ d.procedures, p.numParams ≤ p.locals.size) {p : Procedure} (hp : p ∈ d.procedures)
    (hregs : p.writer.maxRegs ≤ Lowering.maxSavedRegs) (s : Nat) :
    (d.bounds p).Le (d.tables.loaded.bounds (ImageTables.info s p.table)) := by
  have hmod : ∀ n : Nat, n ≤ 65535 → n ≤ n % 65536 := fun n hn => by omega
  refine ⟨hmod _ (hlocals p hp), Nat.le_min.2 ⟨Nat.le_refl _, hregs⟩, hmod _ hglobals, ?_, ?_, ?_, fun i n hn => ?_⟩
  · exact Nat.le_of_eq (Array.length_toList.symm.trans List.size_toArray.symm)
  · exact Nat.le_of_eq (by simp [bounds, Image.bounds, ImageTables.loaded, tables])
  · exact Nat.le_of_eq (by simp [bounds, Image.bounds, ImageTables.loaded, tables])
  · obtain ⟨q, hq, rfl⟩ := Option.map_eq_some_iff.1 hn
    obtain ⟨s', hs', -⟩ := ImageTables.loaded_function (getElem?_tables hq)
    have hmem := Array.mem_of_getElem? hq
    refine ⟨q.locals.size % 65536, congrArg (Option.map _) hs', ?_⟩
    exact Nat.le_trans (hparams q hmem) (hmod _ (hlocals q hmem))

theorem Complete.checkImage (h : d.Complete) (hclean : d.findings.count = 0) (hfits : d.catalog.Fits)
    (hglobals : d.globals.size ≤ 65535) (hlocals : ∀ p ∈ d.procedures, p.locals.size ≤ 65535)
    (hsize : d.tables.image.size < 2 ^ 32) : checkImage d.tables.image = .ok () := by
  rw [BusScript.checkImage, ImageTables.load_image h.aligned hsize]
  refine ImageTables.verify_loaded (fun f hf => ?_) fun g hg => ?_
  · obtain ⟨p, hp, rfl⟩ := exists_of_table hf
    exact Nat.ne_of_gt (Body.size_pos_of_isClosed (h.bodies hclean p hp).1.isClosed)
  · obtain ⟨i, hi⟩ := Array.mem_iff_getElem?.1 hg
    obtain ⟨p, s, hp, rfl, hbody⟩ := exists_of_loaded hi
    have hmem := Array.mem_of_getElem? hp
    obtain ⟨hsound, -, hregs⟩ := h.bodies hclean p hmem
    rw [hbody]
    exact hsound.checked hfits (bounds_le_loaded hglobals hlocals (fun q hq => (h.bodies hclean q hq).2.1) hmem hregs s)

end Draft

section

variable {catalog : Catalog} {options : CompileOptions} {script : List Stmt} {d : Draft}

namespace Draft

theorem complete_of_draftOf (h : draftOf catalog options script = .ok d) :
    d.Complete ∧ d.catalog = catalog ∧ (lowered catalog options script).Patched d := by
  rcases draftOf_cases catalog options script False.elim with ⟨d', hd', hrest⟩ | ⟨defect, herror, -⟩
  · rw [h] at hd'
    cases hd'
    exact hrest
  · rw [h] at herror
    cases herror

theorem finalize_under (d : Draft) (options : CompileOptions) (found : Findings)
    (hcount : found.count = d.findings.count) :
    (d.under options found).finalize = d.finalize.map (·.under options found) := by
  have hclean : (d.under options found).isClean = d.isClean := congrArg (· == 0) hcount
  rw [finalize, finalize, hclean]
  change (do let procedures ← d.procedures.toList.mapM (Procedure.finalize d.isClean); _) = _
  cases d.procedures.toList.mapM (Procedure.finalize d.isClean) <;> rfl

/-- Whatever the options, a script has the same problems and, but for those, the same draft. -/
theorem draftOf_eq (catalog : Catalog) (script : List Stmt) :
    ∃ ps, ∀ options, draftOf catalog options script =
      (draftOf catalog {} script).map (·.under options (Findings.addAll options.maxErrors {} ps)) := by
  obtain ⟨ps, hps⟩ := (Lowering.fair_wholeScript script).same (new catalog {})
  refine ⟨ps, fun options => ?_⟩
  have hrun : Lowering.wholeScript script (new catalog options) = _ := hps options {}
  have hown : Lowering.wholeScript script (new catalog {}) = _ := hps {} {}
  cases hwhole : Lowering.wholeScript script (new catalog {}) with
  | error stop d =>
    rw [hwhole] at hrun
    rw [draftOf_of_error hwhole, draftOf_of_error hrun]
    rfl
  | ok u d =>
    rw [hwhole] at hrun hown
    have hcount : d.findings.count = ps.length := by
      rw [EStateM.Result.ok.inj hown |>.2]
      exact (Findings.count_addAll 0 {} ps).trans (Nat.zero_add _)
    rw [draftOf_of_ok hwhole, draftOf_of_ok hrun]
    refine finalize_under d options _ ?_
    rw [Findings.count_addAll, hcount]
    exact Nat.zero_add _

/-- A script with its draft under given options: the draft under any other options. -/
theorem exists_found (h : draftOf catalog options script = .ok d) :
    ∃ ps, ∀ options', draftOf catalog options' script =
      .ok (d.under options' (Findings.addAll options'.maxErrors {} ps)) := by
  obtain ⟨ps, hps⟩ := draftOf_eq catalog script
  refine ⟨ps, fun options' => ?_⟩
  rw [hps] at h
  cases hdraft : draftOf catalog {} script with
  | error stop =>
    rw [hdraft] at h
    cases h
  | ok d0 =>
    rw [hdraft] at h
    cases h
    rw [hps, hdraft]
    rfl

theorem draftOf_of_clean (h : draftOf catalog options script = .ok d) (hclean : d.findings.count = 0)
    (options' : CompileOptions) : draftOf catalog options' script = .ok { d with options := options' } := by
  obtain ⟨ps, hps⟩ := exists_found h
  have hown := h.symm.trans (hps options)
  cases ps with
  | nil =>
    rw [hps, Except.ok.inj hown]
    rfl
  | cons p rest =>
    rw [Except.ok.inj hown] at hclean
    have hcount := Findings.count_addAll options.maxErrors {} (p :: rest)
    exact absurd (hcount.symm.trans hclean) (Nat.succ_ne_zero _)

theorem options_of_draftOf (h : draftOf catalog options script = .ok d) : d.options = options := by
  obtain ⟨ps, hps⟩ := exists_found h
  rw [Except.ok.inj (h.symm.trans (hps options))]
  rfl

end Draft

/-- The check of the image is the only way in which options decide whether a script is compiled. -/
theorem compile_of_draft (hd : draftOf catalog options script = .ok d) :
    compile catalog options script = .ok (d.compiled d.tables.image) ∧
        ((options.verify = true ∧ d.findings.count = 0) → checkImage d.tables.image = .ok ()) ∨
      (options.verify = true ∧ d.findings.count = 0) ∧ ∃ e, checkImage d.tables.image = .error e ∧
        compile catalog options script = .error (.abort (.rejectedImage e)) := by
  have hcheck : (d.isClean && d.options.verify) = true ↔ options.verify = true ∧ d.findings.count = 0 := by
    rw [Bool.and_eq_true, Draft.isClean_iff, Draft.options_of_draftOf hd, and_comm]
  by_cases hverify : options.verify = true ∧ d.findings.count = 0
  · cases himage : checkImage d.tables.image with
    | ok u =>
      refine .inl ⟨?_, fun _ => rfl⟩
      simp only [compile, hd, bind, Except.bind, hcheck.2 hverify, if_true, himage]
      rfl
    | error e =>
      refine .inr ⟨hverify, e, rfl, ?_⟩
      simp only [compile, hd, bind, Except.bind, hcheck.2 hverify, if_true, himage]
      rfl
  · refine .inl ⟨?_, fun h => absurd h hverify⟩
    simp only [compile, hd, bind, Except.bind, mt hcheck.1 hverify]
    rfl

theorem exists_draft_of_compile {compiled : Compiled} (h : compile catalog options script = .ok compiled) :
    ∃ d : Draft, draftOf catalog options script = .ok d ∧ d.Complete ∧ compiled = d.compiled d.tables.image := by
  cases hd : draftOf catalog options script with
  | error stop =>
    rw [compile, hd] at h
    cases h
  | ok d =>
    refine ⟨d, rfl, (Draft.complete_of_draftOf hd).1, ?_⟩
    rcases compile_of_draft hd with ⟨hok, -⟩ | ⟨-, e, -, herror⟩
    · rw [h] at hok
      exact Except.ok.inj hok
    · rw [h] at herror
      cases herror

end

end BusScript
