import BusScript.Image.Layout
import BusScript.Proofs.Verified
import Mathlib

/-!
Images are read without stepping outside them. The loader and the verifier are run with a guard on every access and
every sum: a read of bytes or words that are not there halts, and so does a sum that does not fit its type. On images
short enough for 32-bit offsets no guard is ever hit, whatever the bytes are, and the results are those of the loader
and the verifier without guards.
-/

namespace BusScript

/-- Why reading an image stops when everything is guarded. -/
inductive Halt where
  /-- Bytes or words are asked for that are not there. -/
  | outOfRange (start stop : Nat)
  /-- A sum does not fit its type. -/
  | overflow (sum : Nat)
  | rejected (error : ImageError)
  deriving DecidableEq, Repr

abbrev Guarded := Except Halt

def Image.extentAt (bytes : Bytes) (offset : Nat) : Extent := ⟨bytes.natAt offset 4, bytes.natAt (offset + 4) 4⟩

namespace Guarded

def reject {α : Type} (error : ImageError) : Guarded α := .error (.rejected error)

def sum (bits a b : Nat) : Guarded Nat :=
  if a + b < 2 ^ bits then .ok (a + b) else .error (.overflow (a + b))

def number (bytes : Bytes) (offset width : Nat) : Guarded Nat :=
  if offset + width ≤ bytes.size then .ok (bytes.natAt offset width) else .error (.outOfRange offset (offset + width))

def slice {α : Type} (xs : Array α) (start stop : Nat) : Guarded (Array α) :=
  if start ≤ stop ∧ stop ≤ xs.size then .ok (xs.extract start stop) else .error (.outOfRange start stop)

/-! ### Loading -/

def stop (e : Extent) : Guarded Nat := sum 32 e.start e.len

def contains (outer inner : Extent) : Guarded Bool :=
  if outer.start ≤ inner.start then do
    let innerStop ← stop inner
    let outerStop ← stop outer
    return decide (innerStop ≤ outerStop)
  else return false

/-- Steps of `size` from the start of a section to its end. -/
def records (e : Extent) (size : Nat) : Guarded (List Nat) := do
  let stop ← stop e
  return (List.range ((stop - e.start + size - 1) / size)).map fun i => e.start + size * i

/-- The end of an extent is tested before it is used. -/
def readExtent (bytes : Bytes) (offset : Nat) (part : ImagePart) : Guarded Extent := do
  let start ← number bytes offset 4
  let len ← number bytes (offset + 4) 4
  if start + len < 2 ^ 32 ∧ start + len ≤ bytes.size then return ⟨start, len⟩
  else reject (.outOfBounds part start len)

def readSection (bytes : Bytes) (name : SectionName) : Guarded Extent := do
  let extent ← readExtent bytes (Image.headerOffset name) (.table name)
  if extent.start % 4 ≠ 0 then reject (.misaligned name extent.start)
  else
    match name.recordSize? with
    | some record =>
      if extent.len % record ≠ 0 then reject (.recordSize name extent.len record) else return extent
    | none => return extent

def readSections (bytes : Bytes) : Guarded Sections := do
  let functionDesc ← readSection bytes .functionDesc
  let functionCode ← readSection bytes .functionCode
  let floatLiterals ← readSection bytes .floatLiterals
  let roles ← readSection bytes .roles
  let stringDesc ← readSection bytes .stringDesc
  let stringData ← readSection bytes .stringData
  return { functionDesc, functionCode, floatLiterals, roles, stringDesc, stringData }

def readFunction (bytes : Bytes) (code : Extent) (index offset : Nat) : Guarded FunctionInfo := do
  let body ← readExtent bytes offset .function
  let inside ← contains code body
  if (!inside || body.start % 2 ≠ 0) = true then reject (.badFunction index (.outsideCode body.start body.len))
  else
    let packed ← number bytes (offset + 10) 1
    let numLocals ← number bytes (offset + 8) 2
    let flags ← number bytes (offset + 11) 1
    return { code := body, numLocals, numRegs := packed % 16, numParams := packed / 16, flags }

def readString (bytes : Bytes) (data : Extent) (index offset : Nat) : Guarded Bytes := do
  let text ← readExtent bytes offset .string
  let len ← sum 32 text.len 1
  let inside ← contains data ⟨text.start, len⟩
  if (!inside) = true then reject (.badString index .outsideData)
  else
    let textStop ← stop text
    let last ← number bytes textStop 1
    if last ≠ 0 then reject (.badString index .unterminated) else slice bytes text.start textStop

def readEach {α : Type} (read : Nat → Nat → Guarded α) (offsets : List Nat) : Guarded (List α) :=
  offsets.zipIdx.mapM fun (offset, index) => read index offset

def readWords (bytes : Bytes) : Guarded (List Word) :=
  (List.range (bytes.size / 2)).mapM fun i => do
    let bits ← number bytes (2 * i) 2
    return ⟨bits.toUInt16⟩

def load (bytes : Bytes) : Guarded Image := do
  if bytes.size < Image.sectionsStart then reject (.tooShort bytes.size)
  else
    let first ← number bytes 0 4
    let second ← number bytes 4 4
    if first ≠ Image.magic0 ∨ second ≠ Image.magic1 then reject (.badMagic first second)
    else
      let numGlobals ← number bytes 8 2
      let sections ← readSections bytes
      let functionOffsets ← records sections.functionDesc 16
      let functions ← readEach (readFunction bytes sections.functionCode) functionOffsets
      let floatOffsets ← records sections.floatLiterals 8
      let floats ← floatOffsets.mapM (number bytes · 8)
      let roleOffsets ← records sections.roles 8
      let roles ← roleOffsets.mapM (number bytes · 4)
      let stringOffsets ← records sections.stringDesc 8
      let strings ← readEach (readString bytes sections.stringData) stringOffsets
      let words ← readWords bytes
      return {
        numGlobals
        sections
        functions := functions.toArray
        roles := (roles.map (·.toUInt32)).toArray
        floats := (floats.map fun bits => Number.mk bits.toUInt64).toArray
        strings := strings.toArray
        words := words.toArray }

/-! ### Verifying -/

def body (image : Image) (f : FunctionInfo) : Guarded (Array Word) := do
  let codeStop ← stop f.code
  slice image.words (f.code.start / 2) (codeStop / 2)

def operands (p : Operands) : Guarded Operands :=
  if p.a < 2 ^ 32 ∧ p.b < 2 ^ 32 ∧ p.c < 2 ^ 32 ∧ p.d < 2 ^ 32 then .ok p
  else .error (.overflow (max (max p.a p.b) (max p.c p.d)))

/-- Sums are made of the target of a jump, as a signed number of 64 bits, and of the end of a field. -/
def checkWords (image : Image) (index : Nat) (f : FunctionInfo) (length : Nat) :
    Nat → Option Operands → List Word → Guarded Unit
  | _, none, [] => return ()
  | _, some _, [] => reject (.badInstruction index (length - 1) .danglingPrefix)
  | pc, collected, w :: rest =>
    match (collected.getD {}).absorb? w with
    | some p => do
      let p ← operands p
      checkWords image index f length (pc + 1) (some p) rest
    | none => do
      let p ← operands ((collected.getD {}).resolve w)
      let next ← sum 63 pc 1
      let _ ← sum 63 next p.b
      let _ ← sum 64 p.c 8
      match Image.checkWord image f length pc w p with
      | .error flaw => reject (.badInstruction index pc flaw)
      | .ok () => checkWords image index f length next none rest

def checkFunctions (image : Image) : Nat → Nat → List FunctionInfo → Guarded Nat
  | next, _, [] => return next
  | next, index, f :: rest =>
    if f.code.start ≠ next then reject (.badFunction index (.misplaced f.code.start next))
    else if f.code.len = 0 then reject (.badFunction index .empty)
    else if 16 < f.numRegs then reject (.badFunction index (.tooManyRegs f.numRegs))
    else do
      let next ← stop f.code
      let words ← body image f
      checkWords image index f words.size 0 none words.toList
      checkFunctions image next (index + 1) rest

def checkOrder (sections : Sections) : Nat → List SectionName → Guarded Unit
  | _, [] => return ()
  | next, name :: rest =>
    if (sections.get name).start = next then do
      let next ← stop (sections.get name)
      checkOrder sections next rest
    else reject (.sectionOrder name)

def verify (image : Image) : Guarded Unit := do
  checkOrder image.sections Image.sectionsStart SectionName.all
  let code := image.sections.functionCode
  let last ← checkFunctions image code.start 0 image.functions.toList
  let codeStop ← stop code
  if last ≠ codeStop then reject (.sectionOrder .functionCode) else return ()

/-! ### No guard is hit -/

/-- A guarded computation that hits no guard and gives what the one without guards gives. -/
def Agrees {α : Type} (x : Guarded α) (y : Except ImageError α) : Prop := x = y.mapError .rejected

section

variable {α β : Type} {x : Guarded α} {y : Except ImageError α}

theorem Agrees.pure (a : α) : Agrees (Pure.pure a) (Pure.pure a) := rfl

theorem Agrees.reject (e : ImageError) : Agrees (reject e : Guarded α) (throw e) := rfl

theorem Agrees.bind {f : α → Guarded β} {g : α → Except ImageError β} (h : Agrees x y)
    (hf : ∀ a, y = .ok a → Agrees (f a) (g a)) : Agrees (x >>= f) (y >>= g) := by
  cases y with
  | error e =>
    rw [Agrees] at h
    rw [h]
    rfl
  | ok a =>
    rw [Agrees] at h
    rw [h]
    exact hf a rfl

theorem Agrees.guard {z : Guarded β} {b : β} {f : β → Guarded α} (hz : z = .ok b) (h : Agrees (f b) y) :
    Agrees (z >>= f) y := by
  rw [hz]
  exact h

theorem Agrees.ite {c : Prop} [Decidable c] {x' : Guarded α} {y' : Except ImageError α} (h : c → Agrees x y)
    (h' : ¬c → Agrees x' y') : Agrees (if c then x else x') (if c then y else y') := by grind

theorem Agrees.mapM {f : α → Guarded β} {g : α → Except ImageError β} {l : List α}
    (h : ∀ a ∈ l, Agrees (f a) (g a)) : Agrees (l.mapM f) (l.mapM g) := by
  induction l with
  | nil => exact .pure _
  | cons a l ih =>
    rw [List.mapM_cons, List.mapM_cons]
    refine (h a List.mem_cons_self).bind fun b _ => ?_
    exact (ih fun a ha => h a (List.mem_cons_of_mem _ ha)).bind fun bs _ => .pure _

theorem mapM_eq {f : α → Guarded β} {g : α → β} {l : List α} (h : ∀ a ∈ l, f a = .ok (g a)) :
    l.mapM f = .ok (l.map g) := by
  induction l with
  | nil => rfl
  | cons a l ih =>
    rw [List.mapM_cons, h a List.mem_cons_self, ih fun a ha => h a (List.mem_cons_of_mem _ ha)]
    rfl

theorem sum_eq {bits a b : Nat} (h : a + b < 2 ^ bits) : sum bits a b = .ok (a + b) := if_pos h

theorem number_eq {bytes : Bytes} {offset width : Nat} (h : offset + width ≤ bytes.size) :
    number bytes offset width = .ok (bytes.natAt offset width) := if_pos h

theorem slice_eq {xs : Array α} {start stop : Nat} (h : start ≤ stop) (h' : stop ≤ xs.size) :
    slice xs start stop = .ok (xs.extract start stop) := if_pos ⟨h, h'⟩

end

variable {bytes : Bytes} {offset index : Nat}

theorem stop_eq {e : Extent} (h : e.stop < 2 ^ 32) : stop e = .ok e.stop := sum_eq h

theorem contains_eq {outer inner : Extent} (houter : outer.stop < 2 ^ 32) (hinner : inner.stop < 2 ^ 32) :
    contains outer inner = .ok (outer.contains inner) := by
  rw [contains, stop_eq houter, stop_eq hinner, Extent.contains]
  split
  next h => rw [decide_eq_true h]; rfl
  next h => rw [decide_eq_false h]; rfl

theorem agrees_readExtent {part : ImagePart} (hoffset : offset + 8 ≤ bytes.size) (hsize : bytes.size < 2 ^ 32) :
    Agrees (readExtent bytes offset part) (Image.readExtent bytes offset part) := by
  refine .guard (number_eq (by omega)) (.guard (number_eq (by omega)) ?_)
  rw [Image.readExtent]
  by_cases h : bytes.natAt offset 4 + bytes.natAt (offset + 4) 4 ≤ bytes.size
  · rw [if_pos h]
    exact if_pos ⟨by omega, h⟩
  · rw [if_neg h]
    exact if_neg fun hle => h hle.2

theorem agrees_readSection (hheader : Image.sectionsStart ≤ bytes.size) (hsize : bytes.size < 2 ^ 32)
    (name : SectionName) : Agrees (readSection bytes name) (Image.readSection bytes name) := by
  have hoffset : Image.headerOffset name + 8 ≤ Image.sectionsStart := by cases name <;> decide
  refine (agrees_readExtent (hoffset.trans hheader) hsize).bind fun extent _ => ?_
  refine .ite (fun _ => .reject _) fun _ => ?_
  cases name.recordSize? with
  | some record => exact .ite (fun _ => .reject _) fun _ => .pure _
  | none => exact .pure _

theorem agrees_readSections (hheader : Image.sectionsStart ≤ bytes.size) (hsize : bytes.size < 2 ^ 32) :
    Agrees (readSections bytes) (Image.readSections bytes) := by
  have hsection := agrees_readSection hheader hsize
  refine (hsection .functionDesc).bind fun _ _ => (hsection .functionCode).bind fun _ _ => ?_
  refine (hsection .floatLiterals).bind fun _ _ => (hsection .roles).bind fun _ _ => ?_
  exact (hsection .stringDesc).bind fun _ _ => (hsection .stringData).bind fun _ _ => .pure _

theorem readExtent_ok_iff {part : ImagePart} {e : Extent} :
    Image.readExtent bytes offset part = .ok e ↔ e = Image.extentAt bytes offset ∧ e.stop ≤ bytes.size := by
  rw [Image.readExtent]
  split
  next h =>
    rw [Except.ok.injEq]
    constructor
    · rintro rfl
      exact ⟨rfl, h⟩
    · exact fun he => he.1.symm
  next h =>
    refine ⟨fun hok => (nomatch hok), ?_⟩
    rintro ⟨rfl, hstop⟩
    exact absurd hstop h

/-- What the loader has made sure of for a section. -/
structure IsSection (bytes : Bytes) (name : SectionName) (e : Extent) : Prop where
  stop_le : e.stop ≤ bytes.size
  whole : ∀ record, name.recordSize? = some record → e.len % record = 0

theorem isSection_of_readSection {name : SectionName} {e : Extent} (h : Image.readSection bytes name = .ok e) :
    IsSection bytes name e := by
  obtain ⟨extent, hextent, h⟩ := Except.bind_ok_iff.1 h
  have hstop := (readExtent_ok_iff.1 hextent).2
  dsimp only at h
  split at h
  · cases h
  next =>
    split at h
    next record hrecord =>
      split at h
      · cases h
      next hwhole =>
        cases h
        refine ⟨hstop, fun record' hrecord' => ?_⟩
        simp_all
    next hnone =>
      cases h
      refine ⟨hstop, fun record' hrecord' => ?_⟩
      rw [hnone] at hrecord'
      cases hrecord'

theorem isSection_of_readSections {sections : Sections} (h : Image.readSections bytes = .ok sections)
    (name : SectionName) : IsSection bytes name (sections.get name) := by
  obtain ⟨_, hfunctionDesc, h⟩ := Except.bind_ok_iff.1 h
  obtain ⟨_, hfunctionCode, h⟩ := Except.bind_ok_iff.1 h
  obtain ⟨_, hfloatLiterals, h⟩ := Except.bind_ok_iff.1 h
  obtain ⟨_, hroles, h⟩ := Except.bind_ok_iff.1 h
  obtain ⟨_, hstringDesc, h⟩ := Except.bind_ok_iff.1 h
  obtain ⟨_, hstringData, h⟩ := Except.bind_ok_iff.1 h
  cases h
  cases name with
  | functionDesc => exact isSection_of_readSection hfunctionDesc
  | functionCode => exact isSection_of_readSection hfunctionCode
  | floatLiterals => exact isSection_of_readSection hfloatLiterals
  | roles => exact isSection_of_readSection hroles
  | stringDesc => exact isSection_of_readSection hstringDesc
  | stringData => exact isSection_of_readSection hstringData

theorem records_eq {e : Extent} {size : Nat} (hstop : e.stop < 2 ^ 32) (hsize : 0 < size) (hwhole : e.len % size = 0) :
    records e size = .ok (e.records size) := by
  have hcount : (e.stop - e.start + size - 1) / size = e.len / size := by
    obtain ⟨n, hn⟩ := Nat.dvd_of_mod_eq_zero hwhole
    rw [Extent.stop, Nat.add_sub_cancel_left, hn, Nat.mul_div_cancel_left _ hsize, Nat.add_sub_assoc hsize,
      Nat.mul_add_div hsize, Nat.div_eq_of_lt (by omega), Nat.add_zero]
  rw [records, stop_eq hstop]
  change Except.ok _ = Except.ok _
  rw [hcount, Extent.records]

theorem add_le_stop_of_mem_records {e : Extent} {size offset : Nat} (h : offset ∈ e.records size) :
    offset + size ≤ e.stop := by
  obtain ⟨i, hi, rfl⟩ := List.mem_map.1 h
  have hle : size * (i + 1) ≤ e.len :=
    (Nat.mul_le_mul_left size (List.mem_range.1 hi)).trans (Nat.mul_div_le e.len size)
  rw [Nat.mul_succ] at hle
  rw [Extent.stop]
  omega

theorem agrees_readFunction {code : Extent} (hoffset : offset + 16 ≤ bytes.size) (hcode : code.stop ≤ bytes.size)
    (hsize : bytes.size < 2 ^ 32) :
    Agrees (readFunction bytes code index offset) (Image.readFunction bytes code index offset) := by
  refine (agrees_readExtent (by omega) hsize).bind fun extent hextent => ?_
  have hstop := (readExtent_ok_iff.1 hextent).2
  refine .guard (contains_eq (hcode.trans_lt hsize) (hstop.trans_lt hsize)) (.ite (fun _ => .reject _) fun _ => ?_)
  exact .guard (number_eq (by omega)) (.guard (number_eq (by omega)) (.guard (number_eq (by omega)) (.pure _)))

theorem agrees_readString {data : Extent} (hoffset : offset + 8 ≤ bytes.size) (hdata : data.stop ≤ bytes.size)
    (hsize : bytes.size < 2 ^ 32 - 1) :
    Agrees (readString bytes data index offset) (Image.readString bytes data index offset) := by
  refine (agrees_readExtent hoffset (by omega)).bind fun extent hextent => ?_
  have hstop : extent.stop ≤ bytes.size := (readExtent_ok_iff.1 hextent).2
  have hsucc : (⟨extent.start, extent.len + 1⟩ : Extent).stop = extent.stop + 1 := rfl
  have hlen : extent.len ≤ extent.stop := Nat.le_add_left ..
  refine .guard (sum_eq (by omega)) (.guard (contains_eq (by omega) (by omega)) (.ite (fun _ => .reject _) ?_))
  intro hinside
  rw [Bool.not_eq_true, Bool.not_eq_false', Extent.contains, Bool.and_eq_true, decide_eq_true_iff,
    decide_eq_true_iff] at hinside
  refine .guard (stop_eq (by omega)) (.guard (number_eq (by omega)) (.ite (fun _ => .reject _) fun _ => ?_))
  exact slice_eq (Nat.le_add_right ..) hstop

theorem agrees_readEach {α : Type} {read : Nat → Nat → Guarded α} {read' : Nat → Nat → Except ImageError α}
    {offsets : List Nat} (h : ∀ offset ∈ offsets, ∀ index, Agrees (read index offset) (read' index offset)) :
    Agrees (readEach read offsets) (Image.readRecords read' offsets) :=
  .mapM fun ⟨offset, index⟩ hmem => h offset (List.fst_mem_of_mem_zipIdx hmem) index

theorem readWords_eq (bytes : Bytes) : readWords bytes = .ok (Image.readWords bytes).toList := by
  have hwords : readWords bytes =
      .ok ((List.range (bytes.size / 2)).map fun i => ⟨(bytes.natAt (2 * i) 2).toUInt16⟩) := by
    refine mapM_eq fun i hi => ?_
    have hlt := List.mem_range.1 hi
    rw [number_eq (by omega)]
    rfl
  rw [hwords, Image.readWords]
  congr 1
  refine List.ext_getElem (by simp) fun i hi hi' => ?_
  simp

theorem agrees_load (hsize : bytes.size < 2 ^ 32 - 1) : Agrees (load bytes) (Image.load bytes) := by
  have hlt : bytes.size < 2 ^ 32 := by omega
  refine .ite (fun _ => .reject _) fun hlong => ?_
  have hheader : Image.sectionsStart ≤ bytes.size := Nat.le_of_not_lt hlong
  have hstart : Image.sectionsStart = 112 := rfl
  refine .guard (number_eq (by omega)) (.guard (number_eq (by omega)) (.ite (fun _ => .reject _) fun _ => ?_))
  refine .guard (number_eq (by omega)) ((agrees_readSections hheader hlt).bind fun sections hsections => ?_)
  have hsection := isSection_of_readSections hsections
  -- A record lies inside its section, and the section inside the image.
  have hrecords (name : SectionName) {record : Nat} (hpos : 0 < record) (hrecord : name.recordSize? = some record) :
      records (sections.get name) record = .ok ((sections.get name).records record) ∧
        ∀ offset ∈ (sections.get name).records record, offset + record ≤ bytes.size :=
    ⟨records_eq ((hsection name).stop_le.trans_lt hlt) hpos ((hsection name).whole record hrecord),
      fun offset hmem => (add_le_stop_of_mem_records hmem).trans (hsection name).stop_le⟩
  obtain ⟨hfunctions, hfunction⟩ := hrecords .functionDesc (by decide) rfl
  obtain ⟨hfloats, hfloat⟩ := hrecords .floatLiterals (by decide) rfl
  obtain ⟨hroles, hrole⟩ := hrecords .roles (by decide) rfl
  obtain ⟨hstrings, hstring⟩ := hrecords .stringDesc (by decide) rfl
  have hcode := (hsection .functionCode).stop_le
  have hdata := (hsection .stringData).stop_le
  refine .guard hfunctions ((agrees_readEach fun offset hmem index => ?_).bind fun functions _ => ?_)
  · exact agrees_readFunction (hfunction offset hmem) hcode hlt
  refine .guard hfloats (.guard (mapM_eq fun offset hmem => number_eq (hfloat offset hmem)) ?_)
  refine .guard hroles (.guard (mapM_eq fun offset hmem => number_eq ?_) ?_)
  · have hle := hrole offset hmem
    omega
  refine .guard hstrings ((agrees_readEach fun offset hmem index => ?_).bind fun strings _ => ?_)
  · exact agrees_readString (hstring offset hmem) hdata hsize
  refine .guard (readWords_eq bytes) ?_
  rw [List.map_map, List.map_map, Array.toArray_toList]
  exact .pure _

theorem operands_of_collected {p : Operands} (h : p.Collected) : operands p = .ok p := by
  obtain ⟨ha, hb, hc, hd⟩ := h
  exact if_pos ⟨by omega, by omega, by omega, by omega⟩

theorem agrees_checkWords (index : Nat) (image : Image) (f : FunctionInfo) (length : Nat) {pc : Nat}
    {collected : Option Operands} {words : List Word} (hpc : pc + words.length < 2 ^ 32)
    (hcollected : ∀ p ∈ collected, p.Collected) :
    Agrees (checkWords image index f length pc collected words)
      ((Image.checkWords image f length pc collected words).mapError fun (pc, flaw) =>
        .badInstruction index pc flaw) := by
  induction words generalizing pc collected with
  | nil =>
    cases collected with
    | none => exact .pure _
    | some p => exact .reject _
  | cons w words ih =>
    rw [List.length_cons] at hpc
    have hfront : (collected.getD {}).Collected := by
      cases collected with
      | none => exact .empty
      | some p => exact hcollected p rfl
    rw [checkWords, Image.checkWords]
    cases habsorb : (collected.getD {}).absorb? w with
    | some q =>
      have hq := hfront.absorb? habsorb
      refine .guard (operands_of_collected hq) (ih (by omega) fun p hp => ?_)
      cases hp
      exact hq
    | none =>
      obtain ⟨ha, hb, hc, hd⟩ := hfront.resolve w
      refine .guard (if_pos ⟨ha, hb, hc, hd⟩) (.guard (sum_eq (by omega)) (.guard (sum_eq (by omega)) ?_))
      refine .guard (sum_eq (by omega)) ?_
      cases hcheck : Image.checkWord image f length pc w ((collected.getD {}).resolve w) with
      | error flaw => exact .reject _
      | ok => exact ih (by omega) fun p hp => absurd hp (Option.not_mem_none p)

/-- Everything that an image names lies inside its `size` bytes. -/
structure InBounds (image : Image) (size : Nat) : Prop where
  sections : ∀ name, (image.sections.get name).stop ≤ size
  functions : ∀ f ∈ image.functions.toList, f.code.stop ≤ size
  words : image.words.size = size / 2

variable {image : Image} {size : Nat}

theorem body_eq {f : FunctionInfo} (h : InBounds image size) (hf : f ∈ image.functions.toList) (hsize : size < 2 ^ 32) :
    body image f = .ok (image.body f) := by
  have hstop := h.functions f hf
  have hwords := h.words
  have hle : f.code.start ≤ f.code.stop := Nat.le_add_right ..
  rw [body, stop_eq (by omega)]
  exact slice_eq (Nat.div_le_div_right hle) (by omega)

theorem agrees_checkFunctions (h : InBounds image size) (hsize : size < 2 ^ 32) {functions : List FunctionInfo}
    (hfunctions : ∀ f ∈ functions, f ∈ image.functions.toList) {next : Nat} :
    Agrees (checkFunctions image next index functions) (Image.checkFunctions image next index functions) := by
  induction functions generalizing next index with
  | nil => exact .pure _
  | cons f rest ih =>
    have hf := hfunctions f List.mem_cons_self
    have hlength : (image.body f).toList.length < 2 ^ 32 := by
      have hle := h.words
      rw [Array.length_toList, Image.body, Array.size_extract]
      omega
    have hbody : Agrees (checkWords image index f (image.body f).size 0 none (image.body f).toList)
        (Image.checkBody image index f) := by
      have hwords := agrees_checkWords index image f (image.body f).size ((Nat.zero_add _).trans_lt hlength)
        fun p hp => absurd hp (Option.not_mem_none p)
      rw [Image.checkBody]
      cases hcheck : Image.checkWords image f (image.body f).size 0 none (image.body f).toList with
      | ok | error => rwa [hcheck] at hwords
    refine .ite (fun _ => .reject _) fun _ => .ite (fun _ => .reject _) fun _ => .ite (fun _ => .reject _) fun _ => ?_
    refine .guard (stop_eq ((h.functions f hf).trans_lt hsize)) (.guard (body_eq h hf hsize) ?_)
    exact hbody.bind fun _ _ => ih fun g hg => hfunctions g (List.mem_cons_of_mem _ hg)

theorem agrees_checkOrder (h : InBounds image size) (hsize : size < 2 ^ 32) {names : List SectionName} {next : Nat} :
    Agrees (checkOrder image.sections next names) (Image.checkOrder image.sections next names) := by
  induction names generalizing next with
  | nil => exact .pure _
  | cons name names ih =>
    refine .ite (fun _ => ?_) fun _ => .reject _
    exact .guard (stop_eq ((h.sections name).trans_lt hsize)) ih

theorem agrees_verify (h : InBounds image size) (hsize : size < 2 ^ 32) : Agrees (verify image) image.verify := by
  refine (agrees_checkOrder h hsize).bind fun _ _ => ?_
  refine (agrees_checkFunctions h hsize fun f hf => hf).bind fun last _ => ?_
  refine .guard (stop_eq ((h.sections .functionCode).trans_lt hsize)) ?_
  exact .ite (fun _ => .reject _) fun _ => .pure _

end Guarded

/-! ### What is loaded -/

namespace Image

variable {bytes : Bytes} {image : Image} {offset index : Nat}

/-- The tables of an image are those that stand in its bytes, each record of a section in its place. -/
structure ReadFrom (image : Image) (bytes : Bytes) : Prop where
  section_le : ∀ name, (image.sections.get name).stop ≤ bytes.size
  size_functions : image.functions.size = image.sections.functionDesc.len / 16
  size_floats : image.floats.size = image.sections.floatLiterals.len / 8
  size_roles : image.roles.size = image.sections.roles.len / 8
  size_strings : image.strings.size = image.sections.stringDesc.len / 8
  /-- Bodies lie inside the code section, and start at even offsets. -/
  function : ∀ i f, image.functions[i]? = some f →
    f.code = extentAt bytes (image.sections.functionDesc.start + 16 * i) ∧
      image.sections.functionCode.start ≤ f.code.start ∧ f.code.stop ≤ image.sections.functionCode.stop ∧
      f.code.start % 2 = 0
  functionBody : ∀ i, image.functionBody i =
    match image.functions[i]? with
    | some f => readWords (bytes.extract f.code.start f.code.stop)
    | none => #[]
  /-- Strings lie inside the data section, each with a zero behind it. -/
  string : ∀ i s, image.strings[i]? = some s →
    ∃ e, e = extentAt bytes (image.sections.stringDesc.start + 8 * i) ∧ image.sections.stringData.start ≤ e.start ∧
      e.stop < image.sections.stringData.stop ∧ s = bytes.extract e.start e.stop ∧ bytes[e.stop]? = some 0

theorem of_readFunction {code : Extent} {f : FunctionInfo} (h : readFunction bytes code index offset = .ok f) :
    f.code = extentAt bytes offset ∧ code.contains f.code = true ∧ f.code.start % 2 = 0 := by
  obtain ⟨body, hbody, h⟩ := Except.bind_ok_iff.1 h
  obtain ⟨rfl, -⟩ := Guarded.readExtent_ok_iff.1 hbody
  dsimp only at h
  split at h
  · cases h
  next hcase =>
    cases h
    simp_all

theorem of_readString {data : Extent} {s : Bytes} (h : readString bytes data index offset = .ok s) :
    data.contains ⟨(extentAt bytes offset).start, (extentAt bytes offset).len + 1⟩ = true ∧
      bytes.natAt (extentAt bytes offset).stop 1 = 0 ∧
      s = bytes.extract (extentAt bytes offset).start (extentAt bytes offset).stop := by
  obtain ⟨text, htext, h⟩ := Except.bind_ok_iff.1 h
  obtain ⟨rfl, -⟩ := Guarded.readExtent_ok_iff.1 htext
  dsimp only at h
  split at h
  · cases h
  next hinside =>
    split at h
    · cases h
    next hzero =>
      cases h
      simp_all

theorem of_mapM_zipIdx {α : Type} {read : Nat → Nat → Except ImageError α} {offsets : List Nat} {xs : List α}
    {first : Nat} (h : (offsets.zipIdx first).mapM (fun (offset, index) => read index offset) = .ok xs) :
    xs.length = offsets.length ∧
      ∀ i x, xs[i]? = some x → ∃ offset, offsets[i]? = some offset ∧ read (first + i) offset = .ok x := by
  induction offsets generalizing first xs with
  | nil =>
    cases h
    exact ⟨rfl, fun i x hx => (nomatch hx)⟩
  | cons offset offsets ih =>
    rw [List.zipIdx_cons, List.mapM_cons] at h
    obtain ⟨y, hy, h⟩ := Except.bind_ok_iff.1 h
    obtain ⟨ys, hys, h⟩ := Except.bind_ok_iff.1 h
    cases h
    obtain ⟨hlength, hget⟩ := ih hys
    refine ⟨congrArg (· + 1) hlength, fun i x hx => ?_⟩
    cases i with
    | zero =>
      cases hx
      exact ⟨offset, rfl, hy⟩
    | succ i => grind

theorem getElem?_records {e : Extent} {size i offset : Nat} (h : (e.records size)[i]? = some offset) :
    offset = e.start + size * i := by
  rw [Extent.records, List.getElem?_map, Option.map_eq_some_iff] at h
  obtain ⟨j, hj, rfl⟩ := h
  obtain ⟨hlt, hval⟩ := List.getElem?_eq_some_iff.1 hj
  rw [← hval, List.getElem_range]

theorem length_records (e : Extent) (size : Nat) : (e.records size).length = e.len / size := by
  rw [Extent.records, List.length_map, List.length_range]

theorem natAt_extract (bytes : Bytes) (start place width : Nat) {stop : Nat} (h : start + place + width ≤ stop)
    (hstop : stop ≤ bytes.size) :
    Bytes.natAt (bytes.extract start stop) place width = bytes.natAt (start + place) width := by
  induction width generalizing place with
  | zero => rfl
  | succ width ih =>
    have hbyte : (bytes.extract start stop).getD place 0 = bytes.getD (start + place) 0 := by
      rw [Array.getD_eq_getD_getElem?, Array.getD_eq_getD_getElem?, Array.getElem?_extract, if_pos (by omega)]
    rw [Bytes.natAt, Bytes.natAt, hbyte, ih (place + 1) (by omega), Nat.add_assoc start]

theorem getElem?_of_natAt {place : Nat} (hlt : place < bytes.size) (hzero : bytes.natAt place 1 = 0) :
    bytes[place]? = some 0 := by
  change (bytes.getD place 0).toNat = 0 at hzero
  rw [Array.getD_eq_getD_getElem?, Array.getElem?_eq_getElem hlt, Option.getD_some] at hzero
  rw [Array.getElem?_eq_getElem hlt]
  exact congrArg some (UInt8.toNat_inj.1 hzero)

theorem extract_readWords {start stop : Nat} (heven : start % 2 = 0) (hle : start ≤ stop) (hstop : stop ≤ bytes.size) :
    (readWords bytes).extract (start / 2) (stop / 2) = readWords (bytes.extract start stop) := by
  have hwords : (readWords bytes).size = bytes.size / 2 := Array.size_ofFn
  have hsize : (bytes.extract start stop).size = stop - start := by
    rw [Array.size_extract]
    omega
  refine Array.ext_getElem? fun i => ?_
  rw [Array.getElem?_extract, hwords]
  by_cases hi : i < (stop - start) / 2
  · have hnat := natAt_extract bytes start (2 * i) 2 (by omega) hstop
    rw [if_pos (by omega), readWords, readWords, Array.getElem?_ofFn, dif_pos (by omega), Array.getElem?_ofFn,
      dif_pos (by omega)]
    rw [hnat, show 2 * (start / 2 + i) = start + 2 * i by omega]
  · rw [if_neg (by omega), Array.getElem?_eq_none]
    rw [readWords, Array.size_ofFn]
    omega

theorem of_load (h : load bytes = .ok image) :
    readSections bytes = .ok image.sections ∧
      readRecords (readFunction bytes image.sections.functionCode) (image.sections.functionDesc.records 16) =
        .ok image.functions.toList ∧
      readRecords (readString bytes image.sections.stringData) (image.sections.stringDesc.records 8) =
        .ok image.strings.toList ∧
      image.floats.size = image.sections.floatLiterals.len / 8 ∧ image.roles.size = image.sections.roles.len / 8 ∧
      image.words = readWords bytes := by
  unfold load at h
  split at h
  · cases h
  dsimp only at h
  split at h
  · cases h
  obtain ⟨sections, hsections, h⟩ := Except.bind_ok_iff.1 h
  obtain ⟨functions, hfunctions, h⟩ := Except.bind_ok_iff.1 h
  obtain ⟨strings, hstrings, h⟩ := Except.bind_ok_iff.1 h
  cases h
  exact ⟨hsections, hfunctions, hstrings, by simp [length_records], by simp [length_records], rfl⟩

theorem readFrom_of_load (h : load bytes = .ok image) : image.ReadFrom bytes := by
  obtain ⟨hsections, hfunctions, hstrings, hfloats, hroles, hwords⟩ := of_load h
  have hsection := Guarded.isSection_of_readSections hsections
  obtain ⟨hnumFunctions, hfunction⟩ := of_mapM_zipIdx hfunctions
  obtain ⟨hnumStrings, hstring⟩ := of_mapM_zipIdx hstrings
  rw [Array.length_toList, length_records] at hnumFunctions hnumStrings
  have hinside : ∀ i f, image.functions[i]? = some f →
      f.code = extentAt bytes (image.sections.functionDesc.start + 16 * i) ∧
        image.sections.functionCode.start ≤ f.code.start ∧ f.code.stop ≤ image.sections.functionCode.stop ∧
        f.code.start % 2 = 0 := by
    intro i f hf
    obtain ⟨offset, hoffset, hread⟩ := hfunction i f (by rwa [Array.getElem?_toList])
    obtain ⟨hcode, hcontains, heven⟩ := of_readFunction hread
    rw [getElem?_records hoffset] at hcode
    rw [Extent.contains, Bool.and_eq_true, decide_eq_true_iff, decide_eq_true_iff] at hcontains
    exact ⟨hcode, hcontains.1, hcontains.2, heven⟩
  refine ⟨fun name => (hsection name).stop_le, hnumFunctions, hfloats, hroles, hnumStrings, hinside, fun i => ?_,
    fun i s hs => ?_⟩
  · rw [functionBody]
    cases hf : image.functions[i]? with
    | none => rfl
    | some f =>
      obtain ⟨-, -, hstop, heven⟩ := hinside i f hf
      change image.words.extract f.startPc f.endPc = _
      rw [hwords]
      exact extract_readWords heven (Nat.le_add_right ..) (hstop.trans (hsection .functionCode).stop_le)
  · obtain ⟨offset, hoffset, hread⟩ := hstring i s (by rwa [Array.getElem?_toList])
    obtain ⟨hcontains, hzero, hbytes⟩ := of_readString hread
    rw [getElem?_records hoffset] at hcontains hzero hbytes
    rw [Extent.contains, Bool.and_eq_true, decide_eq_true_iff, decide_eq_true_iff] at hcontains
    refine ⟨_, rfl, hcontains.1, hcontains.2, hbytes, ?_⟩
    exact getElem?_of_natAt (Nat.lt_of_lt_of_le hcontains.2 (hsection .stringData).stop_le) hzero

theorem ReadFrom.inBounds (h : image.ReadFrom bytes) (hwords : image.words = readWords bytes) :
    Guarded.InBounds image bytes.size := by
  refine ⟨h.section_le, fun f hf => ?_, hwords ▸ Array.size_ofFn⟩
  obtain ⟨i, hi⟩ := List.mem_iff_getElem?.1 hf
  rw [Array.getElem?_toList] at hi
  exact (h.function i f hi).2.2.1.trans (h.section_le .functionCode)

/-- Whatever the bytes are, loading reads nothing that is not there and makes no sum that does not fit, and ends with an
error or with the tables that the bytes hold. What is loaded is then verified without leaving it either. -/
theorem loading_and_verifying_stay_inside (bytes : Bytes) (hsize : bytes.size < 2 ^ 32 - 1) :
    Guarded.load bytes = (load bytes).mapError .rejected ∧
      ∀ image, load bytes = .ok image →
        image.ReadFrom bytes ∧
          (∀ f ∈ image.functions, Guarded.body image f = .ok (image.body f)) ∧
          Guarded.verify image = image.verify.mapError .rejected := by
  refine ⟨Guarded.agrees_load hsize, fun image hload => ?_⟩
  have hread := readFrom_of_load hload
  have hbounds := hread.inBounds (of_load hload).2.2.2.2.2
  have hlt : bytes.size < 2 ^ 32 := by omega
  exact ⟨hread, fun f hf => Guarded.body_eq hbounds (Array.mem_toList_iff.2 hf) hlt, Guarded.agrees_verify hbounds hlt⟩

def oddImage : Bytes :=
  (ImageTables.image
    { numGlobals := 1
      functions := [{ body := #[⟨0x70c5⟩, ⟨0x8040⟩, ⟨0xb000⟩, ⟨0xb000⟩], numLocals := 0, numRegs := 0, numParams := 0 }]
      floats := [1]
      roles := [0x1421bac7]
      strings := [#[0x68, 0x69], #[]] }).push 0xff

theorem loading_and_verifying_stay_inside_odd :
    oddImage.size < 2 ^ 32 - 1 ∧ oddImage.size % 2 = 1 ∧
      ∃ image, load oddImage = .ok image ∧ image.ReadFrom oddImage ∧ image.strings = #[#[0x68, 0x69], #[]] ∧
        image.functionBody 0 = #[⟨0x70c5⟩, ⟨0x8040⟩, ⟨0xb000⟩, ⟨0xb000⟩] ∧ Guarded.verify image = .ok () := by
  have hsize : oddImage.size < 2 ^ 32 - 1 := by decide +kernel
  have hloads : (load oddImage).toOption.any (fun image =>
      decide (image.strings = #[#[0x68, 0x69], #[]]) &&
        decide (image.functionBody 0 = #[⟨0x70c5⟩, ⟨0x8040⟩, ⟨0xb000⟩, ⟨0xb000⟩]) && image.verify.isOk) = true := by
    decide +kernel
  cases hload : load oddImage with
  | error e =>
    rw [hload] at hloads
    cases hloads
  | ok image =>
    rw [hload] at hloads
    obtain ⟨hread, -, hverify⟩ := (loading_and_verifying_stay_inside oddImage hsize).2 image hload
    simp only [Except.toOption, Option.any_some, Bool.and_eq_true, decide_eq_true_iff] at hloads
    obtain ⟨⟨hstrings, hbody⟩, hok⟩ := hloads
    refine ⟨hsize, by decide +kernel, image, rfl, hread, hstrings, hbody, hverify.trans ?_⟩
    cases hcase : image.verify with
    | error e =>
      rw [hcase] at hok
      cases hok
    | ok => rfl

end Image

end BusScript
