import Mathlib.Algebra.Ring.Nat
import BusScript.Image.Layout
import BusScript.Proofs.Verified

namespace BusScript

open Image (Checked load readExtent readFunction readRecords readString readWords sectionsStart)

namespace Bytes

/-- Whether `part` stands in a buffer from `offset` on. -/
def Holds (bytes : Bytes) (offset : Nat) (part : List UInt8) : Prop :=
  offset + part.length ≤ bytes.size ∧ ∀ i : Nat, i < part.length → bytes[offset + i]? = part[i]?

variable {bytes : Bytes} {offset : Nat} {part more : List UInt8}

theorem holds_toList (bytes : Bytes) : bytes.Holds 0 bytes.toList := by
  refine ⟨by simp, fun i _ => ?_⟩
  rw [Nat.zero_add, Array.getElem?_toList]

theorem holds_append_iff :
    bytes.Holds offset (part ++ more) ↔ bytes.Holds offset part ∧ bytes.Holds (offset + part.length) more := by
  simp only [Holds, List.length_append]
  constructor
  · rintro ⟨hsize, hget⟩
    refine ⟨⟨by omega, fun i hi => ?_⟩, by omega, fun i hi => ?_⟩
    · rw [hget i (by omega), List.getElem?_append_left hi]
    · rw [Nat.add_assoc, hget (part.length + i) (by omega), List.getElem?_append_right (by omega),
        Nat.add_sub_cancel_left]
  · grind

theorem toList_ofNat_succ (width n : Nat) :
    (ofNat (width + 1) n).toList = n.toUInt8 :: (ofNat width (n / 256)).toList := by
  rw [ofNat, Array.toList_ofFn, List.ofFn_succ, ofNat, Array.toList_ofFn]
  congr 1
  · simp
  · congr 1
    funext i
    simp only [Fin.val_succ, Nat.pow_eq, Nat.pow_succ']
    rw [Nat.div_div_eq_div_mul]

theorem natAt_of_holds {width n : Nat} (h : bytes.Holds offset (ofNat width n).toList) :
    bytes.natAt offset width = n % 256 ^ width := by
  induction width generalizing offset n with
  | zero => simp [natAt, Nat.mod_one]
  | succ width ih =>
    rw [toList_ofNat_succ, ← List.singleton_append, holds_append_iff, List.length_singleton] at h
    have hfirst : bytes.getD offset 0 = n.toUInt8 := by
      have hget := h.1.2 0 (by simp)
      simp_all
    rw [natAt, ih h.2, hfirst, Nat.pow_succ', Nat.mod_mul]
    rfl

theorem natAt_of_holds_lt {width n : Nat} (h : bytes.Holds offset (ofNat width n).toList)
    (hn : n < 256 ^ width) : bytes.natAt offset width = n := by
  rw [natAt_of_holds h, Nat.mod_eq_of_lt hn]

theorem extract_of_holds {part : Bytes} (h : bytes.Holds offset part.toList) :
    bytes.extract offset (offset + part.size) = part := by
  obtain ⟨hsize, hget⟩ := h
  grind

theorem holds_flatMap {α : Type} {f : α → List UInt8} (width : Nat) (hwidth : ∀ x, (f x).length = width)
    {xs : List α} (h : bytes.Holds offset (xs.flatMap f)) {i : Nat} {x : α} (hi : xs[i]? = some x) :
    bytes.Holds (offset + width * i) (f x) := by
  induction xs generalizing offset i with
  | nil => cases hi
  | cons y ys ih =>
    rw [List.flatMap_cons, holds_append_iff, hwidth] at h
    cases i with
    | zero =>
      cases hi
      exact h.1
    | succ i => grind

theorem toList_foldl_append (parts : List Bytes) (front : Bytes) :
    (parts.foldl (· ++ ·) front).toList = front.toList ++ parts.flatMap Array.toList := by
  induction parts generalizing front with
  | nil => simp
  | cons part parts ih => rw [List.foldl_cons, ih, Array.toList_append, List.flatMap_cons, List.append_assoc]

end Bytes

namespace Extent

variable {size : Nat}

theorem records_zero (start : Nat) : (⟨start, 0⟩ : Extent).records size = [] := by
  simp [records]

theorem records_succ (start n : Nat) (hsize : 0 < size) :
    (⟨start, size * (n + 1)⟩ : Extent).records size = start :: (⟨start + size, size * n⟩ : Extent).records size := by
  simp only [records, Nat.mul_div_cancel_left _ hsize, List.range_succ_eq_map, List.map_cons, List.map_map,
    Nat.mul_zero, Nat.add_zero]
  congr 2
  grind

theorem length_records (start n : Nat) (hsize : 0 < size) : ((⟨start, size * n⟩ : Extent).records size).length = n := by
  simp [records, Nat.mul_div_cancel_left _ hsize]

theorem getElem?_records (start n : Nat) {i : Nat} (hsize : 0 < size) (hi : i < n) :
    ((⟨start, size * n⟩ : Extent).records size)[i]? = some (start + size * i) := by
  rw [records, Nat.mul_div_cancel_left _ hsize, List.getElem?_map, List.getElem?_range hi, Option.map_some]

theorem map_records {α β : Type} {bytes : Bytes} {start : Nat} (hsize : 0 < size) {xs : List α}
    {f : α → List UInt8} (hwidth : ∀ x, (f x).length = size) (h : bytes.Holds start (xs.flatMap f))
    {read : Nat → β} {g : α → β} (hread : ∀ offset x, bytes.Holds offset (f x) → read offset = g x) :
    ((⟨start, size * xs.length⟩ : Extent).records size).map read = xs.map g := by
  refine List.ext_getElem? fun i => ?_
  rw [List.getElem?_map, List.getElem?_map]
  by_cases hi : i < xs.length
  · have hx := List.getElem?_eq_getElem hi
    rw [getElem?_records start _ hsize hi, hx, Option.map_some, Option.map_some,
      hread _ _ (Bytes.holds_flatMap size hwidth h hx)]
  · have hle := Nat.le_of_not_lt hi
    rw [List.getElem?_eq_none hle, List.getElem?_eq_none]
    · rfl
    · rwa [length_records _ _ hsize]

end Extent

namespace ImageTables

theorem toList_code (f : FunctionTable) :
    f.code.toList = f.body.toList.flatMap fun w => (Bytes.ofNat 2 w.val).toList := by
  rw [FunctionTable.code, Array.toList_flatMap]

theorem size_code (f : FunctionTable) : f.code.size = 2 * f.body.size := by
  rw [← Array.length_toList, toList_code, List.length_flatMap]
  simp only [Array.length_toList, Bytes.size_ofNat, List.map_const', List.sum_replicate_nat]
  rw [Nat.mul_comm]

variable (t : ImageTables)

def codeStart : Nat := sectionsStart + 16 * t.functions.length

def floatStart : Nat := t.codeStart + t.code.size

def roleStart : Nat := t.floatStart + 8 * t.floats.length

def stringStart : Nat := t.roleStart + 8 * t.roles.length

def textStart : Nat := t.stringStart + 8 * t.strings.length

def extents : Sections where
  functionDesc := ⟨sectionsStart, 16 * t.functions.length⟩
  functionCode := ⟨t.codeStart, t.code.size⟩
  floatLiterals := ⟨t.floatStart, 8 * t.floats.length⟩
  roles := ⟨t.roleStart, 8 * t.roles.length⟩
  stringDesc := ⟨t.stringStart, 8 * t.strings.length⟩
  stringData := ⟨t.textStart, t.stringBytes.size⟩

def info (start : Nat) (f : FunctionTable) : FunctionInfo where
  code := ⟨start, f.code.size⟩
  numLocals := f.numLocals % 65536
  numRegs := min f.numRegs FunctionTable.maxCount
  numParams := min f.numParams FunctionTable.maxCount
  flags := 0

def functionInfos (start : Nat) : List FunctionTable → List FunctionInfo
  | [] => []
  | f :: rest => info start f :: functionInfos (start + f.code.size) rest

def loaded : Image where
  numGlobals := t.numGlobals % 65536
  sections := t.extents
  functions := (functionInfos t.codeStart t.functions).toArray
  roles := t.roles.toArray
  floats := t.floats.toArray
  strings := t.strings.toArray
  words := readWords t.image

theorem size_descriptor (f : FunctionTable) (start : Nat) : (f.descriptor start).size = 16 := by
  simp [FunctionTable.descriptor]

theorem size_descriptors (start : Nat) (functions : List FunctionTable) :
    (descriptors start functions).size = 16 * functions.length := by
  induction functions generalizing start with
  | nil => rfl
  | cons f rest ih =>
    rw [descriptors, Array.size_append, size_descriptor, ih, List.length_cons]
    omega

theorem size_stringDescriptors (start : Nat) (strings : List Bytes) :
    (stringDescriptors start strings).size = 8 * strings.length := by
  induction strings generalizing start with
  | nil => rfl
  | cons s rest ih =>
    rw [stringDescriptors, Array.size_append, Array.size_append, Bytes.size_ofNat, Bytes.size_ofNat, ih,
      List.length_cons]
    omega

theorem toList_foldl_map {α : Type} (xs : List α) (f : α → Bytes) :
    ((xs.map f).foldl (· ++ ·) #[]).toList = xs.flatMap fun x => (f x).toList := by
  rw [Bytes.toList_foldl_append, List.flatMap_map, Array.toList_empty, List.nil_append]

theorem size_foldl_map {α : Type} (xs : List α) {f : α → Bytes} {width : Nat} (hf : ∀ x, (f x).size = width) :
    ((xs.map f).foldl (· ++ ·) #[]).size = width * xs.length := by
  rw [← Array.length_toList, toList_foldl_map, List.length_flatMap]
  simp only [Array.length_toList, hf, List.map_const', List.sum_replicate_nat]
  rw [Nat.mul_comm]

theorem size_floatBytes : t.floatBytes.size = 8 * t.floats.length :=
  size_foldl_map _ fun _ => Bytes.size_ofNat _ _

theorem size_roleBytes : t.roleBytes.size = 8 * t.roles.length :=
  size_foldl_map _ fun _ => by rw [Array.size_append, Bytes.size_ofNat, Bytes.size_ofNat]

theorem size_header : t.header.size = 64 := by
  simp [header, Image.fixedHeaderSize]

theorem sections_eq : t.sections = [descriptors t.codeStart t.functions, t.code, t.floatBytes, t.roleBytes,
    stringDescriptors t.textStart t.strings, t.stringBytes] := by
  rw [sections, textStart, stringStart, roleStart, floatStart, size_floatBytes, size_roleBytes]
  rfl

theorem sectionTable_eq : (sectionTable sectionsStart t.sections).toList =
    SectionName.all.flatMap fun name => (Bytes.ofNat 4 (t.extents.get name).start).toList ++
      (Bytes.ofNat 4 (t.extents.get name).len).toList := by
  rw [sections_eq]
  simp only [sectionTable, size_descriptors, size_floatBytes, size_roleBytes, size_stringDescriptors,
    SectionName.all, List.flatMap_cons, List.flatMap_nil, Array.toList_append,
    List.append_assoc, Sections.get, extents]
  rfl

theorem toList_image : t.image.toList = t.header.toList ++
    ((sectionTable sectionsStart t.sections).toList ++ t.sections.flatMap Array.toList) := by
  rw [image, Array.toList_append, Array.toList_append, Bytes.toList_foldl_append, Array.toList_empty,
    List.nil_append, List.append_assoc]

theorem size_sectionTable (start : Nat) (sections : List Bytes) :
    (sectionTable start sections).size = 8 * sections.length := by
  induction sections generalizing start with
  | nil => rfl
  | cons s rest ih =>
    rw [sectionTable, Array.size_append, Array.size_append, Bytes.size_ofNat, Bytes.size_ofNat, ih, List.length_cons]
    omega

structure Laid (t : ImageTables) (bytes : Bytes) : Prop where
  header : bytes.Holds 0 t.header.toList
  table : ∀ name, bytes.Holds (Image.headerOffset name) (Bytes.ofNat 4 (t.extents.get name).start).toList ∧
    bytes.Holds (Image.headerOffset name + 4) (Bytes.ofNat 4 (t.extents.get name).len).toList
  functions : bytes.Holds sectionsStart (descriptors t.codeStart t.functions).toList
  code : bytes.Holds t.codeStart (t.functions.flatMap (·.code.toList))
  floats : bytes.Holds t.floatStart (t.floats.flatMap fun x => (Bytes.ofNat 8 x.bits.toNat).toList)
  roles : bytes.Holds t.roleStart (t.roles.flatMap fun c => (Bytes.ofNat 4 c.toNat ++ Bytes.ofNat 4 0).toList)
  strings : bytes.Holds t.stringStart (stringDescriptors t.textStart t.strings).toList
  text : bytes.Holds t.textStart t.stringBytes.toList
  size : bytes.size = t.textStart + t.stringBytes.size

theorem laid_image : t.Laid t.image := by
  have h := Bytes.holds_toList t.image
  have hlen := congrArg List.length t.toList_image
  rw [toList_image, Bytes.holds_append_iff, Bytes.holds_append_iff] at h
  obtain ⟨hheader, htable, hsections⟩ := h
  simp only [List.length_append, Array.length_toList, size_header, size_sectionTable, Nat.zero_add]
    at htable hsections hlen
  rw [sections_eq] at hsections hlen
  simp only [List.flatMap_cons, List.flatMap_nil, List.append_nil, List.length_append, Bytes.holds_append_iff,
    Array.length_toList, size_descriptors, size_floatBytes, size_roleBytes, size_stringDescriptors]
    at hsections hlen
  obtain ⟨hfunctions, hcode, hfloats, hroles, hstrings, htext⟩ := hsections
  rw [code, toList_foldl_map] at hcode
  rw [floatBytes, toList_foldl_map] at hfloats
  rw [roleBytes, toList_foldl_map] at hroles
  refine ⟨hheader, fun name => ?_, hfunctions, hcode, hfloats, hroles, hstrings, htext, ?_⟩
  · rw [sectionTable_eq] at htable
    have hname : SectionName.all[name.index]? = some name := by cases name <;> rfl
    have hentry := Bytes.holds_flatMap 8 (fun _ => by simp) htable hname
    rwa [Bytes.holds_append_iff, Array.length_toList, Bytes.size_ofNat] at hentry
  · rw [hlen, textStart, stringStart, roleStart, floatStart, codeStart, sectionsStart]
    simp only [List.length_cons, List.length_nil]
    omega

variable {offset : Nat} {f : FunctionTable} {functions : List FunctionTable}

theorem readExtent_eq {bytes : Bytes} {start len : Nat} {part : ImagePart}
    (hstart : bytes.Holds offset (Bytes.ofNat 4 start).toList)
    (hlen : bytes.Holds (offset + 4) (Bytes.ofNat 4 len).toList) (hle : start + len ≤ bytes.size)
    (hsize : bytes.size < 2 ^ 32) : readExtent bytes offset part = .ok ⟨start, len⟩ := by
  rw [readExtent, Bytes.natAt_of_holds_lt hstart (by omega), Bytes.natAt_of_holds_lt hlen (by omega)]
  exact if_pos hle

variable {t} {bytes : Bytes}

theorem stop_le (h : t.Laid bytes) (name : SectionName) : (t.extents.get name).stop ≤ bytes.size := by
  rw [h.size, Extent.stop]
  cases name <;> simp only [Sections.get, extents, textStart, stringStart, roleStart, floatStart, codeStart] <;>
    omega

/-- Bodies have an even number of words, so that every section is aligned. -/
def Aligned (t : ImageTables) : Prop := ∀ f ∈ t.functions, f.body.size % 2 = 0

theorem Aligned.code (h : t.Aligned) : t.code.size % 4 = 0 := by
  rw [ImageTables.code, ← Array.length_toList, toList_foldl_map]
  have hsum : ∀ functions : List FunctionTable, (∀ f ∈ functions, f.body.size % 2 = 0) →
      (functions.flatMap (·.code.toList)).length % 4 = 0 := by
    intro functions hall
    induction functions with
    | nil => rfl
    | cons f rest ih =>
      have hrest := ih fun g hg => hall g (List.mem_cons_of_mem _ hg)
      have hf := hall f List.mem_cons_self
      rw [List.flatMap_cons, List.length_append, Array.length_toList, size_code]
      omega
  exact hsum t.functions h

theorem Aligned.start (h : t.Aligned) (name : SectionName) : (t.extents.get name).start % 4 = 0 := by
  have hcode := h.code
  cases name <;> simp only [Sections.get, extents, textStart, stringStart, roleStart, floatStart, codeStart,
    sectionsStart] <;> omega

theorem readSection_eq (h : t.Laid bytes) (haligned : t.Aligned) (hsize : bytes.size < 2 ^ 32)
    (name : SectionName) : Image.readSection bytes name = .ok (t.extents.get name) := by
  obtain ⟨hstart, hlen⟩ := h.table name
  rw [Image.readSection, readExtent_eq hstart hlen (stop_le h name) hsize]
  change (if (t.extents.get name).start % 4 ≠ 0 then _ else _) = _
  rw [if_neg (fun hne => hne (haligned.start name))]
  cases name with
  | functionCode => rfl
  | stringData => rfl
  | functionDesc => exact if_neg fun hne => hne (Nat.mul_mod_right 16 _)
  | floatLiterals | roles | stringDesc => exact if_neg fun hne => hne (Nat.mul_mod_right 8 _)

theorem readSections_eq (h : t.Laid bytes) (haligned : t.Aligned) (hsize : bytes.size < 2 ^ 32) :
    Image.readSections bytes = .ok t.extents := by
  simp only [Image.readSections, readSection_eq h haligned hsize]
  rfl

theorem readFunction_eq {code : Extent} {start : Nat} (index : Nat)
    (hsize : bytes.size < 2 ^ 32) (h : bytes.Holds offset (f.descriptor start).toList)
    (hstart : code.start ≤ start) (hstop : start + f.code.size ≤ code.stop) (hcode : code.stop ≤ bytes.size)
    (heven : start % 2 = 0) : readFunction bytes code index offset = .ok (info start f) := by
  have hzeros : (Bytes.ofNat 5 0).toList = (Bytes.ofNat 1 0).toList ++ (Bytes.ofNat 4 0).toList := rfl
  simp only [FunctionTable.descriptor, Array.toList_append, Bytes.holds_append_iff, List.length_append,
    Array.length_toList, Bytes.size_ofNat, hzeros] at h
  obtain ⟨⟨⟨⟨hs, hl⟩, hlocals⟩, hpacked⟩, hflags, -⟩ := h
  have hcontains : code.contains ⟨start, f.code.size⟩ = true := by
    rw [Extent.contains, Bool.and_eq_true, decide_eq_true_iff, decide_eq_true_iff]
    exact ⟨hstart, hstop⟩
  have hregs : min f.numRegs FunctionTable.maxCount ≤ 15 := Nat.min_le_right _ _
  have hparams : min f.numParams FunctionTable.maxCount ≤ 15 := Nat.min_le_right _ _
  rw [readFunction, readExtent_eq hs hl (Nat.le_trans hstop hcode) hsize]
  change (if (!code.contains ⟨start, f.code.size⟩ || decide (start % 2 ≠ 0)) = true then _ else _) = _
  rw [hcontains, decide_eq_false (fun hne => hne heven), if_neg (by decide)]
  change Except.ok _ = Except.ok _
  rw [Bytes.natAt_of_holds hlocals, Bytes.natAt_of_holds_lt hpacked (by omega), Bytes.natAt_of_holds_lt hflags (by decide)]
  congr 2 <;> omega

theorem mapM_cons_eq {α : Type} {read : Nat → Nat → Except ImageError α} {index : Nat}
    {rest : List (Nat × Nat)} {x : α} {xs : List α} (hx : read index offset = .ok x)
    (hrest : rest.mapM (fun (offset, index) => read index offset) = .ok xs) :
    ((offset, index) :: rest).mapM (fun (offset, index) => read index offset) = .ok (x :: xs) := by
  rw [List.mapM_cons, hrest]
  change (read index offset >>= _) = _
  rw [hx]
  rfl

theorem readFunctions_eq {code : Extent} {start : Nat} (index : Nat)
    (hsize : bytes.size < 2 ^ 32) (h : bytes.Holds offset (descriptors start functions).toList)
    (hstart : code.start ≤ start) (hstop : start + (functions.flatMap (·.code.toList)).length ≤ code.stop)
    (hcode : code.stop ≤ bytes.size) (heven : start % 2 = 0) :
    (((⟨offset, 16 * functions.length⟩ : Extent).records 16).zipIdx index).mapM
      (fun (offset, index) => readFunction bytes code index offset) = .ok (functionInfos start functions) := by
  induction functions generalizing start offset index with
  | nil =>
    rw [List.length_nil, Nat.mul_zero, Extent.records_zero]
    rfl
  | cons f rest ih =>
    rw [descriptors, Array.toList_append, Bytes.holds_append_iff, Array.length_toList, size_descriptor] at h
    rw [List.flatMap_cons, List.length_append, Array.length_toList] at hstop
    have hf := readFunction_eq index hsize h.1 hstart (by omega) hcode heven
    have hrest := ih (index + 1) h.2 (by omega) (by omega) (by rw [size_code]; omega)
    rw [List.length_cons, Extent.records_succ _ _ (by decide), List.zipIdx_cons, functionInfos]
    exact mapM_cons_eq hf hrest

theorem readString_eq {s : Bytes} {data : Extent} {start : Nat} (index : Nat) (hsize : bytes.size < 2 ^ 32)
    (h : bytes.Holds offset (Bytes.ofNat 4 start ++ Bytes.ofNat 4 s.size).toList)
    (htext : bytes.Holds start (s.push 0).toList) (hstart : data.start ≤ start)
    (hstop : start + s.size + 1 ≤ data.stop) : readString bytes data index offset = .ok s := by
  rw [Array.toList_append, Bytes.holds_append_iff, Array.length_toList, Bytes.size_ofNat] at h
  have hzero : [(0 : UInt8)] = (Bytes.ofNat 1 0).toList := rfl
  have hend : start + (s.push 0).toList.length ≤ bytes.size := htext.1
  rw [Array.length_toList, Array.size_push] at hend
  rw [Array.toList_push, hzero, Bytes.holds_append_iff, Array.length_toList] at htext
  have hcontains : data.contains ⟨start, s.size + 1⟩ = true := by
    rw [Extent.contains, Bool.and_eq_true, decide_eq_true_iff, decide_eq_true_iff]
    exact ⟨hstart, hstop⟩
  rw [readString, readExtent_eq h.1 h.2 (by omega) hsize]
  change (if (!data.contains ⟨start, s.size + 1⟩) = true then _ else _) = _
  rw [hcontains, if_neg (by decide)]
  change (if bytes.natAt (start + s.size) 1 ≠ 0 then _ else _) = _
  rw [Bytes.natAt_of_holds_lt htext.2 (by decide), if_neg (fun hne => hne rfl)]
  exact congrArg Except.ok (Bytes.extract_of_holds htext.1)

theorem readStrings_eq {strings : List Bytes} {data : Extent} {start : Nat} (index : Nat)
    (hsize : bytes.size < 2 ^ 32) (h : bytes.Holds offset (stringDescriptors start strings).toList)
    (htext : bytes.Holds start (strings.flatMap fun s => (s.push 0).toList)) (hstart : data.start ≤ start)
    (hstop : start + (strings.flatMap fun s => (s.push 0).toList).length ≤ data.stop) :
    (((⟨offset, 8 * strings.length⟩ : Extent).records 8).zipIdx index).mapM
      (fun (offset, index) => readString bytes data index offset) = .ok strings := by
  induction strings generalizing start offset index with
  | nil =>
    rw [List.length_nil, Nat.mul_zero, Extent.records_zero]
    rfl
  | cons s rest ih =>
    have hwidth : (Bytes.ofNat 4 start ++ Bytes.ofNat 4 s.size).size = 8 := by
      rw [Array.size_append, Bytes.size_ofNat, Bytes.size_ofNat]
    rw [stringDescriptors, Array.toList_append, Bytes.holds_append_iff, Array.length_toList, hwidth] at h
    rw [List.flatMap_cons, Bytes.holds_append_iff, Array.length_toList, Array.size_push] at htext
    rw [List.flatMap_cons, List.length_append, Array.length_toList, Array.size_push] at hstop
    have hs := readString_eq index hsize h.1 htext.1 hstart (by omega)
    have hrest := ih (index + 1) h.2 htext.2 (by omega) (by omega)
    rw [List.length_cons, Extent.records_succ _ _ (by decide), List.zipIdx_cons]
    exact mapM_cons_eq hs hrest

theorem Laid.holds_text (h : t.Laid bytes) : bytes.Holds t.textStart (t.strings.flatMap fun s => (s.push 0).toList) ∧
      (t.strings.flatMap fun s => (s.push 0).toList).length ≤ t.stringBytes.size := by
  have htext := h.text
  have hsize : t.stringBytes.toList.length = t.stringBytes.size := Array.length_toList
  rw [stringBytes, padded, Array.toList_append, toList_foldl_map] at htext hsize
  rw [Bytes.holds_append_iff] at htext
  rw [List.length_append] at hsize
  exact ⟨htext.1, by rw [stringBytes, padded]; omega⟩

theorem readRoles_eq (h : t.Laid bytes) :
    (t.extents.roles.records 8).map (fun offset => (bytes.natAt offset 4).toUInt32) = t.roles := by
  refine (Extent.map_records (by decide) (fun c => by simp) h.roles fun offset c hc => ?_).trans (List.map_id _)
  rw [Array.toList_append, Bytes.holds_append_iff] at hc
  rw [Bytes.natAt_of_holds_lt hc.1 c.toNat_lt, id]
  exact UInt32.ofNat_toNat

theorem readFloats_eq (h : t.Laid bytes) :
    (t.extents.floatLiterals.records 8).map (fun offset => Number.mk (bytes.natAt offset 8).toUInt64) = t.floats := by
  refine (Extent.map_records (by decide) (fun x => by simp) h.floats fun offset x hx => ?_).trans (List.map_id _)
  rw [Bytes.natAt_of_holds_lt hx x.bits.toNat_lt, id]
  exact congrArg Number.mk UInt64.ofNat_toNat

theorem load_image (haligned : t.Aligned) (hsize : t.image.size < 2 ^ 32) : load t.image = .ok t.loaded := by
  have h := t.laid_image
  have hheader := h.header
  simp only [header, Array.toList_append, Bytes.holds_append_iff, List.length_append, Array.length_toList,
    Bytes.size_ofNat] at hheader
  obtain ⟨⟨⟨hmagic0, hmagic1⟩, hglobals⟩, -⟩ := hheader
  have hmin : ¬ t.image.size < sectionsStart := by
    have hfunctions := h.functions.1
    omega
  have hfunctions : readRecords (readFunction t.image t.extents.functionCode)
      (t.extents.functionDesc.records 16) = .ok (functionInfos t.codeStart t.functions) := by
    refine readFunctions_eq 0 hsize h.functions (Nat.le_refl t.codeStart) (Nat.le_of_eq ?_) (stop_le h .functionCode) ?_
    · rw [← toList_foldl_map, Array.length_toList]
      rfl
    · rw [codeStart, sectionsStart]
      omega
  have hstrings : readRecords (readString t.image t.extents.stringData)
      (t.extents.stringDesc.records 8) = .ok t.strings := by
    obtain ⟨htext, htextSize⟩ := h.holds_text
    exact readStrings_eq 0 hsize h.strings htext (Nat.le_refl t.textStart) (Nat.add_le_add_left htextSize t.textStart)
  rw [load, if_neg hmin]
  dsimp only
  rw [Bytes.natAt_of_holds_lt hmagic0 (by decide), Bytes.natAt_of_holds_lt hmagic1 (by decide),
    if_neg (by decide), readSections_eq h haligned hsize]
  change (readRecords _ (t.extents.functionDesc.records 16) >>= fun functions => _) = _
  rw [hfunctions]
  change (readRecords _ (t.extents.stringDesc.records 8) >>= fun strings => _) = _
  rw [hstrings]
  change Except.ok _ = Except.ok _
  rw [readRoles_eq h, readFloats_eq h, Bytes.natAt_of_holds hglobals]
  rfl

theorem body_eq {start : Nat} (h : bytes.Holds start f.code.toList) (heven : start % 2 = 0) :
    (readWords bytes).extract (info start f).startPc (info start f).endPc = f.body := by
  have hsize : start + 2 * f.body.size ≤ bytes.size := by
    have hle := h.1
    rwa [Array.length_toList, size_code] at hle
  change (readWords bytes).extract (start / 2) ((start + f.code.size) / 2) = f.body
  rw [size_code]
  have hwords : (readWords bytes).size = bytes.size / 2 := Array.size_ofFn
  refine Array.ext_getElem? fun i => ?_
  rw [Array.getElem?_extract, hwords]
  by_cases hi : i < f.body.size
  · rw [if_pos (by omega), readWords, Array.getElem?_ofFn, dif_pos (by omega), Array.getElem?_eq_getElem hi]
    have hword : bytes.Holds (start + 2 * i) (Bytes.ofNat 2 f.body[i].val).toList := by
      rw [toList_code] at h
      refine Bytes.holds_flatMap 2 (fun w => by simp) h ?_
      rw [Array.getElem?_toList, Array.getElem?_eq_getElem hi]
    have hplace : 2 * (start / 2 + i) = start + 2 * i := by omega
    rw [hplace, Bytes.natAt_of_holds_lt hword f.body[i].bits.toNat_lt]
    exact congrArg (fun bits => some (Word.mk bits)) UInt16.ofNat_toNat
  · rw [if_neg (by omega), Array.getElem?_eq_none (Nat.le_of_not_lt hi)]

theorem length_functionInfos (start : Nat) (functions : List FunctionTable) :
    (functionInfos start functions).length = functions.length := by
  induction functions generalizing start with
  | nil => rfl
  | cons f rest ih => rw [functionInfos, List.length_cons, ih, List.length_cons]

theorem getElem?_functionInfos {start i : Nat}
    (hf : functions[i]? = some f) (h : bytes.Holds start (functions.flatMap (·.code.toList)))
    (heven : start % 2 = 0) :
    ∃ s, (functionInfos start functions)[i]? = some (info s f) ∧ bytes.Holds s f.code.toList ∧ s % 2 = 0 := by
  induction functions generalizing start i with
  | nil => cases hf
  | cons g rest ih =>
    rw [List.flatMap_cons, Bytes.holds_append_iff, Array.length_toList] at h
    cases i with
    | zero =>
      cases hf
      exact ⟨start, rfl, h.1, heven⟩
    | succ i => exact ih hf h.2 (by rw [size_code]; omega)

theorem codeStart_even (t : ImageTables) : t.codeStart % 2 = 0 := by
  rw [codeStart, sectionsStart]
  omega

theorem loaded_function {i : Nat} (hf : t.functions[i]? = some f) :
    ∃ s, t.loaded.functions[i]? = some (info s f) ∧ t.loaded.body (info s f) = f.body := by
  obtain ⟨s, hs, hcode, heven⟩ := getElem?_functionInfos hf t.laid_image.code t.codeStart_even
  refine ⟨s, ?_, body_eq hcode heven⟩
  rw [loaded, List.getElem?_toArray]
  exact hs

theorem size_loaded_functions (t : ImageTables) : t.loaded.functions.size = t.functions.length := by
  rw [loaded, List.size_toArray, length_functionInfos]

theorem exists_of_loaded {i : Nat} {g : FunctionInfo} (hg : t.loaded.functions[i]? = some g) :
    ∃ f s, t.functions[i]? = some f ∧ g = info s f ∧ t.loaded.body g = f.body := by
  have hlt := (Array.getElem?_eq_some_iff.1 hg).1
  rw [size_loaded_functions] at hlt
  obtain ⟨s, hs, hbody⟩ := loaded_function (List.getElem?_eq_getElem hlt)
  grind

theorem checkFunctions_eq {image : Image} {start : Nat} (index : Nat) (hbodies : ∀ f ∈ functions, f.body.size ≠ 0)
    (hchecked : ∀ g ∈ functionInfos start functions, Checked image g (image.body g)) :
    Image.checkFunctions image start index (functionInfos start functions) =
      .ok (start + (functions.flatMap (·.code.toList)).length) := by
  induction functions generalizing start index with
  | nil => rfl
  | cons f rest ih =>
    rw [functionInfos] at hchecked ⊢
    obtain ⟨hf, hrest⟩ := List.forall_mem_cons.1 hchecked
    obtain ⟨hsize, hsizes⟩ := List.forall_mem_cons.1 hbodies
    refine Image.checkFunctions_cons_iff.2 ⟨rfl, ?_, ?_, hf, ?_⟩
    · change f.code.size ≠ 0
      rw [size_code]
      omega
    · exact Nat.le_trans (Nat.min_le_right _ _) (by decide)
    · rw [List.flatMap_cons, List.length_append, Array.length_toList, ← Nat.add_assoc]
      exact ih (index + 1) hsizes hrest

theorem verify_loaded (hbodies : ∀ f ∈ t.functions, f.body.size ≠ 0)
    (hchecked : ∀ g ∈ t.loaded.functions, Checked t.loaded g (t.loaded.body g)) :
    t.loaded.verify = .ok () := by
  have hfunctions : Image.checkFunctions t.loaded t.codeStart 0 (functionInfos t.codeStart t.functions) = _ :=
    checkFunctions_eq 0 hbodies fun g hg => hchecked g (List.mem_toArray.2 hg)
  have hstop : t.codeStart + (t.functions.flatMap (·.code.toList)).length = t.extents.functionCode.stop := by
    rw [← toList_foldl_map, Array.length_toList]
    rfl
  rw [hstop] at hfunctions
  refine Except.bind_ok_iff.2 ⟨(), ?_, Except.bind_ok_iff.2 ⟨_, hfunctions, ?_⟩⟩
  · simp only [Image.checkOrder, SectionName.all, loaded, extents, Sections.get, Extent.stop, codeStart, floatStart,
      roleStart, stringStart, textStart, if_true]
    rfl
  · exact if_neg fun hne => hne rfl

end ImageTables

end BusScript
