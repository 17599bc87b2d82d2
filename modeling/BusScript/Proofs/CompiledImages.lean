import BusScript.Catalog.Builtin
import BusScript.Proofs.FinishedBodies

namespace BusScript

instance (p : PacketSpec) : Decidable p.Fits :=
  decidable_of_iff (p.payloadSize ≤ maxPayload ∧
      ∀ field ∈ p.fields, ∀ format ∈ field.format?, field.shift ≤ format.bits)
    ⟨fun h => ⟨h.1, h.2⟩, fun h => ⟨h.payload, h.shift⟩⟩

instance (c : Catalog) : Decidable c.Fits :=
  inferInstanceAs (Decidable (∀ service ∈ c.services, ∀ p ∈ service.packets, p.Fits))

theorem Catalog.builtin_fits : Catalog.builtin.Fits := by decide +kernel

/-- A draft without problems whose counts fit makes an image that passes the checks, so that compiling does not
stop at them. -/
theorem images_of_clean_drafts_pass {catalog : Catalog} {options : CompileOptions} {script : List Stmt} {d : Draft}
    (hcatalog : catalog.Fits) (hdraft : draftOf catalog options script = .ok d) (hclean : d.findings.count = 0)
    (hglobals : d.globals.size ≤ 65535) (hlocals : ∀ p ∈ d.procedures, p.locals.size ≤ 65535)
    (hsize : d.tables.image.size < 2 ^ 32) :
    (∃ image, Image.load d.tables.image = .ok image ∧ image.verify = .ok ()) ∧
      ∀ options, compile catalog options script = .ok ({ d with options }.compiled d.tables.image) := by
  obtain ⟨hcomplete, rfl, -⟩ := Draft.complete_of_draftOf hdraft
  have hcheck : checkImage d.tables.image = .ok () := hcomplete.checkImage hclean hcatalog hglobals hlocals hsize
  refine ⟨?_, fun options' => ?_⟩
  · have hload := ImageTables.load_image hcomplete.aligned hsize
    rw [checkImage, hload] at hcheck
    exact ⟨d.tables.loaded, hload, hcheck⟩
  · rcases compile_of_draft (Draft.draftOf_of_clean hdraft hclean options') with ⟨hok, -⟩ | ⟨-, e, he, -⟩
    · exact hok
    · cases hcheck.symm.trans he

/-- A role with a handler, a function, a text and a constant that needs a place in the pool:
`var b = roles.button(); var x = 2.5; b.pressed.sub(() => { x = f(1) }); print("x = {0}", x);
function f(a) { return a + x }` -/
def subscribingScript : List Stmt :=
  let name (text : String) : Expr := .ident ⟨text, {}⟩
  let member (object : Expr) (text : String) : Expr := .member {} object ⟨text, {}⟩
  let number (n : Nat) : Expr := .literal {} (.number (.ofNat n))
  [.var {} .var [.mk ⟨"b", {}⟩ (some (.call {} (member (name "roles") "button") [])) {}],
    .var {} .var [.mk ⟨"x", {}⟩ (some (.literal {} (.number 2.5))) {}],
    .expr {} (.call {} (member (member (name "b") "pressed") "sub")
      [.arrow {} [] [.expr {} (.assign {} (name "x") (.call {} (name "f") [number 1]))]]),
    .expr {} (.call {} (name "print") [.literal {} (.string "x = {0}"), name "x"]),
    .function {} { name := ⟨"f", {}⟩, params := [.ident ⟨"a", {}⟩] }
      [.ret {} (some (.binary {} .add (name "a") (name "x")))]]

def draftFits (catalog : Catalog) (script : List Stmt) (errors functions : Nat) : Bool :=
  match draftOf catalog {} script with
  | .error _ => false
  | .ok d => d.findings.count = errors ∧ d.procedures.size = functions ∧ d.globals.size ≤ 65535 ∧
      (∀ p ∈ d.procedures, p.locals.size ≤ 65535) ∧ d.tables.image.size < 2 ^ 32

theorem exists_of_draftFits {catalog : Catalog} {script : List Stmt} {errors functions : Nat}
    (h : draftFits catalog script errors functions = true) :
    ∃ d, draftOf catalog {} script = .ok d ∧ d.findings.count = errors ∧ d.procedures.size = functions ∧
      d.globals.size ≤ 65535 ∧ (∀ p ∈ d.procedures, p.locals.size ≤ 65535) ∧ d.tables.image.size < 2 ^ 32 := by
  rw [draftFits] at h
  grind

theorem images_of_clean_drafts_pass_subscribing :
    ∃ d, draftOf Catalog.builtin {} subscribingScript = .ok d ∧ d.findings.count = 0 ∧ d.procedures.size = 4 ∧
      (∃ image, Image.load d.tables.image = .ok image ∧ image.verify = .ok ()) ∧
      compile Catalog.builtin { verify := false } subscribingScript =
        .ok ({ d with options := { verify := false } }.compiled d.tables.image) := by
  have hfits : draftFits Catalog.builtin subscribingScript 0 4 = true := by decide +kernel
  obtain ⟨d, hd, hclean, hcount, hglobals, hlocals, hsize⟩ := exists_of_draftFits hfits
  obtain ⟨hpass, hcompile⟩ :=
    images_of_clean_drafts_pass Catalog.builtin_fits hd hclean hglobals hlocals hsize
  exact ⟨d, hd, hclean, hcount, hpass, hcompile _⟩

/-- Sections that start at multiples of four bytes and follow one another, from the end of the section table
to the end of the image. -/
structure Sections.InRow (s : Sections) (size : Nat) : Prop where
  aligned : ∀ name, (s.get name).start % 4 = 0
  first : s.functionDesc.start = 112
  functionCode : s.functionCode.start = s.functionDesc.stop
  floatLiterals : s.floatLiterals.start = s.functionCode.stop
  roles : s.roles.start = s.floatLiterals.stop
  stringDesc : s.stringDesc.start = s.roles.stop
  stringData : s.stringData.start = s.stringDesc.stop
  last : s.stringData.stop = size

/-- An image that tells all there is of a compiled script. Descriptors have room for the saved registers that
scripts without problems need. -/
structure Image.Tells (image : Image) (compiled : Compiled) : Prop where
  size : image.functions.size = compiled.functions.length
  functions : ∀ (i : Nat) (f : CompiledFunction), compiled.functions[i]? = some f →
    ∃ info, image.functions[i]? = some info ∧ image.functionBody i = f.code ∧ info.numLocals = f.numLocals ∧
      info.numParams = f.numParams ∧ (compiled.numErrors = 0 → info.numRegs = f.numRegs)
  roles : image.roles.toList = compiled.roles.map (·.2)
  floats : image.floats.toList = compiled.floats
  strings : image.strings.toList = compiled.strings.map Text.encodeUtf8
  globals : image.numGlobals = compiled.numGlobals

theorem ImageTables.inRow_loaded {t : ImageTables} (haligned : t.Aligned) : t.loaded.sections.InRow t.image.size :=
  ⟨haligned.start, rfl, rfl, rfl, rfl, rfl, rfl, (laid_image t).size.symm⟩

namespace Draft

variable {d : Draft}

theorem Complete.loaded_function (h : d.Complete) {i : Nat} {p : Procedure} (hp : d.procedures[i]? = some p)
    (hlocals : p.locals.size ≤ 65535) :
    ∃ info, d.tables.loaded.functions[i]? = some info ∧ d.tables.loaded.functionBody i = p.writer.code ∧
      info.numLocals = p.locals.size ∧ info.numParams = p.numParams ∧
      (d.findings.count = 0 → info.numRegs = p.writer.maxRegs) := by
  obtain ⟨s, hs, hbody⟩ := ImageTables.loaded_function (getElem?_tables hp)
  have hmem := Array.mem_of_getElem? hp
  refine ⟨ImageTables.info s p.table, hs, ?_, Nat.mod_eq_of_lt (Nat.lt_succ_of_le hlocals), ?_, fun hclean => ?_⟩
  · rw [Image.functionBody, hs]
    exact hbody
  · exact Nat.min_eq_left (Nat.le_trans (h.arity p hmem) (by decide))
  · exact Nat.min_eq_left (h.bodies hclean p hmem).2.2

theorem Complete.tells_loaded (h : d.Complete) (hglobals : d.globals.size ≤ 65535)
    (hlocals : ∀ p ∈ d.procedures, p.locals.size ≤ 65535) :
    d.tables.loaded.Tells (d.compiled d.tables.image) := by
  refine ⟨?_, fun i f hf => ?_, ?_, ?_, ?_, Nat.mod_eq_of_lt (Nat.lt_succ_of_le hglobals)⟩
  · rw [ImageTables.size_loaded_functions, tables_functions, List.length_map, compiled, List.length_map]
  · rw [compiled, List.getElem?_map, Array.getElem?_toList] at hf
    obtain ⟨p, hp, rfl⟩ := Option.map_eq_some_iff.1 hf
    obtain ⟨info, hinfo, hbody, hnumLocals, hparams, hregs⟩ :=
      h.loaded_function hp (hlocals p (Array.mem_of_getElem? hp))
    exact ⟨info, hinfo, hbody, hnumLocals, hparams, fun hclean => hregs hclean⟩
  · simp [ImageTables.loaded, tables, compiled]
  · simp [ImageTables.loaded, tables, compiled]
  · simp [ImageTables.loaded, tables, compiled]

end Draft

/-- The image of a script, with problems or without, is loaded as what was compiled. -/
theorem images_tell_what_was_compiled {catalog : Catalog} {options : CompileOptions} {script : List Stmt}
    {compiled : Compiled} (hcompile : compile catalog options script = .ok compiled)
    (hglobals : compiled.numGlobals ≤ 65535) (hlocals : ∀ f ∈ compiled.functions, f.numLocals ≤ 65535)
    (hsize : compiled.image.size < 2 ^ 32) :
    ∃ image, Image.load compiled.image = .ok image ∧ image.Tells compiled ∧
      image.sections.InRow compiled.image.size := by
  obtain ⟨d, -, hcomplete, rfl⟩ := exists_draft_of_compile hcompile
  refine ⟨d.tables.loaded, ImageTables.load_image hcomplete.aligned hsize, ?_,
    ImageTables.inRow_loaded hcomplete.aligned⟩
  refine hcomplete.tells_loaded hglobals fun p hp => ?_
  exact hlocals _ (List.mem_map_of_mem (Array.mem_toList_iff.2 hp))

/-- A text with a zero inside, and a function that is left without a body since its parameter would hide a
variable: `var x; print("a\0b"); function f(x) { return 1 }` -/
def hidingScript : List Stmt :=
  [.var {} .var [.mk ⟨"x", {}⟩ none {}],
    .expr {} (.call {} (.ident ⟨"print", {}⟩) [.literal {} (.string "a\x00b")]),
    .function {} { name := ⟨"f", {}⟩, params := [.ident ⟨"x", {}⟩] } [.ret {} (some (.literal {} (.number 1)))]]

theorem images_tell_what_was_compiled_hiding :
    ∃ compiled, compile Catalog.builtin {} hidingScript = .ok compiled ∧ compiled.numErrors = 1 ∧
      compiled.functions.length = 2 ∧ ∃ image, Image.load compiled.image = .ok image ∧ image.Tells compiled ∧
      image.sections.InRow compiled.image.size := by
  have hfits : draftFits Catalog.builtin hidingScript 1 2 = true := by decide +kernel
  obtain ⟨d, hd, hproblems, hcount, hglobals, hlocals, hsize⟩ := exists_of_draftFits hfits
  have hcompile : compile Catalog.builtin {} hidingScript = .ok (d.compiled d.tables.image) := by
    rcases compile_of_draft hd with ⟨hok, -⟩ | ⟨⟨-, hclean⟩, -⟩
    · exact hok
    · cases hproblems.symm.trans hclean
  have hcount' : (d.compiled d.tables.image).functions.length = 2 := by
    rw [Draft.compiled, List.length_map, Array.length_toList, hcount]
  refine ⟨_, hcompile, hproblems, hcount', images_tell_what_was_compiled hcompile hglobals (fun f hf => ?_) hsize⟩
  obtain ⟨p, hp, rfl⟩ := List.mem_map.1 hf
  exact hlocals p (Array.mem_toList_iff.1 hp)

end BusScript
