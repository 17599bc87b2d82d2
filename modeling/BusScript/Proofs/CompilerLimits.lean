import BusScript.Proofs.CompiledImages

namespace BusScript

namespace ImageTables

theorem size_image (t : ImageTables) : t.image.size = Image.sectionsStart + 16 * t.functions.length +
    (t.functions.map fun f => 2 * f.body.size).sum + 8 * t.floats.length + 8 * t.roles.length +
    8 * t.strings.length + t.stringBytes.size := by
  have hcode : t.code.size = (t.functions.map fun f => 2 * f.body.size).sum := by
    rw [code, ← Array.length_toList, toList_foldl_map, List.length_flatMap]
    simp only [Array.length_toList, size_code]
  rw [(laid_image t).size, textStart, stringStart, roleStart, floatStart, codeStart, hcode]

end ImageTables

theorem sum_map_le {α β : Type} {xs : List α} {ys : List β} {f : α → Nat} {g : β → Nat} {c : Nat}
    (hlen : ys.length = xs.length)
    (h : ∀ (i : Nat) (y : β), ys[i]? = some y → ∃ x, xs[i]? = some x ∧ g y ≤ f x + c) :
    (ys.map g).sum ≤ (xs.map f).sum + c * xs.length := by
  induction ys generalizing xs with
  | nil => exact Nat.zero_le _
  | cons y ys ih =>
    obtain ⟨x, hx, hle⟩ := h 0 y rfl
    cases xs with
    | nil => cases hx
    | cons x' xs =>
      cases hx
      have hrest := ih (Nat.succ.inj hlen) fun i y' hy' => h (i + 1) y' hy'
      rw [List.map_cons, List.map_cons, List.sum_cons, List.sum_cons, List.length_cons, Nat.mul_succ]
      omega

namespace Draft

variable {d d' : Draft}

/-- A draft that fits and that has room in an image, with a word more for every procedure. -/
structure Encodes (d : Draft) : Prop extends d.Fits where
  image : d.tables.image.size + 2 * d.procedures.size < 2 ^ 32

theorem Patched.image_le (h : d.Patched d') : d'.tables.image.size ≤ d.tables.image.size + 2 * d.procedures.size := by
  have hcode : (d'.tables.functions.map fun f => 2 * f.body.size).sum ≤
      (d.tables.functions.map fun f => 2 * f.body.size).sum + 2 * d.tables.functions.length := by
    refine sum_map_le ?_ fun i f' hf' => ?_
    · rw [tables_functions, tables_functions, List.length_map, List.length_map, Array.length_toList,
        Array.length_toList, h.size]
    · rw [tables_functions, List.getElem?_map, Array.getElem?_toList] at hf'
      obtain ⟨p', hp', rfl⟩ := Option.map_eq_some_iff.1 hf'
      obtain ⟨p, hp, -, hpatched⟩ := h.procedures i p' hp'
      have hsize := hpatched.size
      refine ⟨p.table, getElem?_tables hp, ?_⟩
      change 2 * p'.writer.code.size ≤ 2 * p.writer.code.size + 2
      omega
  have hlen : ∀ e : Draft, e.tables.functions.length = e.procedures.size := by
    intro e
    rw [tables_functions, List.length_map, Array.length_toList]
  rw [hlen] at hcode
  rw [ImageTables.size_image, ImageTables.size_image, hlen, hlen, h.size]
  have hrest : d'.tables.floats = d.tables.floats ∧ d'.tables.roles = d.tables.roles ∧
      d'.tables.strings = d.tables.strings ∧ d'.tables.stringBytes = d.tables.stringBytes := by
    rw [h.rest]
    exact ⟨rfl, rfl, rfl, rfl⟩
  grind

theorem Patched.globals_eq (h : d.Patched d') : d'.globals = d.globals := by rw [h.rest]

theorem Patched.locals_le (h : d.Patched d') (hfits : d.Fits) {p' : Procedure} (hp' : p' ∈ d'.procedures) :
    p'.locals.size ≤ 65535 := by
  obtain ⟨i, hi⟩ := Array.mem_iff_getElem?.1 hp'
  obtain ⟨p, hp, -, hpatched⟩ := h.procedures i p' hi
  rw [hpatched.locals]
  exact (hfits.bodies p (Array.mem_of_getElem? hp)).1

end Draft

/-- Compiling either gives a result or stops at a limit, and it does so only for what is beyond the limits. -/
theorem compile_cases (c : Catalog) (hc : c.Fits) (options : CompileOptions) (script : List Stmt) :
    (∃ compiled, compile c options script = .ok compiled) ∨
      ∃ defect, compile c options script = .error (.abort defect) ∧ defect.IsLimit c.Fits ∧
        ¬ (Stmt.allWithinLimits script = true ∧ (Draft.lowered c options script).Encodes) := by
  rcases Draft.draftOf_cases c options script id with ⟨d, hd, hcomplete, hcatalog, hpatched⟩ | ⟨defect, hd, hlimit, hstop⟩
  · rcases compile_of_draft hd with ⟨hok, -⟩ | ⟨⟨-, hclean⟩, e, he, herror⟩
    · exact .inl ⟨_, hok⟩
    · refine .inr ⟨_, herror, trivial, ?_⟩
      rintro ⟨-, hencodes⟩
      have hok := hcomplete.checkImage hclean (hcatalog ▸ hc)
        (hpatched.globals_eq ▸ hencodes.globals) (fun p hp => hpatched.locals_le hencodes.toFits hp)
        (Nat.lt_of_le_of_lt hpatched.image_le hencodes.image)
      rw [he] at hok
      cases hok
  · rw [compile, hd]
    refine .inr ⟨defect, rfl, hlimit, ?_⟩
    rintro ⟨hwithin, hencodes⟩
    exact hstop hwithin hc hencodes.toFits

/-- With the built-in services: every script has a result, or it is beyond the limits and compiling stops because
something is too large. No label, scope or register goes wrong. -/
theorem compile_gives_result_or_stops_at_limit (options : CompileOptions) (script : List Stmt) :
    (∃ compiled, compile Catalog.builtin options script = .ok compiled) ∨
      ∃ defect, compile Catalog.builtin options script = .error (.abort defect) ∧ defect.IsLimit True ∧
        ¬ (Stmt.allWithinLimits script = true ∧ (Draft.lowered Catalog.builtin options script).Encodes) := by
  have hfits : Catalog.builtin.Fits = True := eq_true Catalog.builtin_fits
  rw [← hfits]
  exact compile_cases Catalog.builtin Catalog.builtin_fits options script

def defectOf? (script : List Stmt) : Option Defect :=
  match compile Catalog.builtin {} script with
  | .error (.abort defect) => some defect
  | _ => none

theorem compile_of_defectOf? {script : List Stmt} {defect : Defect} (h : defectOf? script = some defect) :
    compile Catalog.builtin {} script = .error (.abort defect) := by
  rw [defectOf?] at h
  split at h
  · next heq => rw [heq, Option.some.inj h]
  · cases h

def callScript (name : String) (args : List Expr) : List Stmt := [.expr {} (.call {} (.ident ⟨name, {}⟩) args)]

def numberArg (n : Nat) : Expr := .literal {} (.number (.ofNat n))

/-- `wait(5000)`, the period of `every(5000, () => {})`, and `print` with a text and 17 numbers stop the
compiler. -/
theorem oversized_calls_abort :
    compile Catalog.builtin {} (callScript "wait" [numberArg 5000]) = .error (.abort (.prefixOperand 5000001)) ∧
    compile Catalog.builtin {} (callScript "every" [numberArg 5000, .arrow {} [] []]) =
      .error (.abort (.prefixOperand 5000001)) ∧
    compile Catalog.builtin {} (callScript "print" (.literal {} (.string "") :: List.replicate 17 (numberArg 1))) =
      .error (.abort (.wordOperand 0x10c1)) :=
  ⟨compile_of_defectOf? (by decide +kernel), compile_of_defectOf? (by decide +kernel),
    compile_of_defectOf? (by decide +kernel)⟩

end BusScript
