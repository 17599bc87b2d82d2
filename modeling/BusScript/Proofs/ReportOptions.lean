import BusScript.Catalog.Builtin
import BusScript.Proofs.FinishedBodies

namespace BusScript

variable {catalog : Catalog} {script : List Stmt} {d : Draft}

/-- Alike in all but the debug information and the listed problems. -/
structure Compiled.SameCode (c c' : Compiled) : Prop where
  image : c'.image = c.image
  functions : c'.functions = c.functions
  roles : c'.roles = c.roles
  floats : c'.floats = c.floats
  strings : c'.strings = c.strings
  numGlobals : c'.numGlobals = c.numGlobals
  numErrors : c'.numErrors = c.numErrors

/-- The problems that are listed out of all problems: the first `limit` of them, or all for no limit. -/
def listedErrors (limit : Nat) (all : List Diagnostic) : List Diagnostic :=
  if limit = 0 then all else all.take limit

theorem Findings.listed_addAll (limit : Nat) (found : Findings) (ps : List Diagnostic)
    (hroom : limit = 0 ∨ found.listed.size ≤ limit) :
    (found.addAll limit ps).listed.toList = listedErrors limit (found.listed.toList ++ ps) := by
  induction ps generalizing found with
  | nil =>
    rw [List.append_nil, listedErrors]
    split
    · rfl
    · next hlimit => exact (List.take_of_length_le (hroom.resolve_left hlimit)).symm
  | cons p rest ih =>
    change ((found.add limit p).addAll limit rest).listed.toList = _
    by_cases hlisted : limit = 0 ∨ found.listed.size < limit
    · have hadd : (found.add limit p).listed = found.listed.push p := if_pos hlisted
      rw [ih _ (by grind), hadd, Array.toList_push, List.append_assoc, List.singleton_append]
    · have hadd : (found.add limit p).listed = found.listed := if_neg hlisted
      have hfull : limit ≠ 0 ∧ limit = found.listed.toList.length := by grind
      rw [ih _ (by grind), hadd, listedErrors, listedErrors, if_neg hfull.1, if_neg hfull.1, hfull.2,
        List.take_left', List.take_left']
      all_goals rfl

/-- What is compiled from a draft under other options, where the same problems were found. -/
theorem Draft.sameCode_compiled (d : Draft) (options : CompileOptions) {found : Findings}
    (hcount : found.count = d.findings.count) :
    (d.compiled d.tables.image).SameCode ((d.under options found).compiled d.tables.image) :=
  ⟨rfl, rfl, rfl, rfl, rfl, rfl, hcount⟩

/-- Two compiles of a script give the same code, tables and number of problems, whatever their options,
unless only the second one checks the image and refuses it. The listed problems are the first ones of
the list that a compile without a limit gives. -/
theorem options_leave_code_alone (options options' : CompileOptions) {c : Compiled}
    (h : compile catalog options script = .ok c) :
    (∃ c', compile catalog options' script = .ok c' ∧ c.SameCode c' ∧
        (options.maxErrors = 0 → c.errors.length = c.numErrors ∧
          c'.errors = listedErrors options'.maxErrors c.errors)) ∨
      (options.verify = false ∧ options'.verify = true ∧ c.numErrors = 0) ∧ ∃ e, checkImage c.image = .error e ∧
          compile catalog options' script = .error (.abort (.rejectedImage e)) := by
  obtain ⟨d, hd, -, rfl⟩ := exists_draft_of_compile h
  obtain ⟨ps, hps⟩ := Draft.exists_found hd
  have hown : d.findings = Findings.addAll options.maxErrors {} ps :=
    congrArg Draft.findings (Except.ok.inj (hd.symm.trans (hps options)))
  have hcount (limit : Nat) : (Findings.addAll limit {} ps).count = ps.length :=
    (Findings.count_addAll limit {} ps).trans (Nat.zero_add _)
  have hlisted (limit : Nat) : (Findings.addAll limit {} ps).listed.toList = listedErrors limit ps :=
    Findings.listed_addAll limit {} ps (.inr (Nat.zero_le _))
  have hnum : d.findings.count = ps.length := by rw [hown, hcount]
  rcases compile_of_draft (hps options') with ⟨hok, -⟩ | ⟨⟨hverify, hclean⟩, e, he, herror⟩
  · refine .inl ⟨_, hok, d.sameCode_compiled options' ((hcount _).trans hnum.symm), fun hall => ?_⟩
    have herrors : (d.compiled d.tables.image).errors = ps := by
      change d.findings.listed.toList = ps
      rw [hown, hlisted, hall, listedErrors, if_pos rfl]
    rw [herrors]
    exact ⟨hnum.symm, hlisted _⟩
  · have hnone : d.findings.count = 0 := hnum.trans ((hcount _).symm.trans hclean)
    refine .inr ⟨⟨?_, hverify, hnone⟩, e, he, herror⟩
    rcases compile_of_draft hd with ⟨-, himage⟩ | ⟨-, e', -, herror'⟩
    · refine Bool.eq_false_iff.2 fun hfirst => ?_
      cases (himage ⟨hfirst, hnone⟩).symm.trans he
    · cases h.symm.trans herror'

def strayScript : List Stmt :=
  ["a", "b", "c"].map fun name => .expr {} (.ident { name, span := {} })

theorem options_leave_code_alone_stray :
    ∃ c c', compile Catalog.builtin {} strayScript = .ok c ∧ c.numErrors = 3 ∧ c.errors.length = 3 ∧
      compile Catalog.builtin { debugInfo := false, maxErrors := 2 } strayScript = .ok c' ∧
        c.SameCode c' ∧ c'.errors = c.errors.take 2 := by
  have hthree : (compile Catalog.builtin {} strayScript).toOption.any (·.numErrors = 3) = true := by
    decide +kernel
  cases hcompile : compile Catalog.builtin {} strayScript with
  | error stop =>
    rw [hcompile] at hthree
    cases hthree
  | ok c =>
    rw [hcompile] at hthree
    have hnum : c.numErrors = 3 := of_decide_eq_true hthree
    rcases options_leave_code_alone {} { debugInfo := false, maxErrors := 2 } hcompile with
      ⟨c', hcompile', hsame, herrors⟩ | ⟨⟨hverify, -⟩, -⟩
    · obtain ⟨hlength, herrors⟩ := herrors rfl
      exact ⟨c, c', rfl, hnum, hlength.trans hnum, hcompile', hsame, herrors⟩
    · cases hverify

end BusScript
