import Mathlib
import BusScript.Catalog.Builtin
import BusScript.Proofs.FinishedBodies
import BusScript.Proofs.Meaning

namespace BusScript

open Lowering

namespace Declarator

def ident : Declarator → Ident
  | .mk id _ _ => id

def service? (c : Catalog) : Declarator → Option (Except Diagnostic ServiceSpec)
  | .mk _ init _ => init.bind (roleService? c)

def role? (c : Catalog) (x : Declarator) : Option (String × ServiceSpec) :=
  match x.service? c with
  | some (.ok service) => some (x.name, service)
  | _ => none

def variableNames (c : Catalog) (ds : List Declarator) : List String := (ds.filter (·.service? c |>.isNone)).map name

theorem roleNames_sublist (c : Catalog) (ds : List Declarator) :
    ((ds.filterMap (·.role? c)).map (·.1)).Sublist (ds.map name) := by
  induction ds with
  | nil => exact .slnil
  | cons x rest ih =>
    rw [List.filterMap_cons, role?]
    rcases x.service? c with _ | (p | service)
    · exact ih.cons _
    · exact ih.cons _
    · exact ih.cons_cons _

end Declarator

namespace Stmt

def declarators : Stmt → List Declarator
  | .var _ .var ds => ds
  | _ => []

def declaresRole (c : Catalog) : Stmt → Bool
  | .var _ .var [x] => (x.service? c).isSome
  | _ => false

theorem exists_of_declaresRole {c : Catalog} {s : Stmt} (h : s.declaresRole c = true) :
    ∃ span x, s = .var span .var [x] ∧ (x.service? c).isSome = true := by
  rw [declaresRole.eq_def] at h
  split at h
  · exact ⟨_, _, rfl, h⟩
  · cases h

end Stmt

/-- The same statements in another order, in which only declarations of single roles have moved. -/
structure Reordered (c : Catalog) (script script' : List Stmt) : Prop where
  perm : script.Perm script'
  others : script.filter (!·.declaresRole c) = script'.filter (!·.declaresRole c)

namespace Draft

variable {d : Draft}

def declared (d : Draft) (names : List String) : Draft := { d with globals := names.foldl Variables.add d.globals }

theorem declared_append (d : Draft) (names more : List String) :
    d.declared (names ++ more) = (d.declared names).declared more := by
  rw [declared, List.foldl_append]
  rfl

theorem resolve?_declared {names : List String} {other : String} :
    (d.declared names).resolve? other = none ↔ d.resolve? other = none ∧ other ∉ names := by
  induction names generalizing d with
  | nil => simp [declared]
  | cons name names ih =>
    have hadd : (d.declared [name]).resolve? other = none ↔ d.resolve? other = none ∧ other ≠ name := by
      have hfind : (d.globals.add name).find? other = none ↔ d.globals.find? other = none ∧ other ≠ name := by
        by_cases hname : other = name
        · simp [Variables.find?, Variables.add, Array.findIdx?_push, hname]
        · simp [Variables.find?, Variables.add, Array.findIdx?_push, hname, Ne.symm hname]
      have hglobals : (d.declared [name]).globals = d.globals.add name := rfl
      simp only [resolve?, Option.orElse_eq_orElse, Option.orElse_eq_or, Option.or_eq_none_iff, Option.map_eq_none_iff,
        hglobals, hfind]
      constructor
      · rintro ⟨h, ⟨h', hne⟩, h''⟩
        exact ⟨⟨h, h', h''⟩, hne⟩
      · rintro ⟨⟨h, h', h''⟩, hne⟩
        exact ⟨h, ⟨h', hne⟩, h''⟩
    rw [← List.singleton_append, declared_append, ih, hadd, List.mem_append, List.mem_singleton, and_assoc, not_or]

structure Declarable (d : Draft) (taken : List String) (ds : List Declarator) : Prop where
  nodup : (taken ++ ds.map Declarator.name).Nodup
  vacant : ∀ x ∈ ds, d.resolve? x.name = none
  served : ∀ x ∈ ds, ∀ p, x.service? d.catalog ≠ some (.error p)

theorem Declarable.perm {ds ds' : List Declarator} (h : d.Declarable [] ds) (hperm : ds.Perm ds') :
    d.Declarable [] ds' where
  nodup := (hperm.map Declarator.name).nodup_iff.1 h.nodup
  vacant x hx := h.vacant x (hperm.mem_iff.2 hx)
  served x hx := h.served x (hperm.mem_iff.2 hx)

theorem declarable_cons {taken : List String} {x : Declarator} {ds : List Declarator} : d.Declarable taken (x :: ds) ↔
      (d.resolve? x.name = none ∧ x.name ∉ taken) ∧ (∀ p, x.service? d.catalog ≠ some (.error p)) ∧
        d.Declarable (taken ++ [x.name]) ds := by
  have hnames : taken ++ (x :: ds).map Declarator.name = (taken ++ [x.name]) ++ ds.map Declarator.name := by
    rw [List.append_assoc]
    rfl
  constructor
  · rintro ⟨hnodup, hvacant, hserved⟩
    rw [List.forall_mem_cons] at hvacant hserved
    exact ⟨⟨hvacant.1, fun hmem => (List.nodup_append.1 hnodup).2.2 _ hmem _ List.mem_cons_self rfl⟩, hserved.1,
      hnames ▸ hnodup, hvacant.2, hserved.2⟩
  · rintro ⟨⟨hx, -⟩, hserved, hnodup, hvacant, hrest⟩
    exact ⟨hnames ▸ hnodup, List.forall_mem_cons.2 ⟨hx, hvacant⟩, List.forall_mem_cons.2 ⟨hserved, hrest⟩⟩

end Draft

namespace Lowering

open Draft

variable {d d' : Draft} {roles : List (String × ServiceSpec)}

theorem declareGlobal_eq (roles : List (String × ServiceSpec)) (x : Declarator) (d : Draft) : declareGlobal roles x d =
      if d.resolve? x.name = none ∧ x.name ∉ roles.map (·.1) then
        match x.service? d.catalog with
        | none => .ok roles (d.declared [x.name])
        | some (.ok service) => .ok (roles ++ [(x.name, service)]) d
        | some (.error p) => .error (.reject p) d
      else .error (.reject ⟨.alreadyDefined x.name, x.ident.span⟩) d := by
  obtain ⟨id, init, span⟩ := x
  have hany : roles.any (·.1 == id.name) = true ↔ id.name ∈ roles.map (·.1) := by
    simp only [List.any_eq_true, List.mem_map, beq_iff_eq]
  change declareGlobal roles (.mk id init span) d = if d.resolve? id.name = none ∧ id.name ∉ roles.map (·.1) then
    (match init.bind (roleService? d.catalog) with | none => _ | some (.ok _) => _ | some (.error _) => _) else _
  simp only [declareGlobal, requireFree, bind, EStateM.bind, get, getThe, MonadStateOf.get, EStateM.get]
  cases d.resolve? id.name with
  | some v =>
    simp only [reduceCtorEq, false_and, if_false, Option.isSome_some, if_true]
    rfl
  | none =>
    by_cases hroles : id.name ∈ roles.map (·.1)
    · simp only [hroles, not_true_eq_false, and_false, if_false, hany.2 hroles, if_true]
      rfl
    · simp only [hroles, not_false_eq_true, and_self, if_true, mt hany.1 hroles, Option.isSome_none, Bool.false_eq_true,
        if_false, pure, EStateM.pure, EStateM.bind, EStateM.get]
      rcases init.bind (roleService? d.catalog) with _ | (_ | _) <;> rfl

/-- Declarators that can be declared are, and leave no other trace than their globals and roles. For others, a problem
is reported. -/
theorem declareGlobals_cases {ds : List Declarator} {taken names : List String} (hnodup : taken.Nodup)
    (htaken : ∀ name, name ∈ taken ↔ name ∈ names ∨ name ∈ roles.map (·.1)) :
    d.Declarable taken ds ∧ declareGlobals roles ds (d.declared names) =
        .ok (roles ++ ds.filterMap (·.role? d.catalog)) (d.declared (names ++ Declarator.variableNames d.catalog ds)) ∨
      ¬ d.Declarable taken ds ∧
        ∃ roles' d', declareGlobals roles ds (d.declared names) = .ok roles' d' ∧ d.findings.count < d'.findings.count := by
  induction ds generalizing d roles taken names with
  | nil => exact .inl ⟨⟨by simpa using hnodup, nofun, nofun⟩, by simp [declareGlobals, Declarator.variableNames]; rfl⟩
  | cons x rest ih =>
    have hreported {p : Diagnostic} (h : declareGlobal roles x (d.declared names) = .error (.reject p) (d.declared names)) :
        ∃ roles' d', declareGlobals roles (x :: rest) (d.declared names) = .ok roles' d' ∧
          d.findings.count < d'.findings.count := by
      simp only [declareGlobals, bind, EStateM.bind, attempt, h]
      change ∃ roles' d', declareGlobals roles rest ((d.reported p).declared names) = _ ∧ _
      rcases @ih (d.reported p) roles taken names hnodup htaken with ⟨-, h⟩ | ⟨-, _, _, h, hlt⟩
      · exact ⟨_, _, h, Nat.lt_succ_self _⟩
      · exact ⟨_, _, h, Nat.lt_of_succ_lt hlt⟩
    have hone := declareGlobal_eq roles x (d.declared names)
    split at hone
    · next hfree =>
      rw [resolve?_declared, and_assoc, ← not_or, ← htaken] at hfree
      have hnodup' : (taken ++ [x.name]).Nodup := List.nodup_append_comm.1 (List.nodup_cons.2 ⟨hfree.2, hnodup⟩)
      change _ = (match x.service? d.catalog with | none => _ | some (.ok _) => _ | some (.error _) => _) at hone
      rcases hservice : x.service? d.catalog with _ | (p | service)
      · rw [hservice, ← declared_append] at hone
        have hrest := @ih d roles (taken ++ [x.name]) (names ++ [x.name]) hnodup' fun name => by
          rw [List.mem_append, List.mem_append, htaken, or_right_comm]
        simpa [declareGlobals, bind, EStateM.bind, attempt, hone, declarable_cons, hfree, hservice,
          Declarator.variableNames, Declarator.role?] using hrest
      · rw [hservice] at hone
        exact .inr ⟨fun h => (declarable_cons.1 h).2.1 p hservice, hreported hone⟩
      · rw [hservice] at hone
        have hrest := @ih d (roles ++ [(x.name, service)]) (taken ++ [x.name]) names hnodup' fun name => by
          rw [List.mem_append, List.map_append, List.mem_append, htaken, or_assoc]
          rfl
        simpa [declareGlobals, bind, EStateM.bind, attempt, hone, declarable_cons, hfree, hservice,
          Declarator.variableNames, Declarator.role?] using hrest
    · next hknown =>
      rw [resolve?_declared, and_assoc, ← not_or, ← htaken] at hknown
      exact .inr ⟨fun h => hknown (declarable_cons.1 h).1, hreported hone⟩

theorem declareGlobals_new (ds : List Declarator) (d : Draft) : d.Declarable [] ds ∧ declareGlobals [] ds d =
        .ok (ds.filterMap (·.role? d.catalog)) (d.declared (Declarator.variableNames d.catalog ds)) ∨
      ¬ d.Declarable [] ds ∧ ∃ roles' d', declareGlobals [] ds d = .ok roles' d' ∧ d.findings.count < d'.findings.count :=
  @declareGlobals_cases d [] ds [] [] List.nodup_nil fun _ => by simp

theorem declareGlobals_append (roles : List (String × ServiceSpec)) (ds es : List Declarator) :
    declareGlobals roles (ds ++ es) = (do declareGlobals (← declareGlobals roles ds) es) := by
  induction ds generalizing roles with
  | nil => rw [declareGlobals, pure_bind, List.nil_append]
  | cons x rest ih =>
    simp only [List.cons_append, declareGlobals, bind_assoc]
    congr 1
    funext result
    cases result <;> simp only [bind_assoc, ih]

theorem declareVariables_eq (roles : List (String × ServiceSpec)) (stmts : List Stmt) :
    declareVariables roles stmts = declareGlobals roles (stmts.flatMap Stmt.declarators) := by
  induction stmts generalizing roles with
  | nil => rfl
  | cons s rest ih =>
    rw [List.flatMap_cons, declareGlobals_append]
    cases s with
    | var span kind ds => cases kind <;> simp only [declareVariables, Stmt.declarators, declareGlobals, pure_bind, ih]
    | _ => simp only [declareVariables, Stmt.declarators, declareGlobals, pure_bind, ih]

def sortedRoles (roles : List (String × ServiceSpec)) : List (String × ServiceSpec) :=
  roles.mergeSort fun a b => decide (¬ b.1 < a.1)

theorem sortedRoles_perm (roles : List (String × ServiceSpec)) : (sortedRoles roles).Perm roles :=
  List.mergeSort_perm roles _

theorem sortedRoles_pairwise (roles : List (String × ServiceSpec)) :
    (sortedRoles roles).Pairwise fun a b => a.1 ≤ b.1 := by
  refine (List.pairwise_mergeSort ?_ ?_ roles).imp fun h => String.not_lt.1 (of_decide_eq_true h)
  · grind
  · grind

theorem sortedRoles_names (hnodup : (roles.map (·.1)).Nodup) : ((sortedRoles roles).map (·.1)).Pairwise (· < ·) := by
  have hne : ((sortedRoles roles).map (·.1)).Nodup := ((sortedRoles_perm roles).map _).nodup_iff.2 hnodup
  exact ((List.pairwise_map.2 (sortedRoles_pairwise roles)).and hne).imp fun h => Std.lt_of_le_of_ne h.1 h.2

theorem sortedRoles_eq_of_perm {roles' : List (String × ServiceSpec)} (hperm : roles.Perm roles')
    (hnodup : (roles.map (·.1)).Nodup) : sortedRoles roles = sortedRoles roles' := by
  refine List.Perm.eq_of_pairwise (fun a b ha hb hab hba => ?_) (sortedRoles_pairwise roles)
    (sortedRoles_pairwise roles') ((sortedRoles_perm roles).trans (hperm.trans (sortedRoles_perm roles').symm))
  exact List.inj_on_of_nodup_map hnodup ((sortedRoles_perm roles).mem_iff.1 ha)
    (hperm.mem_iff.2 ((sortedRoles_perm roles').mem_iff.1 hb)) (String.le_antisymm hab hba)

theorem setWriter_writer (h : d.Sound) : d.setWriter d.writer = d := by
  have hprocedures : (d.modifyProcedure ({ · with writer := d.writer })).procedures = d.procedures := by
    refine Array.ext_getElem? fun i => ?_
    rw [getElem?_modifyProcedure h]
    split
    · next heq =>
      rw [heq, h.procedure_eq]
      rfl
    · rfl
  exact congrArg (fun procedures => { d with procedures }) hprocedures

theorem write_setWriter {α : Type} (h : d.Sound) (act : Writing α) (w : CodeWriter) :
    write act (d.setWriter w) = match act w with
      | .ok a w' => .ok a (d.setWriter w')
      | .error e w' => .error e (d.setWriter w') := by
  have hwriter : (d.setWriter w).writer = w := writer_modifyProcedure h _
  rw [write, hwriter]
  cases act w <;> simp only [setWriter_setWriter]

theorem numScopes_setWriter (h : d.Sound) (w : CodeWriter) :
    numScopes (d.setWriter w) = .ok w.scopes.length (d.setWriter w) := by
  have hwriter : (d.setWriter w).writer = w := writer_modifyProcedure h _
  change EStateM.Result.ok (d.setWriter w).writer.scopes.length _ = _
  rw [hwriter]

theorem guarded_of_idle {act : Lowering Unit} {span : Span} (h : d.Sound)
    (hact : ∀ w, act (d.setWriter w) = .ok () (d.setWriter w)) (w : CodeWriter) :
    guarded span act (d.setWriter w) = .ok () (d.setWriter w) := by
  have hattempt (w : CodeWriter) : attempt act (d.setWriter w) = .ok (.ok ()) (d.setWriter w) := by
    rw [attempt, hact]
  rw [guarded, bind_of_ok (numScopes_setWriter h w)]
  refine (bind_of_ok (write_setWriter h CodeWriter.push w)).trans ?_
  rw [bind_of_ok (hattempt _)]
  refine (bind_of_ok (write_setWriter h CodeWriter.pop _)).trans ?_
  rw [bind_of_ok (numScopes_setWriter h _), if_neg (fun hne => hne rfl)]
  rfl

theorem statement_of_idle {act : Lowering Unit} {span : Span} (h : d.Sound) (hquiet : d.writer.statement = none)
    (hact : ∀ w, act (d.setWriter w) = .ok () (d.setWriter w)) : statement span act d = .ok () d := by
  have hstart : write (CodeWriter.startStatement span.line) d =
      .ok () (d.setWriter { d.writer with statement := some (span.line, d.writer.location) }) := by
    change EStateM.Result.ok _ (d.setWriter { CodeWriter.closeRun d.writer with
      statement := some (span.line, d.writer.location) }) = _
    rw [CodeWriter.closeRun, hquiet]
  have hempty : ∀ w : CodeWriter, w.statement = none →
      CodeWriter.endStatement w.currentLine { w with statement := some (span.line, w.location) } = .ok () w := by
    rintro ⟨code, labels, allocated, scopes, maxRegs, sourceMap, statement⟩ rfl
    change EStateM.Result.ok () _ = _
    simp [CodeWriter.closeRun, CodeWriter.location, CodeWriter.currentLine]
  rw [statement]
  refine (bind_of_ok rfl).trans ((bind_of_ok hstart).trans ?_)
  rw [bind_of_ok (guarded_of_idle h hact _)]
  change write (CodeWriter.endStatement d.writer.currentLine) _ = _
  rw [write_setWriter h, hempty d.writer hquiet]
  exact congrArg _ (setWriter_writer h)

theorem lowerStmt_of_declaresRole {s : Stmt} (hs : s.declaresRole d.catalog = true) (h : d.Sound)
    (htop : d.atTopLevel = true) (hquiet : d.writer.statement = none) : lowerStmt s d = .ok () d := by
  obtain ⟨span, ⟨id, init, span'⟩, rfl, hinit⟩ := Stmt.exists_of_declaresRole hs
  obtain ⟨service, hservice⟩ := Option.isSome_iff_exists.1 hinit
  obtain ⟨init, rfl, hservice⟩ := Option.bind_eq_some_iff.1 hservice
  rw [lowerStmt, if_pos rfl]
  refine statement_of_idle h hquiet fun w => ?_
  rw [lowerDeclarators, lowerDeclarators]
  have hdeclare : declare id (some ⟨init, lowerExpr init, lowerBody init⟩) span' (d.setWriter w) =
      .ok () (d.setWriter w) := by
    have hfound : (some (⟨init, lowerExpr init, lowerBody init⟩ : Part)).bind
        (fun p => roleService? (d.setWriter w).catalog p.expr) = some service := hservice
    have hlevel : (d.setWriter w).atTopLevel = true := htop
    rw [declare]
    refine (bind_of_ok rfl).trans ?_
    rw [hfound]
    simp only [hlevel]
    rfl
  exact bind_of_ok hdeclare

theorem lowerStmt_quiet {s : Stmt} (hok : lowerStmt s d = .ok () d') (h : d'.current < d'.procedures.size)
    (hquiet : d.writer.statement = none) : d'.writer.statement = none := by
  have hstatement : ∃ span act, lowerStmt s = statement span act := by
    cases s with
    | ifElse span condition thenStmt elseStmt => cases elseStmt <;> exact ⟨span, _, by rw [lowerStmt]⟩
    | ret span value => cases value <;> exact ⟨span, _, by rw [lowerStmt]⟩
    | _ => exact ⟨_, _, by rw [lowerStmt]⟩
  obtain ⟨span, act, hact⟩ := hstatement
  rw [hact, statement] at hok
  obtain ⟨_, _, hget, hok⟩ := exists_of_bind_ok hok
  cases hget
  obtain ⟨-, d1, -, hok⟩ := exists_of_bind_ok hok
  obtain ⟨-, d2, -, hok⟩ := exists_of_bind_ok hok
  rw [CodeWriter.currentLine, hquiet] at hok
  cases hok
  have hlt : d2.current < d2.procedures.size := by simpa [Draft.setWriter, Draft.modifyProcedure] using h
  simp [Draft.writer, Draft.procedure, Draft.setWriter, Draft.modifyProcedure, hlt, Array.getElem_modify_self]

variable {c : Catalog} {o : CompileOptions} {script script' : List Stmt} {D : Draft}

def declareScript (script : List Stmt) : Lowering Unit := do
  declareFunctions script
  let roles ← declareVariables [] script
  addRoles roles

def lowerDeclared (script : List Stmt) : Lowering Unit := do
  lowerTopLevel script
  modify ({ · with topLevel := false })
  emitReturn
  dispatchers
  checkSavedRegs (← get).procedures.toList

theorem wholeScript_eq (script : List Stmt) : wholeScript script = (do declareScript script; lowerDeclared script) := by
  simp only [wholeScript, lowerScript, declareScript, lowerDeclared, bind_assoc]

theorem declareScript_outcome (c : Catalog) (o : CompileOptions) (script : List Stmt) :
    Outcome (fun _ D => D.Declared c script) (fun _ _ => False) (declareScript script (Draft.new c o)) := by
  refine Outcome.bind (declareFunctions_outcome (declared_new c o)) (fun _ d1 hd1 => ?_) fun _ _ => False.elim
  refine Outcome.bind (declareVariables_outcome hd1 nofun) ?_ fun _ _ => False.elim
  rintro roles d2 ⟨hd2, hroles⟩
  exact addRoles_outcome hd2 hroles

def declaredRoles (ds : List Declarator) (d : Draft) : Draft :=
  { d.declared (Declarator.variableNames d.catalog ds) with
    roles := ((sortedRoles (ds.filterMap (·.role? d.catalog))).map
      fun (name, service) => { name, service : RoleEntry }).toArray }

theorem exists_declarable (h : declareScript script (Draft.new c o) = .ok () D) (hclean : D.findings.count = 0) :
    ∃ d1, declareFunctions script (Draft.new c o) = .ok () d1 ∧ d1.catalog = c ∧
      d1.Declarable [] (script.flatMap Stmt.declarators) ∧ D = declaredRoles (script.flatMap Stmt.declarators) d1 := by
  obtain ⟨_, d1, hfunctions, h⟩ := exists_of_bind_ok h
  obtain ⟨roles, d2, hvariables, h⟩ := exists_of_bind_ok h
  have hdeclared : Outcome (fun _ d => d.Declared c script) (fun _ _ => False) (declareFunctions script (Draft.new c o)) :=
    declareFunctions_outcome (declared_new c o)
  rw [hfunctions] at hdeclared
  rw [declareVariables_eq] at hvariables
  rcases declareGlobals_new (script.flatMap Stmt.declarators) d1 with ⟨hdeclarable, heq⟩ | ⟨-, roles', d', heq, hlt⟩
  · rw [heq] at hvariables
    cases hvariables
    cases h
    exact ⟨d1, hfunctions, hdeclared.catalog, hdeclarable, rfl⟩
  · rw [heq] at hvariables
    cases hvariables
    cases h
    simp_all

theorem declareFunctions_filter (c : Catalog) (script : List Stmt) :
    declareFunctions (script.filter (!·.declaresRole c)) = declareFunctions script := by
  induction script with
  | nil => rfl
  | cons s rest ih =>
    by_cases hs : s.declaresRole c = true
    · obtain ⟨span, x, rfl, -⟩ := Stmt.exists_of_declaresRole hs
      rw [List.filter_cons_of_neg (by simp [hs]), ih]
      rfl
    · rw [List.filter_cons_of_pos (by simp [hs])]
      cases s with
      | function span head body => rw [declareFunctions, declareFunctions, ih]
      | _ => exact ih

theorem variableNames_filter (c : Catalog) (script : List Stmt) :
    Declarator.variableNames c ((script.filter (!·.declaresRole c)).flatMap Stmt.declarators) =
      Declarator.variableNames c (script.flatMap Stmt.declarators) := by
  induction script with
  | nil => rfl
  | cons s rest ih =>
    have happend (ds es : List Declarator) : Declarator.variableNames c (ds ++ es) =
        Declarator.variableNames c ds ++ Declarator.variableNames c es := by simp [Declarator.variableNames]
    by_cases hs : s.declaresRole c = true
    · obtain ⟨span, x, rfl, hx⟩ := Stmt.exists_of_declaresRole hs
      have hnone : Declarator.variableNames c (Stmt.declarators (.var span .var [x])) = [] := by
        simp [Declarator.variableNames, Stmt.declarators, Option.isSome_iff_ne_none.1 hx]
      rw [List.filter_cons_of_neg (by simp [hs]), ih, List.flatMap_cons, happend, hnone, List.nil_append]
    · rw [List.filter_cons_of_pos (by simp [hs]), List.flatMap_cons, List.flatMap_cons, happend, happend, ih]

theorem declareScript_of_reordered (h : Reordered c script script') (hok : declareScript script (Draft.new c o) = .ok () D)
    (hclean : D.findings.count = 0) : declareScript script' (Draft.new c o) = .ok () D := by
  obtain ⟨d1, hfunctions, rfl, hdeclarable, rfl⟩ := exists_declarable hok hclean
  have hperm := h.perm.flatMap_right Stmt.declarators
  have hfunctions' : declareFunctions script' (Draft.new d1.catalog o) = .ok () d1 := by
    rw [← declareFunctions_filter d1.catalog script', ← h.others, declareFunctions_filter, hfunctions]
  have hnames : Declarator.variableNames d1.catalog (script'.flatMap Stmt.declarators) =
      Declarator.variableNames d1.catalog (script.flatMap Stmt.declarators) := by
    rw [← variableNames_filter d1.catalog script, h.others, variableNames_filter]
  have hroles := sortedRoles_eq_of_perm (hperm.filterMap (·.role? d1.catalog))
    ((Declarator.roleNames_sublist d1.catalog _).nodup hdeclarable.nodup)
  rw [declareScript, bind_of_ok hfunctions', declareVariables_eq]
  obtain ⟨-, heq⟩ := (declareGlobals_new (script'.flatMap Stmt.declarators) d1).resolve_right
    fun h => h.1 (hdeclarable.perm hperm)
  rw [bind_of_ok heq, hnames, declaredRoles, hroles]
  rfl

theorem lowerDeclared_leveled (script : List Stmt) (d : Draft) (top : Bool) :
    lowerDeclared script (d.leveled top) = lowerDeclared script d := by
  cases script <;> rfl

theorem lowerDeclared_filter {stmts : List Stmt} (hD : D.Declared c script) (hstmts : ∀ s ∈ stmts, s ∈ script)
    (h : (D.leveled true).Inside [] 0 (d.leveled true)) (hquiet : d.writer.statement = none) :
    lowerDeclared (stmts.filter (!·.declaresRole c)) d = lowerDeclared stmts d := by
  induction stmts generalizing d with
  | nil => rfl
  | cons s rest ih =>
    rw [List.forall_mem_cons] at hstmts
    have hcons (ss : List Stmt) : lowerDeclared (s :: ss) d =
        (lowerStmt s >>= fun _ => lowerDeclared ss) (d.leveled true) := by
      simp only [lowerDeclared, lowerTopLevel, bind_assoc]
      rfl
    by_cases hs : s.declaresRole c = true
    · have htop : (d.leveled true).atTopLevel = true := by
        rw [h.grown.atTopLevel, Draft.atTopLevel]
        exact beq_iff_eq.2 hD.current
      have hcatalog : (d.leveled true).catalog = c := h.grown.catalog.trans hD.catalog
      rw [List.filter_cons_of_neg (by simp [hs]), hcons,
        bind_of_ok (lowerStmt_of_declaresRole (by rwa [hcatalog]) h.ready.sound htop hquiet), lowerDeclared_leveled]
      exact ih hstmts.2 h hquiet
    · rw [List.filter_cons_of_pos (by simp [hs]), hcons, hcons]
      have hawaiting := ((hD.awaiting hstmts.1).leveled true).mono h.toWithin
      have hstmt := lowerStmt_completes (P := False) s False.elim (d.leveled true) h.ready fun _ => hawaiting
      cases hrun : lowerStmt s (d.leveled true) with
      | error stop d1 => simp only [bind, EStateM.bind, hrun]
      | ok _ d1 =>
        rw [hrun] at hstmt
        have hd1 := hstmt.1.1
        have hlevel : d1.leveled true = d1 := by rw [Draft.leveled, ← show d1.topLevel = true from hd1.grown.topLevel]
        rw [bind_of_ok hrun, bind_of_ok hrun]
        exact ih hstmts.2 (hlevel.symm ▸ h.trans hd1) (lowerStmt_quiet hrun hd1.ready.sound.current hquiet)

theorem lowerDeclared_outcome (hD : D.Declared c script) :
    Outcome (fun _ d => d.roles.toList.map (·.name) = D.roles.toList.map (·.name) ∧
        (d.findings.count = 0 → D.findings.count = 0)) (fun _ _ => True) (lowerDeclared script D) := by
  have hstart := (hD.ready.leveled true).inside
  refine Outcome.bind (lowerTopLevel_outcome (P := False) False.elim hD (fun _ => id) hstart) ?_ fun _ _ _ => trivial
  rintro _ d1 ⟨hd1, hgrows1, hserved, hscopes⟩
  rw [Outcome.bind_iff, Outcome.modify_iff]
  refine Outcome.bind (emitReturn_outcome (hd1.ready.leveled false)) (fun _ d2 hd2 => ?_) fun _ _ => False.elim
  refine Outcome.bind (dispatchers_outcome (P := False) (hD.pending hd1 hserved hscopes hd2)) ?_ fun _ _ _ => trivial
  rintro _ d3 ⟨-, hgrows3⟩
  have hgrows := (hgrows1.trans ((Draft.grows_leveled d1 false).trans hd2.grown.toGrows)).trans hgrows3
  rw [Outcome.bind_iff, Outcome.get_iff]
  refine (checkSavedRegs_outcome d3.procedures.toList d3).mono ?_ fun _ _ _ => trivial
  rintro _ _ ⟨⟨findings, rfl⟩, hregs⟩
  refine ⟨List.ext_getElem? fun i => ?_, fun hclean => hgrows.clean ((hregs hclean).1 ▸ hclean)⟩
  rw [List.getElem?_map, List.getElem?_map, Array.getElem?_toList, Array.getElem?_toList]
  cases hentry : D.roles[i]? with
  | none => rw [Array.getElem?_eq_none (hgrows.roles.1 ▸ Array.getElem?_eq_none_iff.1 hentry)]
  | some entry =>
    obtain ⟨entry', hentry', hname, -⟩ := hgrows.roles.2 i entry hentry
    rw [hentry', Option.map_some, Option.map_some, hname]

/-- Of a script that is lowered without problems, the roles have their names in order, each once, and scripts that
differ from it only in where they declare roles come to the same draft. -/
theorem wholeScript_of_clean (hok : wholeScript script (Draft.new c o) = .ok () d) (hclean : d.findings.count = 0) :
    (d.roles.toList.map (·.name)).Pairwise (· < ·) ∧
      ∀ script', Reordered c script script' → wholeScript script' (Draft.new c o) = .ok () d := by
  rw [wholeScript_eq] at hok
  obtain ⟨_, D, hD, hok⟩ := exists_of_bind_ok hok
  have hdeclared := declareScript_outcome c o script
  rw [hD] at hdeclared
  have hout := lowerDeclared_outcome hdeclared
  rw [hok] at hout
  have hcleanD := hout.2 hclean
  constructor
  · obtain ⟨d1, -, -, hdeclarable, rfl⟩ := exists_declarable hD hcleanD
    have hnames : (declaredRoles (script.flatMap Stmt.declarators) d1).roles.toList.map (·.name) =
        (sortedRoles ((script.flatMap Stmt.declarators).filterMap (·.role? d1.catalog))).map (·.1) := by
      rw [declaredRoles, List.map_map]
      rfl
    rw [hout.1, hnames]
    exact sortedRoles_names ((Declarator.roleNames_sublist d1.catalog _).nodup hdeclarable.nodup)
  · intro script' h
    have hdeclared' := declareScript_outcome c o script'
    have hD' := declareScript_of_reordered h hD hcleanD
    rw [hD'] at hdeclared'
    have hquiet : D.writer.statement = none := by
      rw [hdeclared.writer_eq]
      rfl
    rw [wholeScript_eq, bind_of_ok hD',
      ← lowerDeclared_filter hdeclared' (fun _ => id) (hdeclared'.ready.leveled true).inside hquiet, ← h.others,
      lowerDeclared_filter hdeclared (fun _ => id) (hdeclared.ready.leveled true).inside hquiet, hok]

end Lowering

/-- Where a script declares its roles makes no difference. The roles of a script without problems are sorted by name,
and every rearrangement of its declarations of roles compiles to the same result, image and all. -/
theorem roles_may_be_declared_anywhere {c : Catalog} {options : CompileOptions} {script : List Stmt}
    {compiled : Compiled} (h : compile c options script = .ok compiled) (hclean : compiled.numErrors = 0) :
    (compiled.roles.map (·.1)).Pairwise (· < ·) ∧
      ∀ script', Reordered c script script' → compile c options script' = .ok compiled := by
  obtain ⟨d, hd, -, rfl⟩ := exists_draft_of_compile h
  cases hwhole : wholeScript script (Draft.new c options) with
  | error stop d1 =>
    rw [Draft.draftOf_of_error hwhole] at hd
    cases hd
  | ok u d1 =>
    rw [Draft.draftOf_of_ok hwhole] at hd
    have hfinal := hd
    rw [Draft.finalize, Except.bind_ok_iff] at hfinal
    obtain ⟨procedures, -, hfinal⟩ := hfinal
    cases hfinal
    obtain ⟨hnames, hsame⟩ := wholeScript_of_clean hwhole hclean
    refine ⟨?_, fun script' hre => ?_⟩
    · rw [Draft.compiled, List.map_map]
      exact hnames
    · rw [← h, compile, compile, Draft.draftOf_of_ok hwhole, Draft.draftOf_of_ok (hsame script' hre)]

/-- `var b = roles.button()` -/
def buttonLine : Stmt :=
  .var {} .var [.mk ⟨"b", {}⟩ (some (.call {} (.member {} (.ident ⟨"roles", {}⟩) ⟨"button", {}⟩) [])) {}]

/-- `var x = b.isConnected()` -/
def connectedLine : Stmt :=
  .var {} .var [.mk ⟨"x", {}⟩ (some (.call {} (.member {} (.ident ⟨"b", {}⟩) ⟨"isConnected", {}⟩) [])) {}]

/-- A role may be declared behind its first use. -/
theorem roles_may_be_declared_anywhere_swapped :
    ∃ compiled, compile Catalog.builtin {} [buttonLine, connectedLine] = .ok compiled ∧ compiled.numErrors = 0 ∧
      compile Catalog.builtin {} [connectedLine, buttonLine] = .ok compiled := by
  have hclean : (compile Catalog.builtin {} [buttonLine, connectedLine]).toOption.any (·.numErrors = 0) = true := by
    decide +kernel
  cases hcompile : compile Catalog.builtin {} [buttonLine, connectedLine] with
  | error stop =>
    rw [hcompile] at hclean
    cases hclean
  | ok compiled =>
    rw [hcompile] at hclean
    have hnone : compiled.numErrors = 0 := of_decide_eq_true hclean
    exact ⟨compiled, rfl, hnone, (roles_may_be_declared_anywhere hcompile hnone).2 _ ⟨.swap _ _ _, rfl⟩⟩

end BusScript
