import BusScript.Proofs.FoundProblems
import BusScript.Proofs.LoweredDispatchers
import BusScript.Proofs.LoweredTrees

namespace BusScript

open Outcome (bind bind_iff get_iff)

open Lowering

namespace Draft

variable {c : Catalog} {script : List Stmt} {d d' : Draft}

/-- A draft in which the functions of `script` are declared and nothing is written. -/
structure Declared (c : Catalog) (script : List Stmt) (d : Draft) : Prop where
  catalog : d.catalog = c
  current : d.current = mainIndex
  size : d.procedures.size = d.functions.size + 1
  fresh : ∀ (i : Nat) (p : Procedure), d.procedures[i]? = some p → p.Fresh
  main : ∀ p, d.procedures[mainIndex]? = some p → p.numParams = 0
  functions : ∀ (i : Nat) (f : FunctionEntry), d.functions[i]? = some f →
    f.procedure = i + 1 ∧ f.isLowered = false ∧ f.numParams ≤ maxParams ∧
      ∃ p, d.procedures[i + 1]? = some p ∧ p.numParams = f.numParams
  unique : ∀ (i j : Nat) (f g : FunctionEntry), d.functions[i]? = some f → d.functions[j]? = some g →
    f.name = g.name → i = j
  roles : ∀ entry ∈ d.roles, entry.dispatcher = none ∧ entry.service ∈ c.services
  heads : d.findings.count = 0 → ∀ span head body, .function span head body ∈ script →
    signatureProblem? span head = none ∧ ∃ (i : Nat) (f : FunctionEntry), d.functions[i]? = some f ∧
      f.name = head.name.name ∧ f.numParams = head.params.length
  source : ∀ f ∈ d.functions, ∃ span head body, .function span head body ∈ script ∧ f.name = head.name.name

theorem declared_new (c : Catalog) (o : CompileOptions) : (Draft.new c o).Declared c [] := by
  have hmain : ∀ (i : Nat) (p : Procedure), (Draft.new c o).procedures[i]? = some p →
      p = { name := "main", numParams := 0 } := by
    intro i p hp
    exact List.mem_singleton.1 (Array.mem_of_getElem? hp).val
  refine ⟨rfl, rfl, rfl, fun i p hp => ?_, fun p hp => ?_, nofun, nofun, nofun, nofun, nofun⟩
  · rw [hmain i p hp]
    exact ⟨rfl, rfl, Nat.zero_le _⟩
  · rw [hmain _ p hp]

theorem Declared.tabled (h : d.Declared c script) (hcatalog : d'.catalog = d.catalog)
    (hcurrent : d'.current = d.current) (hprocedures : d'.procedures = d.procedures)
    (hfunctions : d'.functions = d.functions)
    (hroles : ∀ entry ∈ d'.roles, entry.dispatcher = none ∧ entry.service ∈ c.services)
    (hproblems : d'.findings.count = 0 → d.findings.count = 0) : d'.Declared c script := by
  refine ⟨hcatalog.trans h.catalog, hcurrent.trans h.current, ?_, ?_, ?_, ?_, ?_, hroles, ?_, ?_⟩
  · rw [hprocedures, hfunctions]
    exact h.size
  · rw [hprocedures]
    exact h.fresh
  · rw [hprocedures]
    exact h.main
  · rw [hprocedures, hfunctions]
    exact h.functions
  · rw [hfunctions]
    exact h.unique
  · rw [hfunctions]
    exact fun hclean => h.heads (hproblems hclean)
  · rw [hfunctions]
    exact h.source

theorem Declared.reported (h : d.Declared c script) (p : Diagnostic) (more : List Stmt) :
    (d.reported p).Declared c (script ++ more) := by
  refine ⟨h.catalog, h.current, h.size, h.fresh, h.main, h.functions, h.unique, h.roles,
    fun hclean => absurd hclean (Nat.succ_ne_zero _), fun f hf => ?_⟩
  obtain ⟨span, head, body, hmem, hname⟩ := h.source f hf
  exact ⟨span, head, body, List.mem_append_left _ hmem, hname⟩

variable {s : Stmt}

theorem Declared.other (h : d.Declared c script) (hs : ∀ span head body, s ≠ .function span head body) :
    d.Declared c (script ++ [s]) := by
  refine ⟨h.catalog, h.current, h.size, h.fresh, h.main, h.functions, h.unique, h.roles,
    fun hclean span head body hmem => ?_, fun f hf => ?_⟩
  · rcases List.mem_append.1 hmem with hmem | hmem
    · exact h.heads hclean span head body hmem
    · exact absurd (List.mem_singleton.1 hmem).symm (hs span head body)
  · obtain ⟨span, head, body, hmem, hname⟩ := h.source f hf
    exact ⟨span, head, body, List.mem_append_left _ hmem, hname⟩

def declaring (d : Draft) (name : String) (numParams : Nat) : Draft :=
  { d.added { name, numParams } with
    functions := d.functions.push { name, procedure := d.procedures.size, numParams } }

theorem getElem?_declaring {name : String} {n i : Nat} {f : FunctionEntry}
    (hf : (d.declaring name n).functions[i]? = some f) :
    d.functions[i]? = some f ∨ i = d.functions.size ∧ f = { name, procedure := d.procedures.size, numParams := n } := by
  change (d.functions.push _)[i]? = some f at hf
  grind

theorem Declared.declaring (h : d.Declared c script) {span : Span} {head : FunctionHead} {body : List Stmt}
    (hsign : signatureProblem? span head = none) (hfree : ∀ f ∈ d.functions, f.name ≠ head.name.name) :
    (d.declaring head.name.name head.params.length).Declared c (script ++ [.function span head body]) := by
  have hnew : (d.declaring head.name.name head.params.length).functions[d.functions.size]? = some
      { name := head.name.name, procedure := d.procedures.size, numParams := head.params.length } :=
    Array.getElem?_push_size
  have hold : ∀ {i : Nat} {f : FunctionEntry}, d.functions[i]? = some f →
      (d.declaring head.name.name head.params.length).functions[i]? = some f :=
    fun hf => getElem?_push_of_some _ hf
  refine ⟨h.catalog, h.current, ?_, fun i p hp => ?_, fun p hp => ?_, fun i f hf => ?_, fun i j f g hf hg hname => ?_,
    h.roles, fun hclean span' head' body' hmem => ?_, fun f hf => ?_⟩
  · change (d.procedures.push _).size = (d.functions.push _).size + 1
    rw [Array.size_push, Array.size_push, h.size]
  · change (d.added _).procedures[i]? = some p at hp
    rw [getElem?_added] at hp
    split at hp
    · cases hp
      exact ⟨rfl, rfl, (of_signatureProblem? hsign).1⟩
    · exact h.fresh i p hp
  · change (d.added _).procedures[mainIndex]? = some p at hp
    have hne : mainIndex ≠ d.procedures.size := by
      rw [h.size]
      exact Nat.zero_ne_add_one _
    rw [getElem?_added, if_neg hne] at hp
    exact h.main p hp
  · rcases getElem?_declaring hf with hf | ⟨rfl, rfl⟩
    · obtain ⟨hproc, hlow, hnum, p, hp, hnump⟩ := h.functions i f hf
      exact ⟨hproc, hlow, hnum, p, getElem?_push_of_some _ hp, hnump⟩
    · refine ⟨h.size, rfl, (of_signatureProblem? hsign).1,
        { name := head.name.name, numParams := head.params.length }, ?_, rfl⟩
      rw [← h.size]
      exact getElem?_added_size d _
  · rcases getElem?_declaring hf with hf | ⟨rfl, rfl⟩
    · rcases getElem?_declaring hg with hg | ⟨rfl, rfl⟩
      · exact h.unique i j f g hf hg hname
      · exact absurd hname (hfree f (Array.mem_of_getElem? hf))
    · rcases getElem?_declaring hg with hg | ⟨rfl, -⟩
      · exact absurd hname.symm (hfree g (Array.mem_of_getElem? hg))
      · rfl
  · rcases List.mem_append.1 hmem with hmem | hmem
    · obtain ⟨hsign', i, f, hf, hname, hnum⟩ := h.heads hclean span' head' body' hmem
      exact ⟨hsign', i, f, hold hf, hname, hnum⟩
    · grind
  · rcases Array.mem_push.1 hf with hf | rfl
    · obtain ⟨span', head', body', hmem, hname⟩ := h.source f hf
      exact ⟨span', head', body', List.mem_append_left _ hmem, hname⟩
    · exact ⟨span, head, body, List.mem_append_right _ List.mem_cons_self, rfl⟩

theorem Declared.sound (h : d.Declared c script) : d.Sound := by
  refine ⟨?_, fun i p hp => (h.fresh i p hp).sound, fun i f hf => ?_, fun i entry he => ?_,
    fun i entry disp he hdisp => ?_⟩
  · rw [h.current, h.size]
    exact Nat.succ_pos _
  · obtain ⟨hproc, -, hnum, p, hp, hnump⟩ := h.functions i f hf
    exact ⟨hnum, p, hproc ▸ hp, hnump⟩
  · rw [h.catalog]
    exact (h.roles entry (Array.mem_of_getElem? he)).2
  · rw [(h.roles entry (Array.mem_of_getElem? he)).1] at hdisp
    cases hdisp

theorem Declared.reserved (h : d.Declared c script) : d.Reserved := by
  have howns : ∀ {o : Owner} {n : Nat}, d.Owns o n → ∃ i, o = .function i ∧ n = i + 1 := by
    intro o n ho
    cases o with
    | function i =>
      obtain ⟨f, hf, rfl⟩ := ho
      exact ⟨i, rfl, (h.functions i f hf).1⟩
    | dispatcher role =>
      obtain ⟨entry, disp, he, hdisp, -⟩ := ho
      rw [(h.roles entry (Array.mem_of_getElem? he)).1] at hdisp
      cases hdisp
  refine ⟨fun o o' n ho ho' => ?_, fun o n ho => ?_, fun o n ho => ?_⟩
  · grind
  · obtain ⟨i, -, rfl⟩ := howns ho
    exact Nat.succ_ne_zero i
  · have hlt := ho.owns.lt h.sound
    obtain ⟨i, -, rfl⟩ := howns ho.owns
    refine ⟨fun heq => Nat.succ_ne_zero i (heq.trans h.current), _, Array.getElem?_eq_getElem hlt, ?_⟩
    exact h.fresh _ _ (Array.getElem?_eq_getElem hlt)

theorem Declared.accounted (h : d.Declared c script) : d.Accounted := by
  intro i p hp
  have hlt := (Array.getElem?_eq_some_iff.1 hp).1
  cases i with
  | zero => exact .inl rfl
  | succ i =>
    rw [h.size] at hlt
    have hf := Array.getElem?_eq_getElem (Nat.lt_of_succ_lt_succ hlt)
    obtain ⟨hproc, hlow, -⟩ := h.functions i _ hf
    exact .inr (.inr (.inr ⟨.function i, _, hf, hproc, hlow⟩))

theorem Declared.awaiting (h : d.Declared c script) (hs : s ∈ script) : d.Awaiting s := by
  cases s with
  | function span head body =>
    refine ⟨h.reserved, h.unique, fun hclean i f hf hname => ?_⟩
    obtain ⟨-, j, g, hg, hgname, hnum⟩ := h.heads hclean span head body hs
    cases h.unique i j f g hf hg (hname.trans hgname.symm)
    rw [hf] at hg
    cases hg
    exact hnum
  | _ => trivial

theorem Reserved.leveled (h : d.Reserved) (top : Bool) : (d.leveled top).Reserved :=
  SameElsewhere.reserved (d := d) ⟨fun _ _ => rfl, rfl, rfl⟩ rfl h

theorem Awaiting.leveled (h : d.Awaiting s) (top : Bool) : (d.leveled top).Awaiting s := by
  cases s with
  | function span head body => exact ⟨Reserved.leveled h.reserved top, h.unique, h.params⟩
  | _ => trivial

theorem Awaiting.mono {j : Nat} (h : d.Awaiting s) (hwithin : d.Within j d') : d'.Awaiting s := by
  cases s with
  | function span head body => exact Declares.mono h hwithin
  | _ => trivial

theorem Declared.writer_eq (h : d.Declared c script) : d.writer = .new :=
  (h.fresh d.current d.procedure h.sound.procedure_eq).writer

theorem Declared.scopesOf_eq (h : d.Declared c script) (i : Nat) : d.scopesOf i = [] := by
  rw [scopesOf]
  cases hp : d.procedures[i]? with
  | none => rfl
  | some p =>
    rw [Option.map_some, (h.fresh i p hp).writer]
    rfl

theorem Declared.ready (h : d.Declared c script) : d.Ready := by
  refine ⟨h.sound, ?_⟩
  rw [h.writer_eq]
  rfl

end Draft

namespace Lowering

open Draft

variable {P : Prop} {c : Catalog} {script : List Stmt} {d : Draft}

theorem requireFree_outcome (id : Ident) : Outcome (fun _ d' => d' = d ∧ ∀ f ∈ d.functions, f.name ≠ id.name)
      (fun stop d' => d' = d ∧ ∃ p, stop = .reject p) (requireFree id d) := by
  change Outcome _ _ ((if (d.resolve? id.name).isSome then rejectAt id.span (.alreadyDefined id.name)
    else pure () : Lowering Unit) d)
  split
  · exact ⟨rfl, _, rfl⟩
  · next hnone =>
    rw [resolve?] at hnone
    simp only [Option.orElse_eq_orElse, Option.orElse_eq_or, Option.isSome_or, Option.isSome_map,
      Bool.or_eq_true, not_or] at hnone
    refine ⟨rfl, fun f hf hname => ?_⟩
    have hidx := Array.findIdx?_eq_none_iff.1 (Option.not_isSome_iff_eq_none.1 hnone.2.2.2) f hf
    simp_all

theorem declareFunction_outcome (h : d.Declared c script) (span : Span) (head : FunctionHead) (body : List Stmt) :
    Outcome (fun _ d' => d'.Declared c (script ++ [.function span head body]))
      (fun stop d' => d' = d ∧ ∃ p, stop = .reject p) (declareFunction span head d) := by
  rw [declareFunction]
  dsimp only
  split
  · exact ⟨rfl, _, rfl⟩
  refine bind (requireFree_outcome head.name) ?_ fun _ _ => id
  rintro _ d1 ⟨rfl, hfree⟩
  cases hsign : signatureProblem? span head with
  | some p => exact ⟨rfl, p, rfl⟩
  | none => exact h.declaring hsign hfree

theorem declareFunctions_outcome {rest : List Stmt} (h : d.Declared c script) :
    Outcome (fun _ d' => d'.Declared c (script ++ rest)) (fun _ _ => False) (declareFunctions rest d) := by
  induction rest generalizing d script with
  | nil =>
    rw [List.append_nil]
    exact h
  | cons s rest ih =>
    have hnext : ∀ {d1 : Draft}, d1.Declared c (script ++ [s]) →
        Outcome (fun _ d' => d'.Declared c (script ++ s :: rest)) (fun _ _ => False)
          (declareFunctions rest d1) := by grind
    cases s with
    | function span head body =>
      have hone := declareFunction_outcome h span head body
      rw [declareFunctions, reporting, bind_iff, bind_iff, attempt]
      revert hone
      cases declareFunction span head d with
      | ok a d1 => exact hnext
      | error stop d1 =>
        rintro ⟨rfl, p, rfl⟩
        exact hnext (h.reported p _)
    | _ => exact hnext (h.other (by rintro span head body ⟨⟩))

theorem mem_services_of_roleService? {init : Expr} {service : ServiceSpec}
    (h : roleService? c init = some (.ok service)) : service ∈ c.services := by
  rw [roleService?.eq_def] at h
  split at h
  · split at h
    · split at h
      · next hfound =>
        cases h
        exact List.mem_of_find?_eq_some hfound
      · cases h
    · cases h
  · split at h
    · split at h
      · next hfound =>
        cases h
        exact List.mem_of_find?_eq_some hfound
      · cases h
    · cases h
  · cases h

variable {roles : List (String × ServiceSpec)}

theorem declareGlobal_outcome (h : d.Declared c script)
    (hroles : ∀ role ∈ roles, role.2 ∈ c.services) (declarator : Declarator) :
    Outcome (fun roles' d' => d'.Declared c script ∧ ∀ role ∈ roles', role.2 ∈ c.services)
      (fun stop d' => d' = d ∧ ∃ p, stop = .reject p) (declareGlobal roles declarator d) := by
  obtain ⟨name, init, span⟩ := declarator
  rw [declareGlobal]
  refine bind (requireFree_outcome name) ?_ fun _ _ => id
  rintro _ d1 ⟨rfl, -⟩
  dsimp only
  split
  · exact ⟨rfl, _, rfl⟩
  rw [bind_iff, get_iff]
  cases hinit : init.bind (roleService? d1.catalog) with
  | none => exact ⟨h.tabled rfl rfl rfl rfl h.roles fun hclean => hclean, hroles⟩
  | some service =>
    cases service with
    | error p => exact ⟨rfl, p, rfl⟩
    | ok service =>
      refine ⟨h, fun role hrole => ?_⟩
      rcases List.mem_append.1 hrole with hrole | hrole
      · exact hroles role hrole
      · cases List.mem_singleton.1 hrole
        obtain ⟨e, -, he⟩ := Option.bind_eq_some_iff.1 hinit
        rw [h.catalog] at he
        exact mem_services_of_roleService? he

theorem declareGlobals_outcome {declarators : List Declarator}
    (h : d.Declared c script) (hroles : ∀ role ∈ roles, role.2 ∈ c.services) :
    Outcome (fun roles' d' => d'.Declared c script ∧ ∀ role ∈ roles', role.2 ∈ c.services)
      (fun _ _ => False) (declareGlobals roles declarators d) := by
  induction declarators generalizing d roles with
  | nil => exact ⟨h, hroles⟩
  | cons declarator rest ih =>
    have hone := declareGlobal_outcome h hroles declarator
    rw [declareGlobals, bind_iff, attempt]
    revert hone
    cases declareGlobal roles declarator d with
    | ok roles' d1 => exact fun h1 => ih h1.1 h1.2
    | error stop d1 =>
      rintro ⟨rfl, p, rfl⟩
      refine ih ?_ hroles
      have hreported := h.reported p []
      rwa [List.append_nil] at hreported

theorem declareVariables_outcome {stmts : List Stmt}
    (h : d.Declared c script) (hroles : ∀ role ∈ roles, role.2 ∈ c.services) :
    Outcome (fun roles' d' => d'.Declared c script ∧ ∀ role ∈ roles', role.2 ∈ c.services)
      (fun _ _ => False) (declareVariables roles stmts d) := by
  induction stmts generalizing d roles with
  | nil => exact ⟨h, hroles⟩
  | cons s rest ih =>
    cases s with
    | var span kind declarators =>
      cases kind with
      | var =>
        refine bind (declareGlobals_outcome h hroles) ?_ fun _ _ => False.elim
        exact fun _ _ h1 => ih h1.1 h1.2
      | _ => exact ih h hroles
    | _ => exact ih h hroles

theorem addRoles_outcome (h : d.Declared c script) (hroles : ∀ role ∈ roles, role.2 ∈ c.services) :
    Outcome (fun _ d' => d'.Declared c script) (fun _ _ => False) (addRoles roles d) := by
  refine h.tabled rfl rfl rfl rfl (fun entry hentry => ?_) fun hclean => hclean
  obtain ⟨role, hrole, rfl⟩ := List.mem_map.1 (List.mem_toArray.1 hentry)
  exact ⟨rfl, hroles role (List.mem_mergeSort.1 hrole)⟩

theorem lowerTopLevel_outcome {D : Draft} {stmts : List Stmt} (hlimits : P → Stmt.allWithinLimits stmts = true)
    (hD : D.Declared c script) (hstmts : ∀ s ∈ stmts, s ∈ script)
    (h : (D.leveled true).Inside [] 0 (d.leveled true)) :
    Outcome (fun _ d' => (D.leveled true).Inside [] 0 (d'.leveled true) ∧ d.Grows d' ∧
        (∀ s ∈ stmts, d'.Served s) ∧ ∀ i, d'.scopesOf i = d.scopesOf i)
      (Halts P D) (lowerTopLevel stmts d) := by
  induction stmts generalizing d with
  | nil => exact ⟨h, Grows.refl d, nofun, fun _ => rfl⟩
  | cons s rest ih =>
    simp only [Stmt.allWithinLimits, Bool.and_eq_true] at hlimits
    have hawaiting := ((hD.awaiting (hstmts s List.mem_cons_self)).leveled true).mono h.toWithin
    have hstmt := lowerStmt_completes s (fun hp => (hlimits hp).1) (d.leveled true) h.ready fun _ => hawaiting
    change Outcome _ _ ((lowerStmt s >>= fun _ => lowerTopLevel rest) (d.leveled true))
    refine bind hstmt ?_ fun _ _ => Halts.of_catalog h.grown.catalog
    rintro _ d1 ⟨hback, hserved⟩
    have hd1 := hback.1
    have hlevel : d1.leveled true = d1 := by
      have htop : d1.topLevel = true := hd1.grown.topLevel
      rw [leveled, ← htop]
    have hgrows : d.Grows d1 := (grows_leveled d true).trans hd1.grown.toGrows
    refine (ih (fun hp => (hlimits hp).2) (fun s' hs' => hstmts s' (List.mem_cons_of_mem _ hs')) ?_).imp ?_
    · rw [hlevel]
      exact h.trans hd1
    · rintro _ d2 ⟨hd2, hgrows2, hrest, hscopes⟩
      refine ⟨hd2, hgrows.trans hgrows2, List.forall_mem_cons.2 ⟨hserved.mono hgrows2, hrest⟩, fun i => ?_⟩
      exact (hscopes i).trans (Completes.scopesOf_eq h.ready.sound hback i)

theorem zipIdx_pairwise_ne {α : Type} (xs : List α) : xs.zipIdx.Pairwise fun a b => a.2 ≠ b.2 := by
  have hrange : (xs.zipIdx.map Prod.snd).Pairwise (· ≠ ·) := by
    rw [List.zipIdx_map_snd]
    exact List.nodup_range'
  exact List.pairwise_map.1 hrange

end Lowering

namespace Draft

variable {c : Catalog} {script : List Stmt} {D d d' : Draft}

theorem Declared.isLowered (hD : D.Declared c script) (hgrows : D.Grows d)
    (hserved : ∀ s ∈ script, d.Served s) (hclean : d.findings.count = 0) {i : Nat} {f : FunctionEntry}
    (hf : d.functions[i]? = some f) : f.isLowered = true := by
  have hlt : i < D.functions.size := hgrows.functions.1 ▸ (Array.getElem?_eq_some_iff.1 hf).1
  obtain ⟨lowered, hf', -⟩ := hgrows.functions.2 i _ (Array.getElem?_eq_getElem hlt)
  obtain ⟨span, head, body, hmem, hname⟩ := hD.source D.functions[i] (Array.getElem_mem hlt)
  rw [hf] at hf'
  cases hf'
  have hsign := (hD.heads (hgrows.clean hclean) span head body hmem).1
  exact hserved _ hmem hclean hsign i _ hf hname

/-- When the main procedure has returned, dispatchers are all that is still to be written. -/
theorem Declared.pending (hD : D.Declared c script) (h : (D.leveled true).Inside [] 0 (d.leveled true))
    (hserved : ∀ s ∈ script, d.Served s) (hscopes : ∀ i, d.scopesOf i = D.scopesOf i)
    (hreturned : (d.leveled false).Returned d') : d'.Pending d'.roles.toList.zipIdx := by
  have hgrows : d.Grows d' := (grows_leveled d false).trans hreturned.grown.toGrows
  have hgrowsD : D.Grows d' := (grows_leveled D true).trans
    (h.grown.toGrows.trans ((grows_leveled (d.leveled true) false).trans hreturned.grown.toGrows))
  have hcurrent : d'.current = mainIndex :=
    hreturned.grown.current.trans (h.grown.current.trans hD.current)
  have hreserved : d'.Reserved := by
    refine hreturned.elsewhere.reserved hreturned.grown.current ?_
    exact (h.reserved (hD.reserved.leveled true)).leveled false
  refine ⟨hreturned.sound, fun pair => mem_zipIdx_lt, fun pair hpair disp hdisp => ?_, ?_, fun hclean i p hp => ?_,
    fun i => (hreturned.scopesOf_eq (h.ready.leveled false).sound i).trans ((hscopes i).trans (hD.scopesOf_eq i))⟩
  · have howns : d'.Owns (.dispatcher pair.2) disp.procedure := ⟨pair.1, disp, mem_zipIdx_lt hpair, hdisp, rfl⟩
    exact ⟨hreserved.apart _ _ howns, (hreserved.fresh (.dispatcher pair.2) _ howns).2⟩
  · refine (zipIdx_pairwise_ne _).imp_of_mem fun {a b} ha hb hne x y hx hy heq => hne ?_
    have hunique := hreserved.unique (.dispatcher a.2) (.dispatcher b.2) x.procedure
      ⟨a.1, x, mem_zipIdx_lt ha, hx, rfl⟩ ⟨b.1, y, mem_zipIdx_lt hb, hy, heq.symm⟩
    exact Owner.dispatcher.inj hunique
  · have hmain : ∀ q, d'.procedures[mainIndex]? = some q → q.Finished := by
      intro q hq
      have hproc := hreturned.sound.procedure_eq
      rw [hcurrent, hq] at hproc
      cases hproc
      refine finished_of_returned (h.ready.leveled false).sound (h.bound_of_new hD.writer_eq) (fun _ => ?_)
        hreturned (Shed.refl hreturned.sound) hclean
      have hnum := h.grown.numParams (hD.ready.leveled true).sound h.ready.sound
      have hzero : D.procedure.numParams = 0 := hD.main _ (hD.current ▸ hD.sound.procedure_eq)
      exact Nat.le_trans (Nat.le_of_eq (hnum.trans hzero)) (Nat.zero_le _)
    have hclean1 : d.findings.count = 0 := hgrows.clean hclean
    have hacc : d'.Accounted := by
      refine hreturned.elsewhere.accounted hreturned.grown.current ?_
      exact SameElsewhere.accounted (d := d.leveled true) ⟨fun _ _ => rfl, rfl, rfl⟩ rfl
        (h.accounted hclean1 (SameElsewhere.accounted (d := D) ⟨fun _ _ => rfl, rfl, rfl⟩ rfl hD.accounted))
    rcases hacc i p hp with rfl | rfl | hfin | ⟨o, ho⟩
    · exact .inl (hmain p hp)
    · simp_all
    · exact .inl hfin
    · cases o with
      | function n =>
        obtain ⟨f, hf, -, hlow⟩ := ho
        have hlow' := hD.isLowered hgrowsD (fun s hs => (hserved s hs).mono hgrows) hclean hf
        rw [hlow] at hlow'
        cases hlow'
      | dispatcher role =>
        obtain ⟨entry, disp, he, hdisp, hi⟩ := ho
        refine .inr ⟨(entry, role), ?_, disp, hdisp, hi⟩
        rw [List.mem_zipIdx_iff_getElem?, Array.getElem?_toList]
        exact he

/-- A draft of a whole script: no register is allocated any more, and unless there are problems, every procedure is
finished and saves no more registers than it can. -/
structure Whole (d : Draft) : Prop where
  sound : d.Sound
  idle : ∀ i, d.scopesOf i = []
  finished : d.findings.count = 0 → ∀ p ∈ d.procedures, p.Finished ∧ p.writer.maxRegs ≤ maxSavedRegs

end Draft

namespace Lowering

open Draft

variable {P : Prop} {c : Catalog} {o : CompileOptions} {script : List Stmt} {d : Draft}

/-- What lowering does before it writes the dispatchers. -/
def mainScript (script : List Stmt) : Lowering Unit := do
  declareFunctions script
  let roles ← declareVariables [] script
  addRoles roles
  lowerTopLevel script
  modify ({ · with topLevel := false })
  emitReturn

theorem lowerScript_eq (script : List Stmt) : lowerScript script = (do mainScript script; dispatchers) := by
  simp only [lowerScript, mainScript, bind_assoc]

theorem mainScript_outcome (hlimits : P → Stmt.allWithinLimits script = true) :
    Outcome (fun _ d' => d'.Pending d'.roles.toList.zipIdx ∧ d'.catalog = c) (Halts P (Draft.new c o))
      (mainScript script (Draft.new c o)) := by
  rw [mainScript]
  refine bind (declareFunctions_outcome (declared_new c o)) (fun _ d1 hd1 => ?_) fun _ _ => False.elim
  refine bind (declareVariables_outcome hd1 nofun) ?_ fun _ _ => False.elim
  rintro roles d2 ⟨hd2, hroles⟩
  refine bind (addRoles_outcome hd2 hroles) (fun _ D hD => ?_) fun _ _ => False.elim
  rw [List.nil_append] at hD
  have hcatalog : ∀ {stop : Stop} {d' : Draft}, Halts P D stop d' → Halts P (Draft.new c o) stop d' :=
    Halts.of_catalog hD.catalog
  refine bind (lowerTopLevel_outcome hlimits hD (fun _ => id) (hD.ready.leveled true).inside) ?_
    fun _ _ => hcatalog
  rintro _ d3 ⟨hd3, hgrows3, hserved, hscopes3⟩
  change Outcome _ _ (emitReturn (d3.leveled false))
  refine (emitReturn_outcome (hd3.ready.leveled false)).mono (fun _ d4 hd4 => ?_) fun _ _ => False.elim
  have hgrows : D.Grows d4 := hgrows3.trans ((grows_leveled d3 false).trans hd4.grown.toGrows)
  exact ⟨hD.pending hd3 hserved hscopes3 hd4, hgrows.catalog.trans hD.catalog⟩

theorem lowerScript_outcome (hlimits : P → Stmt.allWithinLimits script = true) :
    Outcome (fun _ d' => d'.Pending [] ∧ d'.catalog = c) (Halts P (Draft.new c o))
      (lowerScript script (Draft.new c o)) := by
  rw [lowerScript_eq]
  refine bind (mainScript_outcome hlimits) ?_ fun _ _ => id
  rintro _ d1 ⟨hpending, hcatalog⟩
  refine (dispatchers_outcome (P := P) hpending).mono ?_ ?_
  · exact fun _ d2 hd2 => ⟨hd2.1, hd2.2.catalog.trans hcatalog⟩
  · exact fun _ _ hstop => hstop.of_catalog hcatalog

theorem checkSavedRegs_outcome (procedures : List Procedure) (d : Draft) :
    Outcome (fun _ d' => (∃ findings, d' = { d with findings }) ∧ (d'.findings.count = 0 →
        d' = d ∧ ∀ p ∈ procedures, p.writer.maxRegs ≤ maxSavedRegs))
      (fun _ _ => False) (checkSavedRegs procedures d) := by
  induction procedures generalizing d with
  | nil => exact ⟨⟨d.findings, rfl⟩, fun _ => ⟨rfl, nofun⟩⟩
  | cons p rest ih =>
    rw [checkSavedRegs]
    dsimp only
    split
    · refine (ih (d.reported ⟨.expressionTooComplex, {}⟩)).imp ?_
      rintro _ _ ⟨⟨findings, rfl⟩, hrest⟩
      refine ⟨⟨findings, rfl⟩, fun hclean => ?_⟩
      rw [(hrest hclean).1] at hclean
      cases hclean
    · next hregs =>
      refine (ih d).imp fun _ d' hd' => ⟨hd'.1, fun hclean => ⟨(hd'.2 hclean).1, ?_⟩⟩
      exact List.forall_mem_cons.2 ⟨Nat.le_of_not_lt hregs, (hd'.2 hclean).2⟩

def wholeScript (script : List Stmt) : Lowering Unit := do
  lowerScript script
  checkSavedRegs (← get).procedures.toList

theorem fair_wholeScript (script : List Stmt) : Fair (wholeScript script) :=
  .bind inferInstance fun _ => .read (fun _ => inferInstance) fun _ _ _ => rfl

theorem wholeScript_outcome (hlimits : P → Stmt.allWithinLimits script = true) :
    Outcome (fun _ d' => d'.Whole ∧ d'.catalog = c)
      (fun stop d' => (∃ defect, stop = .abort defect ∧ defect.IsLimit c.Fits) ∧ (P → c.Fits → ¬ d'.Fits))
      (wholeScript script (Draft.new c o)) := by
  refine bind (lowerScript_outcome hlimits) ?_ fun _ _ => id
  rintro _ d1 ⟨hd1, hcatalog⟩
  rw [bind_iff, get_iff]
  refine (checkSavedRegs_outcome d1.procedures.toList d1).mono ?_ fun _ _ => False.elim
  rintro _ _ ⟨⟨findings, rfl⟩, hregs⟩
  have hsound := hd1.sound
  refine ⟨⟨⟨hsound.current, hsound.procedures, hsound.functions, hsound.services, fun i entry disp he hdisp => ?_⟩,
    hd1.idle, fun hclean p hp => ⟨?_, (hregs hclean).2 p hp.val⟩⟩, hcatalog⟩
  · obtain ⟨hp, he, hw, hc, hdis⟩ := hsound.dispatchers i entry disp he hdisp
    exact ⟨hp, he, hw, hc, hdis⟩
  · obtain ⟨i, hi⟩ := Array.mem_iff_getElem?.1 hp
    rw [(hregs hclean).1] at hclean
    exact (hd1.finished hclean i p hi).resolve_right (by simp)

end Lowering

end BusScript
