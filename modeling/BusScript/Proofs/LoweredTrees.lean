import BusScript.Proofs.LoweredCalls

namespace BusScript

open CodeWriter Draft

/-! ### Names -/

variable {name : String} {d : Draft}

theorem Variables.find?_lt {v : Variables} {i : Nat} (h : v.find? name = some i) : i < v.size :=
  (Array.findIdx?_eq_some_iff_getElem.1 h).1

theorem Draft.sound_of_resolve? {v : Value} (h : d.resolve? name = some v) :
    v.Sound d := by
  rw [resolve?] at h
  simp only [Option.orElse_eq_orElse, Option.orElse_eq_or, Option.or_eq_some_iff, Option.map_eq_some_iff] at h
  rcases h with ⟨i, hi, rfl⟩ | ⟨-, ⟨i, hi, rfl⟩ | ⟨-, ⟨i, hi, rfl⟩ | ⟨-, i, hi, rfl⟩⟩⟩
  · exact .inl ⟨rfl, Variables.find?_lt hi⟩
  · exact .inr ⟨rfl, Variables.find?_lt hi⟩
  · exact (Array.findIdx?_eq_some_iff_getElem.1 hi).1
  · trivial

namespace Lowering

open Run

variable {P : Prop} {d : Draft}

theorem variableNamed_looks (id : Ident) : Looks d (fun v => v.Sound d) (variableNamed id) := by
  rw [Looks, variableNamed, Outcome.bind_iff, Outcome.get_iff]
  cases hfound : d.resolve? id.name with
  | none => exact ⟨rfl, _, rfl⟩
  | some v =>
    dsimp only
    split
    · exact ⟨rfl, sound_of_resolve? hfound⟩
    · exact ⟨rfl, _, rfl⟩

theorem requireFree_looks (id : Ident) : Looks d (fun _ => True) (requireFree id) := by
  change Outcome _ _ ((if (d.resolve? id.name).isSome then rejectAt id.span (.alreadyDefined id.name)
    else pure () : Lowering Unit) d)
  split
  · exact ⟨rfl, _, rfl⟩
  · exact ⟨rfl, trivial⟩

/-! ### Expressions -/

theorem literal_run (h : d.Ready) (hne : d.writer.scopes ≠ []) (value : Literal) :
    Run P d [] 0 (fun v d' => v.Sound d') (literal value d) := by
  cases value with
  | number | bool | null => exact Run.pure h.inside trivial
  | string s => exact loadText_run h hne s

theorem identifier_run (h : d.Ready) (id : Ident) : Run P d [] 0 (fun v d' => v.Sound d') (identifier id d) := by
  refine Run.get_bind ?_
  cases hfound : d.resolve? id.name with
  | some v => exact Run.pure h.inside (sound_of_resolve? hfound)
  | none =>
    change Runs P d _ _
    dsimp only
    split
    · exact Run.pure h.inside trivial
    · exact Run.pure h.inside trivial
    · exact Run.pure h.inside trivial
    · exact Run.reject h.inside.toWithin

theorem unary_run {operand : Part} (hp : operand.Sound P) (h : d.Ready) (hne : d.writer.scopes ≠ [])
    (op : Sign) : Run P d [] 0 (fun v d' => v.Sound d') (unary op operand d) := by
  rw [unary]
  cases operand.expr.number? with
  | some x => exact Run.pure h.inside trivial
  | none => exact Run.bind h.inside (applyUnary_run hp h hne _) fun r d1 hd1 _ hr => Run.pure hd1 hr

theorem binary_run {left right : Part} (hleft : left.Sound P) (hright : right.Sound P) (h : d.Ready)
    (hne : d.writer.scopes ≠ []) (op : Operator) :
    Run P d [] 0 (fun v d' => v.Sound d') (binary op left right d) := by
  rw [binary]
  rcases operatorOp? op with _ | ⟨op, swapped⟩
  · have hargs : ∀ p ∈ [left, right], p.Sound P := by simp [hleft, hright]
    refine Run.bind h.inside (applyMath_run hargs h hne (fun _ => by simp) (.inr ⟨rfl, .pow, rfl⟩)) ?_
    exact fun r d1 hd1 _ hr => Run.pure hd1 hr
  · refine push_bind h.inside fun d1 hd1 _ => ?_
    refine Run.bind hd1 (inReg_run hleft hd1.ready hd1.scopes_ne_of_pushed) fun a d2 hd2 _ ha => ?_
    refine Run.bind hd2 (inReg_run hright hd2.ready hd2.scopes_ne_of_pushed) fun b d3 hd3 _ hb => ?_
    cases swapped with
    | false =>
      refine binary_bind hd3 op ha hb fun d4 hd4 _ => ?_
      exact popExcept_bind hd4 hne fun d5 hd5 _ => Run.pure hd5 ha
    | true =>
      refine binary_bind hd3 op hb ha fun d4 hd4 _ => ?_
      exact popExcept_bind hd4 hne fun d5 hd5 _ => Run.pure hd5 hb

variable {value : Part}

theorem assignVariable_run (hvalue : value.Sound P) (h : d.Ready) (hne : d.writer.scopes ≠ []) (id : Ident) :
    Run P d [] 0 (fun v d' => v.Sound d') (assignVariable id value d) := by
  refine Run.look h.inside.toWithin (variableNamed_looks id) fun dst hdst => ?_
  refine Run.bind h.inside (hvalue.value d h hne) fun src d1 hd1 _ hsrc => ?_
  have hassign := assign_run (P := P) hd1.ready (hdst.mono hd1.grown) hsrc
  refine Run.bind hd1 (Run.located hassign) fun _ d2 hd2 hstep2 _ => ?_
  exact Run.pure hd2 (hsrc.mono hstep2.grown)

theorem assignEach_run {tmp : Nat} (htmp : tmp < 16) {pairs : List (Expr × FieldSpec)} {offset : Nat}
    (h : d.Ready) (hfields : d.catalog.Fits → FieldSpec.FitFrom offset (pairs.map (·.2))) :
    Passes P d (assignEach tmp offset pairs) := by
  induction pairs generalizing d offset with
  | nil => exact Run.pure h.inside trivial
  | cons pair rest ih =>
    obtain ⟨target, field⟩ := pair
    rw [assignEach]
    cases target.ident? with
    | none => exact Run.reject h.inside.toWithin
    | some id =>
      refine Run.look h.inside.toWithin (variableNamed_looks id) fun dst hdst => ?_
      have hload := loadField_run (P := P) h htmp fun hfits => (hfields hfits).1
      refine Run.bind h.inside hload fun _ d1 hd1 _ _ => ?_
      have hassign := assign_run (P := P) hd1.ready (hdst.mono hd1.grown) (show (Value.reg tmp).Sound d1 from htmp)
      refine Run.bind hd1 hassign fun _ d2 hd2 _ _ => ?_
      exact Run.within hd2 (ih hd2.ready fun hfits => (hfields (hd2.grown.catalog ▸ hfits)).2)

theorem assignFields_run (hvalue : value.Sound P) (h : d.Ready)
    (hne : d.writer.scopes ≠ []) (span : Span) (targets : List Expr) :
    Run P d [] 0 (fun v d' => v.Sound d') (assignFields span targets value d) := by
  refine Run.bind h.inside (hvalue.value d h hne) fun v d1 hd1 _ hv => ?_
  cases v with
  | fields role packet =>
    dsimp only
    split
    · exact Run.reject_bind hd1.toWithin
    · refine push_bind hd1 fun d2 hd2 hext2 => ?_
      refine allocReg_bind hd2 hd2.scopes_ne_of_pushed fun tmp d3 hd3 hext3 htmp => ?_
      have hfields : d3.catalog.Fits → FieldSpec.FitFrom 0 ((targets.zip packet.fields).map (·.2)) := by
        intro hfits
        refine (hv.2 ?_).fields.zip targets
        rwa [← (hext2.trans hext3).catalog]
      refine Run.bind hd3 (assignEach_run htmp hd3.ready hfields) fun _ d4 hd4 _ _ => ?_
      exact pop_bind hd4 fun d5 hd5 _ => Run.pure hd5 trivial
  | _ => exact Run.reject hd1.toWithin

theorem assignTo_run (hvalue : value.Sound P) (h : d.Ready) (hne : d.writer.scopes ≠ [])
    (target : Expr) : Run P d [] 0 (fun v d' => v.Sound d') (assignTo target value d) := by
  change Runs P d _ _
  rw [assignTo.eq_def]
  split
  · exact assignVariable_run hvalue h hne _
  · exact assignFields_run hvalue h hne _ _
  · exact Run.reject h.inside.toWithin

theorem member_run {object : Part} (hobject : object.Sound P) (h : d.Ready) (hne : d.writer.scopes ≠ [])
    (name : Ident) : Run P d [] 0 (fun v d' => v.Sound d') (member object name d) := by
  change Runs P d _ _
  rw [member]
  split
  · split
    · exact Run.pure h.inside trivial
    · exact Run.reject h.inside.toWithin
  · refine Run.bind h.inside (hobject.value d h hne) fun v d1 hd1 _ hv => ?_
    refine Run.within hd1 ?_
    change Runs P d1 _ _
    split
    · exact Run.tail (Run.look hd1.ready.inside.toWithin (roleMember_looks hd1.ready.sound _ name)
        fun w hw => Run.pure hd1.ready.inside hw)
    · split
      · exact readMember_run hd1.ready (hd1.scopes_ne hne) hv.1 hv.2 name
      · exact Run.reject hd1.ready.inside.toWithin
    · exact Run.reject hd1.ready.inside.toWithin

/-! ### Statements -/

theorem declaredVariable?_run (h : d.Ready) (id : Ident) :
    Run P d [] 0 (fun found d' => ∀ v, found = some v → v.Sound d') (declaredVariable? id d) := by
  refine Run.get_bind ?_
  change Runs P d _ _
  split
  · refine Run.pure h.inside fun v hv => ?_
    obtain ⟨slot, hslot, rfl⟩ := Option.map_eq_some_iff.1 hv
    exact .inr ⟨rfl, Variables.find?_lt hslot⟩
  · refine Run.look h.inside.toWithin (requireFree_looks id) fun _ _ => ?_
    change Runs P d _ _
    split
    · refine Run.bind h.inside (addGlobal_run h id.name) fun slot d1 hd1 _ hslot => Run.pure hd1 ?_
      rintro v ⟨⟩
      exact hslot
    · refine Run.bind h.inside (addLocal_run h id.name) fun slot d1 hd1 _ hslot => Run.pure hd1 ?_
      rintro v ⟨⟩
      exact hslot.2

theorem declare_run {init : Option Part} (hinit : ∀ p, init = some p → p.Sound P) (h : d.Ready)
    (hne : d.writer.scopes ≠ []) (name : Ident) (span : Span) :
    Passes P d (declare name init span) := by
  refine Run.get_bind ?_
  change Runs P d _ _
  split
  · next service _ =>
    split
    · cases service with
      | ok | error => exact Run.reject h.inside.toWithin
    · exact Run.pure h.inside trivial
  · refine Run.bind h.inside (declaredVariable?_run h name) fun found d1 hd1 _ hfound => ?_
    refine Run.within hd1 ?_
    change Runs P d1 _ _
    split
    · next dst p _ =>
      have hne1 := hd1.scopes_ne hne
      refine Run.bind hd1.ready.inside ((hinit p rfl).value d1 hd1.ready hne1) fun src d2 hd2 _ hsrc => ?_
      exact Run.within hd2 (Run.located (assign_run hd2.ready ((hfound dst rfl).mono hd2.grown) hsrc))
    · exact Run.pure hd1.ready.inside trivial

/-- A statement or a list of them, where it is not at the top level. -/
def Branch (P : Prop) (act : Lowering Unit) : Prop :=
  ∀ d : Draft, d.Ready → d.atTopLevel = false → Run P d [] 0 (fun _ _ => True) (act d)

theorem Branch.nested_run {act : Lowering Unit} (hact : Branch P act) (h : d.Ready) : Passes P d (nested act) :=
  Lowering.nested_run (hact _ (h.leveled false) rfl)

theorem ifElse_run {condition : Part} (hcond : condition.Sound P) {thenBranch : Lowering Unit}
    (hthen : Branch P thenBranch) {elseBranch : Option (Lowering Unit)}
    (helse : ∀ branch, elseBranch = some branch → Branch P branch) (h : d.Ready) :
    Passes P d (ifElse condition thenBranch elseBranch) := by
  rw [ifElse]
  rcases constantCondition? condition.expr with _ | _ | _
  · refine newLabel_bind h.inside fun elseLabel d1 hd1 _ => ?_
    refine push_bind hd1 fun d2 hd2 _ => ?_
    refine Run.bind hd2 (inReg_run hcond hd2.ready hd2.scopes_ne_of_pushed) fun r d3 hd3 _ hr => ?_
    refine forward_bind hd3 (by simp) (by rintro _ ⟨⟩; exact hr) fun d4 hd4 _ => ?_
    refine pop_bind hd4 fun d5 hd5 _ => ?_
    refine Run.bind hd5 (hthen.nested_run hd5.ready) fun _ d6 hd6 _ _ => ?_
    cases elseBranch with
    | none => exact Run.tail (bindLabel_bind hd6 fun d7 hd7 _ _ => Run.pure hd7 trivial)
    | some branch =>
      refine newLabel_bind hd6 fun endLabel d7 hd7 _ => ?_
      refine forward_bind hd7 (by simp) nofun fun d8 hd8 _ => ?_
      refine bindLabel_bind (hd8.perm (.swap ..)) fun d9 hd9 _ _ => ?_
      refine Run.bind hd9 ((helse branch rfl).nested_run hd9.ready) fun _ d10 hd10 _ _ => ?_
      exact Run.tail (bindLabel_bind hd10 fun d11 hd11 _ _ => Run.pure hd11 trivial)
  · cases elseBranch with
    | none => exact nested_run (Run.pure (h.leveled false).inside trivial)
    | some branch => exact (helse branch rfl).nested_run h
  · exact hthen.nested_run h

theorem returnResult_run {value : Option Part} (hvalue : ∀ p, value = some p → p.Sound P) (h : d.Ready)
    (hne : d.writer.scopes ≠ []) : Passes P d (returnResult value) := by
  have hrest : ∀ {d1 : Draft} {v : Value}, d.Inside [] 0 d1 → v.Sound d1 → Run P d [] 0 (fun _ _ => True) ((do
        write push
        let _ ← write (allocArgs 1)
        loadValue 0 v
        write (emitJump retLabel none)
        write pop : Lowering Unit) d1) := by
    intro d1 v hd1 hv
    refine push_bind hd1 fun d2 hd2 hext2 => ?_
    refine allocArgs_bind hd2 hd2.scopes_ne_of_pushed (fun _ => by decide) fun d3 hd3 hext3 _ => ?_
    have hload := loadValue_run (P := P) hd3.ready (by decide : 0 < 32) (fun _ => by decide)
      ((hv.mono hext2).mono hext3)
    refine Run.bind hd3 hload fun _ d4 hd4 _ _ => ?_
    have hret : d4.writer.offset? retLabel ≠ some d4.writer.location := by
      rw [hd4.ready.isOpen]
      exact nofun
    refine emitJump_bind hd4 hd4.ready.sound.procedure.size hret nofun fun d5 hd5 _ => ?_
    exact Run.tail (pop_bind hd5 fun d6 hd6 _ => Run.pure hd6 trivial)
  cases value with
  | none => exact hrest h.inside trivial
  | some p => exact Run.bind h.inside (number_run (hvalue p rfl) h hne) fun v d1 hd1 _ hv => hrest hd1 hv

end Lowering

/-! ### Declared functions -/

namespace Draft

variable {d d' : Draft}

def marked (d : Draft) (index : Nat) : Draft :=
  { d with functions := d.functions.modify index ({ · with isLowered := true }) }

theorem getElem?_marked (d : Draft) (index i : Nat) : (d.marked index).functions[i]? =
      if index = i then d.functions[i]?.map ({ · with isLowered := true }) else d.functions[i]? :=
  Array.getElem?_modify

variable {index : Nat} {f : FunctionEntry}

theorem exists_of_marked {i : Nat} (h : (d.marked index).functions[i]? = some f) :
    ∃ g, d.functions[i]? = some g ∧ f = { g with isLowered := f.isLowered } ∧
      (f.isLowered = g.isLowered ∨ i = index ∧ f.isLowered = true) := by
  rw [getElem?_marked] at h
  split at h
  · next heq =>
    obtain ⟨g, hg, rfl⟩ := Option.map_eq_some_iff.1 h
    exact ⟨g, hg, rfl, .inr ⟨heq.symm, rfl⟩⟩
  · exact ⟨f, h, rfl, .inl rfl⟩

theorem grows_marked (d : Draft) (index : Nat) : d.Grows (d.marked index) := by
  refine { Grows.refl d with functions := ⟨Array.size_modify .., fun i f hf => ?_⟩ }
  rw [getElem?_marked, hf]
  split
  · exact ⟨true, rfl, fun _ => rfl⟩
  · exact ⟨f.isLowered, rfl, id⟩

theorem Sound.aside_marked (h : d.Sound) (index : Nat) : d.Aside (d.marked index) := by
  refine ⟨⟨h.current, h.procedures, fun i f hf => ?_, h.services, fun i entry disp he hdisp => ?_⟩,
    grows_marked d index, rfl, rfl, rfl, fun _ => rfl⟩
  · obtain ⟨g, hg, hfg, -⟩ := exists_of_marked hf
    rw [hfg]
    exact h.functions i g hg
  · exact (grows_marked d index).dispatcherSound (h.dispatchers i entry disp he hdisp)

theorem owns_marked (d : Draft) (index : Nat) (o : Owner) (n : Nat) : (d.marked index).Owns o n ↔ d.Owns o n := by
  cases o with
  | dispatcher role => exact Iff.rfl
  | function i =>
    constructor
    · rintro ⟨f, hf, rfl⟩
      obtain ⟨g, hg, hfg, -⟩ := exists_of_marked hf
      exact ⟨g, hg, by rw [hfg]⟩
    · rintro ⟨g, hg, rfl⟩
      obtain ⟨lowered, hf, -⟩ := (grows_marked d index).functions.2 i g hg
      exact ⟨_, hf, rfl⟩

theorem awaits_marked (d : Draft) (index : Nat) (o : Owner) (n : Nat) :
    (d.marked index).Awaits o n ↔ d.Awaits o n ∧ o ≠ .function index := by
  cases o with
  | dispatcher role => simpa [Awaits] using owns_marked d index (.dispatcher role) n
  | function i =>
    simp only [Awaits, ne_eq, Owner.function.injEq]
    rw [getElem?_marked]
    by_cases hi : index = i
    · rw [if_pos hi]
      refine ⟨?_, fun h => absurd hi.symm h.2⟩
      rintro ⟨f, hf, -, hlow⟩
      obtain ⟨g, -, rfl⟩ := Option.map_eq_some_iff.1 hf
      cases hlow
    · rw [if_neg hi]
      exact ⟨fun h => ⟨h, Ne.symm hi⟩, And.left⟩

theorem Visited.reserved_marked (hf : d.functions[index]? = some f)
    (hvisited : (d.marked index).Visited f.procedure d') (hres : d.Reserved) : d'.Reserved := by
  have howns : ∀ o n, d'.Owns o n ↔ d.Owns o n := by
    intro o n
    rw [← owns_marked d index]
    cases o <;> simp only [Owns, hvisited.functions, hvisited.roles]
  have hawaits : ∀ o n, d'.Awaits o n → d.Awaits o n ∧ o ≠ .function index := by
    intro o n ho
    rw [← awaits_marked]
    cases o with
    | function i => simpa only [Awaits, hvisited.functions] using ho
    | dispatcher role => simpa only [Awaits, Owns, hvisited.roles] using ho
  refine ⟨fun o o' n ho ho' => hres.unique o o' n ((howns o n).1 ho) ((howns o' n).1 ho'),
    fun o n ho => hres.apart o n ((howns o n).1 ho), fun o n ho => ?_⟩
  obtain ⟨hold, hother⟩ := hawaits o n ho
  obtain ⟨hne, q, hq, hfresh⟩ := hres.fresh o n hold
  have hn : n ≠ f.procedure := fun heq =>
    hother (hres.unique o (.function index) n hold.owns ⟨f, hf, heq.symm⟩)
  exact ⟨fun heq => hne (heq.trans hvisited.current), q, (hvisited.procedures n hn).trans hq, hfresh⟩

theorem Visited.accounted_marked (hf : d.functions[index]? = some f)
    (hvisited : (d.marked index).Visited f.procedure d')
    (hfinished : ∃ q, d'.procedures[f.procedure]? = some q ∧ q.Finished) (hacc : d.Accounted) :
    d'.Accounted := by
  intro i q hq
  by_cases hi : i = f.procedure
  · simp_all
  · rw [hvisited.procedures i hi] at hq
    rcases hacc i q hq with hmain | hcur | hfin | ⟨o, ho⟩
    · exact .inl hmain
    · exact .inr (.inl (hcur.trans hvisited.current.symm))
    · exact .inr (.inr (.inl hfin))
    · refine .inr (.inr (.inr ⟨o, ?_⟩))
      have hother : o ≠ .function index := by
        rintro rfl
        obtain ⟨g, hg, rfl, -⟩ := ho
        simp_all
      have ho' := (awaits_marked d index o i).2 ⟨ho, hother⟩
      cases o with
      | function n => simpa only [Awaits, hvisited.functions] using ho'
      | dispatcher role => simpa only [Awaits, Owns, hvisited.roles] using ho'

/-- What top-level lowering of a function relies on: each name belongs to one function, with the
parameters of its declaration unless there are problems. -/
structure Declares (d : Draft) (head : FunctionHead) : Prop where
  reserved : d.Reserved
  unique : ∀ (i j : Nat) (f g : FunctionEntry), d.functions[i]? = some f → d.functions[j]? = some g →
    f.name = g.name → i = j
  params : d.findings.count = 0 → ∀ (i : Nat) (f : FunctionEntry), d.functions[i]? = some f →
    f.name = head.name.name → f.numParams = head.params.length

theorem Declares.mono {head : FunctionHead} {j : Nat} (h : d.Declares head) (hwithin : d.Within j d') :
    d'.Declares head := by
  have hold : ∀ {i : Nat} {f : FunctionEntry}, d'.functions[i]? = some f →
      ∃ g, d.functions[i]? = some g ∧ g.name = f.name ∧ g.numParams = f.numParams := by
    intro i f hf
    have hlt : i < d.functions.size :=
      hwithin.grown.functions.1 ▸ (Array.getElem?_eq_some_iff.1 hf).1
    obtain ⟨lowered, hf', -⟩ := hwithin.grown.functions.2 i _ (Array.getElem?_eq_getElem hlt)
    grind
  refine ⟨hwithin.reserved h.reserved, fun i j f g hf hg hname => ?_, fun hclean i f hf hname => ?_⟩
  · obtain ⟨f', hf', hfname, -⟩ := hold hf
    obtain ⟨g', hg', hgname, -⟩ := hold hg
    exact h.unique i j f' g' hf' hg' (hfname.trans (hname.trans hgname.symm))
  · obtain ⟨f', hf', hfname, hfnum⟩ := hold hf
    exact hfnum.symm.trans (h.params (hwithin.grown.clean hclean) i f' hf' (hfname.trans hname))

def HasLowered (d : Draft) (name : String) : Prop :=
  ∀ (i : Nat) (f : FunctionEntry), d.functions[i]? = some f → f.name = name → f.isLowered = true

end Draft

namespace Lowering

open Run

variable {P : Prop} {d : Draft}

theorem spillParams_run {params : List Param} (reg : Nat) (hreg : reg + params.length ≤ 16)
    (hplain : patternParam? params = none) (h : d.Ready) :
    Run P d [] 0 (fun _ d' => d.procedure.locals.size + params.length ≤ d'.procedure.locals.size)
      (spillParams reg params d) := by
  induction params generalizing d reg with
  | nil => exact Run.pure h.inside (Nat.le_refl _)
  | cons param rest ih =>
    rw [List.length_cons] at hreg
    cases param with
    | pattern span => cases hplain
    | ident id =>
      refine Run.look h.inside.toWithin (requireFree_looks id) fun _ _ => ?_
      refine Run.bind h.inside (addLocal_run h id.name) fun slot d1 hd1 _ ⟨hsize1, hslot⟩ => ?_
      have hstore := emitStore_run (P := P) hd1.ready.inside (show reg < 16 by omega) hslot
      refine Run.bind hd1 hstore fun _ d2 hd2 hstep2 _ => ?_
      refine Run.within hd2 ((ih (reg + 1) (by omega) hplain hd2.ready).mono fun _ d3 _ hsize3 => ?_)
      have hsize2 := hstep2.grown.locals_le
      rw [List.length_cons]
      omega

variable {span : Span} {head : FunctionHead} {body : Lowering Unit}

theorem of_signatureProblem? (h : signatureProblem? span head = none) :
    head.params.length ≤ maxParams ∧ patternParam? head.params = none := by
  rw [signatureProblem?] at h
  split at h
  · cases h
  · split at h
    · cases h
    · next hcount => exact ⟨Nat.not_lt.1 hcount, Option.map_eq_none_iff.1 h⟩

theorem function_body_visits (hbody : Branch P body) (hsign : signatureProblem? span head = none) (h : d.Ready)
    (hdecl : d.Declares head) {index : Nat} {f : FunctionEntry} (hf : d.functions[index]? = some f)
    (hname : f.name = head.name.name) (hlow : f.isLowered = false) :
    Visits P (d.marked index) f.procedure (nested (inProcedure f.procedure do
      spillParams 0 head.params
      body
      write (emitLoad 0 .special SpecialValue.nan.code 0)
      emitReturn) (d.marked index)) := by
  obtain ⟨hcount, hplain⟩ := of_signatureProblem? hsign
  have hawaits : d.Awaits (.function index) f.procedure := ⟨f, hf, rfl, hlow⟩
  obtain ⟨-, p, hp, hfresh⟩ := hdecl.reserved.fresh _ _ hawaits
  have hmain := hdecl.reserved.apart _ _ hawaits.owns
  refine nested_inProcedure_visits (h.sound.aside_marked index).sound hp hfresh hmain ?_
  intro d1 hd1 hne hlevel hgrows hnum
  have hspill := spillParams_run (P := P) 0 (by simp only [maxParams] at hcount; omega) hplain hd1
  refine Finishes.bind hd1.inside hspill fun _ d2 hd2 _ hsize2 => ?_
  have hlevel2 := hd2.grown.atTopLevel.trans hlevel
  refine Finishes.bind hd2 (hbody d2 hd2.ready hlevel2) fun _ d3 hd3 hstep3 _ => ?_
  have hnan : Passes P d3 (write (emitLoad 0 .special SpecialValue.nan.code 0)) :=
    Run.tail (special_bind hd3.ready.inside (by decide) .nan fun d4 hd4 _ => Run.pure hd4 trivial)
  refine Finishes.bind hd3 hnan fun _ d4 hd4 hstep4 _ => finishes_emitReturn hd4 fun hclean => ?_
  -- the procedure was made for as many parameters as the head has
  have hclean0 : d.findings.count = 0 :=
    ((grows_marked d index).trans (hgrows.trans hd4.grown.toGrows)).clean hclean
  obtain ⟨-, q, hq, hnumq⟩ := h.sound.functions index f hf
  rw [hp] at hq
  cases hq
  rw [hd4.grown.numParams hd1.sound hd4.ready.sound, hnum, hnumq, hdecl.params hclean0 index f hf hname]
  have hlocals := (hstep3.grown.trans hstep4.grown).locals_le
  omega

theorem function_entry_run (hbody : Branch P body) (hsign : signatureProblem? span head = none) (h : d.Ready)
    (htop : d.atTopLevel = true) (hdecl : d.Declares head) {index : Nat} {f : FunctionEntry}
    (hf : d.functions[index]? = some f) (hname : f.name = head.name.name) (hlow : f.isLowered = false) :
    Run P d [] 0 (fun _ d' => d'.functions = (d.marked index).functions) (nested (inProcedure f.procedure do
        spillParams 0 head.params
        body
        write (emitLoad 0 .special SpecialValue.nan.code 0)
        emitReturn) (d.marked index)) := by
  have hother := (hdecl.reserved.fresh (.function index) f.procedure ⟨f, hf, rfl, hlow⟩).1.symm
  have haside : ∀ {d'}, (d.marked index).Visited f.procedure d' → d.Aside d' := fun hvisited =>
    (h.sound.aside_marked index).trans (hvisited.aside hother)
  refine Outcome.mono (function_body_visits hbody hsign h hdecl hf hname hlow) ?_ ?_
  · rintro _ d' ⟨hvisited, hfinished⟩
    exact ⟨h.inside.aside htop (haside hvisited) (hvisited.reserved_marked hf)
      fun hclean => hvisited.accounted_marked hf (hfinished hclean), hvisited.functions⟩
  · intro stop d' hstop
    cases stop with
    | reject problem => exact ⟨0, h.inside.toWithin.aside htop (haside hstop) (hstop.reserved_marked hf)⟩
    | abort defect => exact hstop

theorem function_run (hbody : Branch P body) (h : d.Ready) (hdecl : d.atTopLevel = true → d.Declares head) :
    Run P d [] 0 (fun _ d' => signatureProblem? span head = none → d'.HasLowered head.name.name)
      (function span head body d) := by
  refine Run.look h.inside.toWithin (requireTopLevel_looks _) fun _ htop => ?_
  have hdecl := hdecl htop
  dsimp only
  split
  · next hsome =>
    refine Run.pure h.inside fun hnone => ?_
    rw [hnone] at hsome
    cases hsome
  · next hnone =>
    have hsign : signatureProblem? span head = none := Option.not_isSome_iff_eq_none.1 hnone
    refine Run.get_bind ?_
    change Runs P d _ _
    split
    · next hidx =>
      refine Run.pure h.inside fun _ i f hf hname => ?_
      grind
    · next index hidx =>
      obtain ⟨hlt, hfound, -⟩ := Array.findIdx?_eq_some_iff_getElem.1 hidx
      have hget : d.functions[index]? = some d.functions[index] := Array.getElem?_eq_getElem hlt
      rw [hget]
      dsimp only
      have hname : d.functions[index].name = head.name.name := beq_iff_eq.1 hfound
      generalize d.functions[index] = f at hget hname
      have honly : ∀ (i : Nat) (g : FunctionEntry), d.functions[i]? = some g → g.name = head.name.name →
          i = index := fun i g hg hgname => hdecl.unique i index g f hg hget (hgname.trans hname.symm)
      split
      · next hlow =>
        refine Run.pure h.inside fun _ i g hg hgname => ?_
        grind
      · next hlow =>
        have hrun := function_entry_run hbody hsign h htop hdecl hget hname (Bool.eq_false_iff.2 hlow)
        refine hrun.mono fun _ d' _ hfunctions _ i g hg hgname => ?_
        rw [hfunctions] at hg
        obtain ⟨g', hg', hgg', -⟩ := exists_of_marked hg
        cases honly i g' hg' (by rw [hgg'] at hgname; exact hgname)
        rw [getElem?_marked, if_pos rfl, hget] at hg
        cases hg
        rfl

end Lowering

/-! ### Trees -/

open Lowering

mutual

def Expr.withinLimits : Expr → Bool
  | .unary _ _ operand => operand.withinLimits
  | .binary _ _ left right => left.withinLimits && right.withinLimits
  | .assign _ _ value => value.withinLimits
  | .call _ (.ident id) args => callWithinLimits id.name args && Expr.allWithinLimits args
  | .call _ (.member _ object _) args => object.withinLimits && Expr.allWithinLimits args
  | .member _ object _ => object.withinLimits
  | .arrow _ _ body => Stmt.allWithinLimits body
  | .arrowExpr _ _ body => body.withinLimits
  | _ => true

def Expr.allWithinLimits : List Expr → Bool
  | [] => true
  | e :: rest => e.withinLimits && Expr.allWithinLimits rest

def Declarator.allWithinLimits : List Declarator → Bool
  | [] => true
  | .mk _ (some init) _ :: rest => init.withinLimits && Declarator.allWithinLimits rest
  | .mk _ none _ :: rest => Declarator.allWithinLimits rest

def Stmt.withinLimits : Stmt → Bool
  | .var _ _ declarators => Declarator.allWithinLimits declarators
  | .expr _ value => value.withinLimits
  | .ifElse _ condition thenStmt none => condition.withinLimits && thenStmt.withinLimits
  | .ifElse _ condition thenStmt (some elseStmt) =>
    condition.withinLimits && thenStmt.withinLimits && elseStmt.withinLimits
  | .block _ stmts => Stmt.allWithinLimits stmts
  | .ret _ none => true
  | .ret _ (some value) => value.withinLimits
  | .function _ _ body => Stmt.allWithinLimits body

def Stmt.allWithinLimits : List Stmt → Bool
  | [] => true
  | s :: rest => s.withinLimits && Stmt.allWithinLimits rest

end

def Draft.Awaiting (d : Draft) : Stmt → Prop
  | .function _ head _ => d.Declares head
  | _ => True

/-- What a statement has done when it is lowered, if there are no problems. -/
def Draft.Served (d : Draft) : Stmt → Prop
  | .function span head _ =>
    d.findings.count = 0 → signatureProblem? span head = none → d.HasLowered head.name.name
  | _ => True

theorem Draft.HasLowered.mono {d' : Draft} (h : d.HasLowered name) (hgrows : d.Grows d') :
    d'.HasLowered name := by
  intro i f hf hname
  have hlt : i < d.functions.size := hgrows.functions.1 ▸ (Array.getElem?_eq_some_iff.1 hf).1
  obtain ⟨lowered, hf', hlow⟩ := hgrows.functions.2 i _ (Array.getElem?_eq_getElem hlt)
  rw [hf] at hf'
  cases hf'
  exact hlow (h i _ (Array.getElem?_eq_getElem hlt) hname)

theorem Draft.Served.mono {d' : Draft} {s : Stmt} (h : d.Served s) (hgrows : d.Grows d') : d'.Served s := by
  cases s with
  | function span head body =>
    exact fun hclean hsign => (h (hgrows.clean hclean) hsign).mono hgrows
  | _ => trivial

theorem Draft.served_of_problems (hdirty : d.findings.count ≠ 0) (s : Stmt) : d.Served s := by
  cases s with
  | function span head body => exact fun hclean => absurd hclean hdirty
  | _ => trivial

namespace Lowering

theorem map_expr_lowerParts (es : List Expr) : (lowerParts es).map (·.expr) = es := by
  induction es with
  | nil => rw [lowerParts, List.map_nil]
  | cons e rest ih => rw [lowerParts, List.map_cons, ih]

theorem discard_run {x : Lowering Value} {Q : Value → Draft → Prop} (hx : Run P d [] 0 Q (x d)) :
    Passes P d (discard x) := by
  rw [Passes, Run, Outcome.discard_iff]
  exact Outcome.imp hx fun _ _ hd => ⟨hd.1, trivial⟩

theorem branch_of_run {s : Stmt} (hrun : ∀ d : Draft, d.Ready → (d.atTopLevel = true → d.Awaiting s) →
    Completes P d (·.Served s) (lowerStmt s d)) : Branch P (lowerStmt s) := by
  intro d h hlevel
  refine (hrun d h fun htop => ?_).run.mono fun _ _ _ _ => trivial
  rw [hlevel] at htop
  cases htop

mutual

theorem lowerExpr_sound (e : Expr) (hlimits : P → e.withinLimits = true) :
    Part.Sound P ⟨e, lowerExpr e, lowerBody e⟩ := by
  refine ⟨fun d h hne => ?_, fun d h hlevel => ?_⟩
  · cases e with
    | literal span value =>
      rw [lowerExpr]
      exact Run.located (literal_run h hne value)
    | ident id =>
      rw [lowerExpr]
      exact Run.located (identifier_run h id)
    | unary span op operand =>
      rw [Expr.withinLimits] at hlimits
      rw [lowerExpr]
      exact Run.located (unary_run (lowerExpr_sound operand hlimits) h hne op)
    | binary span op left right =>
      simp only [Expr.withinLimits, Bool.and_eq_true] at hlimits
      rw [lowerExpr]
      exact Run.located (binary_run (lowerExpr_sound left fun hp => (hlimits hp).1)
        (lowerExpr_sound right fun hp => (hlimits hp).2) h hne op)
    | assign span target value =>
      rw [Expr.withinLimits] at hlimits
      rw [lowerExpr]
      exact Run.located (assignTo_run (lowerExpr_sound value hlimits) h hne target)
    | call span callee args =>
      cases callee with
      | ident id =>
        simp only [Expr.withinLimits, Bool.and_eq_true] at hlimits
        rw [lowerExpr]
        have hcall : CallSite.Sound P ⟨span, lowerParts args⟩ :=
          lowerParts_sound args fun hp => (hlimits hp).2
        refine Run.located (callFunction_run h hne hcall fun hp => ?_)
        rw [map_expr_lowerParts]
        exact (hlimits hp).1
      | member mspan object name =>
        simp only [Expr.withinLimits, Bool.and_eq_true] at hlimits
        rw [lowerExpr]
        have hcall : CallSite.Sound P ⟨span, lowerParts args⟩ :=
          lowerParts_sound args fun hp => (hlimits hp).2
        exact Run.located (callMember_run (lowerExpr_sound object fun hp => (hlimits hp).1) h hne hcall name)
      | _ => exact Run.located (Run.reject h.inside.toWithin)
    | member span object name =>
      rw [Expr.withinLimits] at hlimits
      rw [lowerExpr]
      exact Run.located (member_run (lowerExpr_sound object hlimits) h hne name)
    | array | arrow | arrowExpr =>
      rw [lowerExpr]
      exact Run.reject h.inside.toWithin
  · cases e with
    | arrow span params body =>
      rw [Expr.withinLimits] at hlimits
      rw [lowerBody]
      exact lowerStmts_branch body hlimits d h hlevel
    | arrowExpr span params body =>
      rw [Expr.withinLimits] at hlimits
      rw [lowerBody]
      refine (plain_statement_completes h fun d' hd' hne => ?_).run
      exact discard_run ((lowerExpr_sound body hlimits).value d' hd' hne)
    | _ => exact Run.pure h.inside trivial

theorem lowerParts_sound (es : List Expr) (hlimits : P → Expr.allWithinLimits es = true) :
    ∀ p ∈ lowerParts es, p.Sound P := by
  cases es with
  | nil => simp [lowerParts]
  | cons e rest =>
    simp only [Expr.allWithinLimits, Bool.and_eq_true] at hlimits
    intro p hp
    rw [lowerParts] at hp
    rcases List.mem_cons.1 hp with rfl | hp
    · exact lowerExpr_sound e fun hp => (hlimits hp).1
    · exact lowerParts_sound rest (fun hp => (hlimits hp).2) p hp

theorem lowerDeclarators_run (declarators : List Declarator)
    (hlimits : P → Declarator.allWithinLimits declarators = true) (d : Draft) (h : d.Ready)
    (hne : d.writer.scopes ≠ []) : Passes P d (lowerDeclarators declarators) := by
  match declarators with
  | [] =>
    rw [lowerDeclarators]
    exact Run.pure h.inside trivial
  | .mk name (some init) span :: rest =>
    simp only [Declarator.allWithinLimits, Bool.and_eq_true] at hlimits
    rw [lowerDeclarators]
    have hinit := lowerExpr_sound init fun hp => (hlimits hp).1
    refine Run.bind h.inside (declare_run (by rintro _ ⟨⟩; exact hinit) h hne name span) fun _ d1 hd1 _ _ => ?_
    exact Run.within hd1 (lowerDeclarators_run rest (fun hp => (hlimits hp).2) d1 hd1.ready (hd1.scopes_ne hne))
  | .mk name none span :: rest =>
    simp only [Declarator.allWithinLimits] at hlimits
    rw [lowerDeclarators]
    refine Run.bind h.inside (declare_run (by rintro _ ⟨⟩) h hne name span) fun _ d1 hd1 _ _ => ?_
    exact Run.within hd1 (lowerDeclarators_run rest hlimits d1 hd1.ready (hd1.scopes_ne hne))

theorem lowerStmt_completes (s : Stmt) (hlimits : P → s.withinLimits = true) (d : Draft) (h : d.Ready)
    (hwait : d.atTopLevel = true → d.Awaiting s) :
    Completes P d (·.Served s) (lowerStmt s d) := by
  match s with
  | .var span kind declarators =>
    rw [Stmt.withinLimits] at hlimits
    rw [lowerStmt]
    refine plain_statement_completes h fun d' hd' hne => ?_
    split
    · exact lowerDeclarators_run declarators hlimits d' hd' hne
    · exact Run.reject hd'.inside.toWithin
  | .expr span value =>
    rw [Stmt.withinLimits] at hlimits
    rw [lowerStmt]
    exact plain_statement_completes h fun d' hd' hne =>
      discard_run ((lowerExpr_sound value hlimits).value d' hd' hne)
  | .ifElse span condition thenStmt none =>
    simp only [Stmt.withinLimits, Bool.and_eq_true] at hlimits
    rw [lowerStmt]
    have hcond := lowerExpr_sound condition fun hp => (hlimits hp).1
    have hthen := branch_of_run (lowerStmt_completes thenStmt fun hp => (hlimits hp).2)
    exact plain_statement_completes h fun d' hd' _ => ifElse_run hcond hthen (by rintro _ ⟨⟩) hd'
  | .ifElse span condition thenStmt (some elseStmt) =>
    simp only [Stmt.withinLimits, Bool.and_eq_true] at hlimits
    rw [lowerStmt]
    have hcond := lowerExpr_sound condition fun hp => (hlimits hp).1.1
    have hthen := branch_of_run (lowerStmt_completes thenStmt fun hp => (hlimits hp).1.2)
    have helse := branch_of_run (lowerStmt_completes elseStmt fun hp => (hlimits hp).2)
    exact plain_statement_completes h fun d' hd' _ => ifElse_run hcond hthen (by rintro _ ⟨⟩; exact helse) hd'
  | .block span stmts =>
    rw [Stmt.withinLimits] at hlimits
    rw [lowerStmt]
    exact plain_statement_completes h fun d' hd' _ => (lowerStmts_branch stmts hlimits).nested_run hd'
  | .ret span none =>
    rw [lowerStmt]
    exact plain_statement_completes h fun d' hd' hne => returnResult_run (by rintro _ ⟨⟩) hd' hne
  | .ret span (some value) =>
    rw [Stmt.withinLimits] at hlimits
    rw [lowerStmt]
    have hvalue := lowerExpr_sound value hlimits
    exact plain_statement_completes h fun d' hd' hne => returnResult_run (by rintro _ ⟨⟩; exact hvalue) hd' hne
  | .function span head body =>
    rw [Stmt.withinLimits] at hlimits
    rw [lowerStmt]
    have hbody := lowerStmts_branch body hlimits
    refine statement_completes h (fun d' hd' => ?_) (fun d' d'' hext hserved => hserved.mono hext.toGrows)
      fun d' hdirty => served_of_problems hdirty _
    have hdecl : d'.atTopLevel = true → d'.Declares head := fun htop =>
      (hwait (hd'.grown.atTopLevel ▸ htop)).mono hd'
    exact (function_run hbody hd'.ready hdecl).mono fun _ _ _ hlow _ => hlow

theorem lowerStmts_branch (stmts : List Stmt) (hlimits : P → Stmt.allWithinLimits stmts = true) :
    Branch P (lowerStmts stmts) := by
  intro d h hlevel
  cases stmts with
  | nil =>
    rw [lowerStmts]
    exact Run.pure h.inside trivial
  | cons s rest =>
    simp only [Stmt.allWithinLimits, Bool.and_eq_true] at hlimits
    rw [lowerStmts]
    have hwait : d.atTopLevel = true → d.Awaiting s := fun htop => by rw [hlevel] at htop; cases htop
    refine Run.bind h.inside (lowerStmt_completes s (fun hp => (hlimits hp).1) d h hwait).run fun _ d1 hd1 _ _ => ?_
    exact Run.within hd1 (lowerStmts_branch rest (fun hp => (hlimits hp).2) d1 hd1.ready
      (hd1.grown.atTopLevel.trans hlevel))

end

end Lowering

end BusScript
