import BusScript.Proofs.WriterCalls

namespace BusScript

open CodeWriter Draft

theorem RegSet.ext_has {s t : RegSet} (h : ∀ r, s.has r = t.has r) : s = t :=
  congrArg RegSet.mk (Nat.eq_of_testBit_eq h)

def Defect.concernsRegisters : Defect → Bool
  | .scopeUnderflow | .keptOutermost | .freedTwice _ | .allocatedOutsideScope | .scopeImbalance .. |
    .procedureImbalance _ => true
  | _ => false

theorem Defect.IsLimit.not_concernsRegisters {defect : Defect} {fits : Prop} (h : defect.IsLimit fits) :
    defect.concernsRegisters = false := by
  cases defect with
  | scopeUnderflow | keptOutermost | freedTwice | allocatedOutsideScope | scopeImbalance | procedureImbalance => cases h
  | _ => rfl

namespace CodeWriter

variable {α β : Type} {w w' : CodeWriter}

theorem Registers.congr (h : w.Registers) (hscopes : w'.scopes = w.scopes) (hallocated : w'.allocated = w.allocated) :
    w'.Registers :=
  ⟨hscopes ▸ h.nodup, by rw [hscopes, hallocated]; exact h.allocated, hscopes ▸ h.small⟩

/-- How a call may stop: at a problem, with registers in order, or at a defect, but never because a register is freed
twice. -/
def StopsInOrder : Stop → CodeWriter → Prop
  | .reject _, w => w.Registers
  | .abort defect, _ => ∀ r, defect ≠ .freedTwice r

structure InOrder (act : Writing α) : Prop where
  ends : ∀ w, w.Registers → Outcome (fun _ w' => w'.Registers) StopsInOrder (act w)

namespace InOrder

variable {x : Writing α}

theorem bind {f : α → Writing β} (hx : InOrder x) (hf : ∀ a, InOrder (f a)) : InOrder (x >>= f) := by
  constructor
  intro w h
  exact (hx.ends w h).bind (fun a w' h' => (hf a).ends w' h') fun _ _ => id

theorem pure (a : α) : InOrder (Pure.pure a) := ⟨fun _ h => h⟩

theorem get : InOrder get := ⟨fun _ h => h⟩

theorem reject (problem : Problem) : InOrder (reject problem : Writing α) := ⟨fun _ h => h⟩

theorem abort {defect : Defect} (hdefect : ∀ r, defect ≠ .freedTwice r) : InOrder (abort defect : Writing α) :=
  ⟨fun _ _ => hdefect⟩

theorem modify {f : CodeWriter → CodeWriter} (hscopes : ∀ w, (f w).scopes = w.scopes)
    (hallocated : ∀ w, (f w).allocated = w.allocated) : InOrder (modify f) :=
  ⟨fun w h => h.congr (hscopes w) (hallocated w)⟩

theorem ite {c : Prop} [Decidable c] {y : Writing α} (hx : InOrder x) (hy : InOrder y) :
    InOrder (if c then x else y) := by
  split
  · exact hx
  · exact hy

theorem discard (hx : InOrder x) : InOrder (discard x) :=
  ⟨fun w h => Outcome.discard_iff.2 (hx.ends w h)⟩

end InOrder

theorem inOrder_push : InOrder push :=
  ⟨fun _ h => (h.push).mono (fun _ _ hw => hw.registers) fun _ _ => False.elim⟩

theorem inOrder_pop : InOrder pop := by
  constructor
  intro w h
  cases hscopes : w.scopes with
  | nil =>
    rw [pop]
    simp only [takeScope, Outcome.bind_iff, Outcome.get_iff, hscopes]
    exact nofun
  | cons scope rest => exact (h.pop hscopes).mono (fun _ _ hw => hw.registers) fun _ _ => False.elim

theorem inOrder_popExcept (keep : Option Nat) : InOrder (popExcept keep) := by
  constructor
  intro w h
  cases hscopes : w.scopes with
  | nil =>
    rw [popExcept]
    simp only [takeScope, Outcome.bind_iff, Outcome.get_iff, hscopes]
    intro _ herror
    cases herror
  | cons scope rest =>
    by_cases hrest : kept keep scope ≠ [] → rest ≠ []
    · exact (h.popExcept hscopes hrest).mono (fun _ _ hw => hw.registers) fun _ _ => False.elim
    -- the outermost scope has none around it that could take the register
    obtain ⟨hkept, hnone⟩ := Classical.not_imp.1 hrest
    obtain ⟨r, hr⟩ := List.exists_mem_of_ne_nil _ hkept
    obtain ⟨hmem, rfl⟩ := mem_kept.1 hr
    rw [popExcept]
    simp only [takeScope, Outcome.bind_iff, Outcome.get_iff, hscopes, Outcome.modify_iff, Outcome.pure_iff]
    refine (h.freed hscopes (some r)).mono ?_ fun _ _ => False.elim
    rintro _ w' ⟨hw', -⟩
    have hscopes' : w'.scopes = [] := by grind
    simp only [hmem, if_true, addToScope, Outcome.bind_iff, Outcome.get_iff, hscopes']
    intro _ herror
    cases herror

theorem inOrder_alloc (r : Nat) : InOrder (alloc r) := by
  constructor
  intro w h
  by_cases hr : r < 32
  · by_cases hscopes : w.scopes = []
    · have hlow : ¬ 32 ≤ r := Nat.not_le.2 hr
      rw [alloc]
      simp only [hlow, if_false, Outcome.bind_iff, Outcome.get_iff]
      cases w.allocated.has r with
      | true => exact h
      | false =>
        simp only [Bool.false_eq_true, if_false, addToScope, Outcome.bind_iff, Outcome.get_iff, hscopes]
        exact nofun
    · refine (h.alloc hscopes hr).mono (fun _ _ hw => hw.1.registers) ?_
      rintro stop _ ⟨rfl, p, rfl⟩
      exact h
  · have hlarge : 32 ≤ r := Nat.not_lt.1 hr
    simp only [alloc, hlarge, if_true]
    exact nofun

theorem inOrder_allocReg : InOrder allocReg := by
  refine InOrder.get.bind fun w => ?_
  simp only
  split
  · exact .reject _
  · exact (inOrder_alloc _).bind fun _ => .pure _

theorem inOrder_allocEach (regs : List Nat) : InOrder (allocEach regs) := by
  induction regs with
  | nil => exact .pure _
  | cons r rest ih => exact (inOrder_alloc r).bind fun _ => ih

theorem inOrder_allocArgs (count : Nat) : InOrder (allocArgs count) :=
  (inOrder_allocEach _).bind fun _ => .pure _

theorem inOrder_pushWords {words : List (Except Defect Word)}
    (h : ∀ defect, .error defect ∈ words → ∀ r, defect ≠ .freedTwice r) : InOrder (pushWords words) := by
  induction words with
  | nil => exact .pure _
  | cons word rest ih =>
    cases word with
    | error defect => exact .abort (h defect List.mem_cons_self)
    | ok word =>
      exact .bind (.modify (fun _ => rfl) fun _ => rfl) fun _ =>
        ih fun defect hdefect => h defect (List.mem_cons_of_mem _ hdefect)

theorem inOrder_emit (i : Instr) : InOrder (emit i) := by
  refine inOrder_pushWords fun defect hdefect r hr => ?_
  have hlimit := Instr.isLimit_of_mem_encode hdefect False
  rw [hr] at hlimit
  exact hlimit

theorem inOrder_emitRaw (cls : OpClass) (arg : Nat) : InOrder (emitRaw cls arg) := by
  refine inOrder_pushWords fun defect hdefect r hr => ?_
  rw [List.mem_singleton, Instr.word] at hdefect
  grind

theorem inOrder_saveRegs : InOrder saveRegs :=
  InOrder.get.bind fun _ => .bind (.modify (fun _ => rfl) fun _ => rfl) fun _ => .pure _

theorem scopes_closeRun (w : CodeWriter) : (closeRun w).scopes = w.scopes := (mapped_closeRun w none).scopes

theorem allocated_closeRun (w : CodeWriter) : (closeRun w).allocated = w.allocated := (mapped_closeRun w none).allocated

theorem inOrder_run (call : WriterCall) : InOrder call.run := by
  cases call with
  | push => exact inOrder_push
  | pop => exact inOrder_pop
  | popExcept keep => exact inOrder_popExcept keep
  | allocReg => exact inOrder_allocReg.discard
  | allocBuffer => exact inOrder_alloc RegSet.bufferReg
  | allocArgs count => exact (inOrder_allocArgs count).discard
  | startStatement | endStatement => exact .modify scopes_closeRun allocated_closeRun
  | newLabel name =>
    exact InOrder.discard (InOrder.get.bind fun _ => .bind (.modify (fun _ => rfl) fun _ => rfl) fun _ => .pure _)
  | bindLabel label =>
    constructor
    intro w h
    simp only [WriterCall.run, bindLabel, Outcome.bind_iff, Outcome.get_iff]
    rcases w.labels[label]? with _ | ⟨name, _ | o, uses⟩
    · exact h.congr rfl rfl
    · exact h.congr rfl rfl
    · intro _ herror
      cases herror
  | async op a b c => exact inOrder_saveRegs.bind fun _ => inOrder_emit _
  | call function numArgs kind =>
    have hemit : InOrder (do
        let saved ← if kind = .sync then saveRegs else pure 0
        emit (.call kind numArgs function saved)) :=
      .ite (inOrder_saveRegs.bind fun _ => inOrder_emit _) ((InOrder.pure _).bind fun _ => inOrder_emit _)
    refine .ite (.bind (.abort fun _ herror => ?_) fun _ => hemit) hemit
    cases herror
  | jump label ifZero =>
    exact .bind (.modify (fun _ => rfl) fun _ => rfl) fun _ => (inOrder_emitRaw _ _).bind fun _ => inOrder_emitRaw _ _
  | _ => exact inOrder_emit _

/-- Calls in a row, each of which returns or is turned down because of a problem. -/
inductive Takes : CodeWriter → List WriterCall → CodeWriter → Prop
  | nil (w : CodeWriter) : Takes w [] w
  | returned {w w' w'' : CodeWriter} {call : WriterCall} {calls : List WriterCall} :
      call.run w = .ok () w' → Takes w' calls w'' → Takes w (call :: calls) w''
  | rejected {w w' w'' : CodeWriter} {call : WriterCall} {calls : List WriterCall} {p : Diagnostic} :
      call.run w = .error (.reject p) w' → Takes w' calls w'' → Takes w (call :: calls) w''

theorem Takes.registers {calls : List WriterCall} (h : w.Takes calls w') (hw : w.Registers) : w'.Registers := by
  induction h with
  | nil => exact hw
  | @returned w w1 _ call _ hrun _ ih | @rejected w w1 _ call _ p hrun _ ih =>
    have hcall := (inOrder_run call).ends w hw
    rw [hrun] at hcall
    exact ih hcall

theorem Rescoped.fresh {regs : List Nat} (h : Rescoped w w' (grow regs w.scopes)) (hne : w.scopes ≠ [])
    (hw : w.Registers) : regs.Nodup ∧ ∀ r ∈ regs, w.allocated.has r = false := by
  have hnodup := h.registers.nodup
  rw [h.scopes_eq, (flatten_grow_perm hne).nodup_iff] at hnodup
  obtain ⟨-, hregs, hapart⟩ := List.nodup_append.1 hnodup
  refine ⟨hregs, fun r hr => Bool.eq_false_iff.2 fun hhas => ?_⟩
  exact hapart r ((hw.allocated r).1 hhas) r hr rfl

/-- Whatever is allocated next is not allocated yet. -/
structure AllocatesFree (w : CodeWriter) : Prop where
  reg : ∀ r w', allocReg w = .ok r w' → w.allocated.has r = false
  buffer : ∀ w', allocBuffer w = .ok () w' → w.allocated.has RegSet.bufferReg = false
  args : ∀ count regs w', allocArgs count w = .ok regs w' → regs.Nodup ∧ ∀ r ∈ regs, w.allocated.has r = false

theorem alloc_outcome_outside (hscopes : w.scopes = []) (r : Nat) :
    Outcome (fun _ _ => False) (fun _ w' => w' = w) (alloc r w) := by
  rw [alloc]
  split
  · exact rfl
  · simp only [Outcome.bind_iff, Outcome.get_iff]
    split
    · exact rfl
    · simp only [addToScope, Outcome.bind_iff, Outcome.get_iff, hscopes]
      exact rfl

theorem allocatesFree_outside (hscopes : w.scopes = []) : w.AllocatesFree := by
  have houtside := alloc_outcome_outside hscopes
  have hreg : Outcome (fun _ _ => False) (fun _ _ => True) (allocReg w) := by
    rw [allocReg]
    simp only [Outcome.bind_iff, Outcome.get_iff]
    cases (List.range 16).reverse.find? fun r => !w.allocated.has r with
    | none => trivial
    | some r => exact (houtside r).bind (fun _ _ => False.elim) fun _ _ _ => trivial
  have hargs (count : Nat) : Outcome (fun regs _ => regs = []) (fun _ _ => True) (allocArgs count w) := by
    rw [allocArgs]
    cases List.range (count % 256) with
    | nil => exact rfl
    | cons r rest =>
      rw [Outcome.bind_iff, allocEach, Outcome.bind_iff]
      exact (houtside r).mono (fun _ _ => False.elim) fun _ _ _ => trivial
  refine ⟨fun r w' hrun => ?_, fun w' hrun => ?_, fun count regs w' hrun => ?_⟩
  · rw [hrun] at hreg
    exact hreg.elim
  · have hbuffer := houtside RegSet.bufferReg
    rw [show alloc RegSet.bufferReg w = .ok () w' from hrun] at hbuffer
    exact hbuffer.elim
  · have hregs := hargs count
    simp_all

theorem allocatesFree_of_registers (h : w.Registers) : w.AllocatesFree := by
  by_cases hscopes : w.scopes = []
  · exact allocatesFree_outside hscopes
  refine ⟨fun r w' hrun => ?_, fun w' hrun => ?_, fun count regs w' hrun => ?_⟩
  · have hreg := h.allocReg hscopes
    rw [hrun] at hreg
    exact hreg.2.2
  · have hbuffer := h.allocBuffer hscopes
    rw [hrun] at hbuffer
    exact (hbuffer.fresh hscopes h).2 _ List.mem_cons_self
  · have hargs := h.allocArgs hscopes count
    rw [hrun] at hargs
    exact hargs.2.1.fresh hscopes h

end CodeWriter

namespace Draft

variable {d d' : Draft} {index : Nat}

def allocatedOf (d : Draft) (i : Nat) : RegSet := (d.procedures[i]?.map (·.writer.allocated)).getD RegSet.empty

theorem Sound.has_allocatedOf (h : d.Sound) (i r : Nat) :
    (d.allocatedOf i).has r = true ↔ r ∈ (d.scopesOf i).flatten := by
  rw [allocatedOf, scopesOf]
  cases hp : d.procedures[i]? with
  | none => simp [RegSet.has, RegSet.empty]
  | some p => exact (h.procedures i p hp).registers.allocated r

/-- In every procedure, scopes and allocated registers are what they were. -/
structure Balanced (d d' : Draft) : Prop where
  scopes : ∀ i, d'.scopesOf i = d.scopesOf i
  allocated : ∀ i, d'.allocatedOf i = d.allocatedOf i

theorem Sound.balanced (h : d.Sound) (h' : d'.Sound) (hscopes : ∀ i, d'.scopesOf i = d.scopesOf i) : d.Balanced d' := by
  refine ⟨hscopes, fun i => RegSet.ext_has fun r => Bool.eq_iff_iff.2 ?_⟩
  rw [h.has_allocatedOf, h'.has_allocatedOf, hscopes]

theorem Sound.allocatedOf_eq_empty (h : d.Sound) {i : Nat} (hscopes : d.scopesOf i = []) :
    d.allocatedOf i = .empty := by
  refine RegSet.ext_has fun r => Bool.eq_iff_iff.2 ?_
  rw [h.has_allocatedOf, hscopes]
  simp [RegSet.has, RegSet.empty]

structure Keeps (d d' : Draft) : Prop where
  sound : d'.Sound
  current : d'.current = d.current
  size : d.procedures.size ≤ d'.procedures.size
  others : ∀ i, i ≠ d.current → d'.scopesOf i = d.scopesOf i

theorem Keeps.balanced (h : d.Sound) (hkeeps : d.Keeps d') (hscopes : d'.writer.scopes = d.writer.scopes) :
    d.Balanced d' := by
  refine h.balanced hkeeps.sound fun i => ?_
  by_cases hi : i = d.current
  · rw [hi, h.scopesOf_current, ← hkeeps.current, hkeeps.sound.scopesOf_current, hscopes]
  · exact hkeeps.others i hi

theorem Shed.keeps {scopes : List (List Nat)} (h : d.Shed scopes d') : d.Keeps d' :=
  ⟨h.sound, h.grown.current, h.grown.procedures_le, h.elsewhere.scopesOf⟩

theorem Keeps.trans {d'' : Draft} (h : d.Keeps d') (h' : d'.Keeps d'') : d.Keeps d'' :=
  ⟨h'.sound, h'.current.trans h.current, Nat.le_trans h.size h'.size,
    fun i hi => (h'.others i (h.current ▸ hi)).trans (h.others i hi)⟩

theorem Keeps.reported (h : d.Keeps d') (p : Diagnostic) : d.Keeps (d'.reported p) :=
  ⟨h.sound.retitled h.sound.current .., h.current, h.size, h.others⟩

def pushed (d : Draft) : Draft := d.setWriter { d.writer with scopes := [] :: d.writer.scopes }

theorem Sound.shed_pushed (h : d.Sound) : d.Shed ([] :: d.writer.scopes) d.pushed :=
  h.shed (show Rescoped d.writer _ _ from h.procedure.registers.push)

theorem Within.keeps {d0 : Draft} {j : Nat} (h : d0.Within j d) : d0.Keeps d :=
  ⟨h.ready.sound, h.grown.current, h.grown.procedures_le, h.others⟩

theorem Returned.keeps (h : d.Returned d') : d.Keeps d' :=
  ⟨h.sound, h.grown.current, h.grown.procedures_le, h.elsewhere.scopesOf⟩

end Draft

namespace Lowering

variable {α : Type} {P : Prop} {d : Draft}

/-- A step that minds its scopes: those around it stay. When it is done, the innermost one may hold more than before;
when it stops at a problem, scopes of its own may be left. -/
def Contained (act : Lowering α) (d : Draft) : Prop :=
  Outcome (fun _ d' => d.Keeps d' ∧ ∃ added, d'.writer.scopes = grow added d.writer.scopes)
    (fun stop d' => ∀ p, stop = .reject p →
      d.Keeps d' ∧ ∃ own added, d'.writer.scopes = own ++ grow added d.writer.scopes) (act d)

theorem Stops.contained {stop : Stop} {d' : Draft} (h : Stops P d stop d') (p : Diagnostic) (hp : stop = .reject p) :
    d.Keeps d' ∧ ∃ own added, d'.writer.scopes = own ++ grow added d.writer.scopes := by
  rw [hp] at h
  obtain ⟨k, hwithin⟩ := h
  obtain ⟨own, added, hscopes, -⟩ := hwithin.scopes
  exact ⟨hwithin.keeps, own, added, hscopes⟩

theorem scopes_of_inside {d' : Draft} (h : d.Inside [] 0 d') :
    ∃ added, d'.writer.scopes = grow added d.writer.scopes := by
  obtain ⟨own, added, hscopes, hlen⟩ := h.scopes
  grind

theorem Run.contained {act : Lowering α} {Q : α → Draft → Prop} (h : Run P d [] 0 Q (act d)) : Contained act d :=
  Outcome.mono h (fun _ _ hd' => ⟨hd'.1.keeps, scopes_of_inside hd'.1⟩) fun _ _ hstop => hstop.contained

theorem Run.returning_contained {act : Lowering Unit} {Q : Unit → Draft → Prop} (h : Run P d [] 0 Q (act d)) :
    Contained (do act; emitReturn) d := by
  refine Outcome.bind h (fun _ d1 hd1 => ?_) fun _ _ hstop => hstop.contained
  refine (emitReturn_outcome hd1.1.ready).mono (fun _ d2 hreturned => ?_) fun _ _ => False.elim
  obtain ⟨added, hscopes⟩ := scopes_of_inside hd1.1
  exact ⟨hd1.1.keeps.trans hreturned.keeps, added, hreturned.scopes.trans hscopes⟩

/-- A step in a scope of its own: the scope is taken away again, with all that the step left open. -/
theorem guarded_balanced {act : Lowering Unit} (span : Span) (h : d.Sound) (hact : Contained act d.pushed) :
    Outcome (fun _ d' => d.Keeps d' ∧ d.Balanced d')
      (fun stop d' => act d.pushed = .error stop d' ∧ ∃ defect, stop = .abort defect) (guarded span act d) := by
  have hpushed := h.shed_pushed
  rw [guarded, Outcome.bind_iff, numScopes_iff]
  change Outcome _ _ ((attempt act >>= _) d.pushed)
  rw [Outcome.bind_iff, attempt]
  revert hact
  rw [Contained]
  cases act d.pushed with
  | ok _ d1 =>
    rintro ⟨hkeeps, added, hscopes⟩
    rw [hpushed.scopes, grow_cons] at hscopes
    refine Outcome.bind (pop_outcome hkeeps.sound hscopes) (fun _ d2 hshed => ?_) fun _ _ => False.elim
    have hkeeps2 := (hpushed.keeps.trans hkeeps).trans hshed.keeps
    change Outcome _ _ ((if d2.writer.numScopes ≠ d.writer.numScopes
      then abort (.scopeImbalance d2.writer.numScopes d.writer.numScopes) else pure () : Lowering Unit) d2)
    rw [if_neg fun hne => hne (congrArg List.length hshed.scopes)]
    exact ⟨hkeeps2, hkeeps2.balanced h hshed.scopes⟩
  | error stop d1 =>
    cases stop with
    | abort defect => exact fun _ => ⟨rfl, defect, rfl⟩
    | reject p =>
      intro hstop
      obtain ⟨hkeeps, own, added, hscopes⟩ := hstop p rfl
      rw [hpushed.scopes, grow_cons, List.append_cons] at hscopes
      have hreported := (hpushed.keeps.trans hkeeps).reported (p.orAt span)
      refine (unwind_outcome hreported.sound hscopes).mono (fun _ d2 hshed => ?_) fun _ _ => False.elim
      have hkeeps2 := hreported.trans hshed.keeps
      exact ⟨hkeeps2, hkeeps2.balanced h hshed.scopes⟩

/-- Code that goes into another procedure leaves the scopes of that one and of all others as they are. -/
theorem inProcedure_balanced {act : Lowering α} {index : Nat} (h : d.Sound) (hindex : index < d.procedures.size)
    (hact : Contained act (d.entered index).pushed) :
    Outcome (fun _ d' => d'.Sound ∧ d'.current = d.current ∧ d.Balanced d')
      (fun stop d' => (d'.Sound ∧ d'.current = d.current ∧ d.Balanced d') ∨
        act (d.entered index).pushed = .error stop d' ∧ ∃ defect, stop = .abort defect) (inProcedure index act d) := by
  have hentered := h.entered hindex
  have hpushed := hentered.shed_pushed
  have hback : ∀ {d' : Draft}, (d.entered index).Keeps d' → d'.writer.scopes = (d.entered index).writer.scopes →
      (d'.entered d.current).Sound ∧ (d'.entered d.current).current = d.current ∧ d.Balanced (d'.entered d.current) := by
    intro d' hkeeps hscopes
    have hbalanced := hkeeps.balanced hentered hscopes
    have hcurrent := Nat.lt_of_lt_of_le h.current hkeeps.size
    exact ⟨hkeeps.sound.entered hcurrent, rfl, hbalanced.scopes, hbalanced.allocated⟩
  rw [inProcedure, Outcome.bind_iff, Outcome.get_iff]
  dsimp only
  rw [Outcome.bind_iff, Outcome.modify_iff, Outcome.bind_iff, numScopes_iff]
  change Outcome _ _ ((attempt act >>= _) (d.entered index).pushed)
  rw [Outcome.bind_iff, attempt]
  revert hact
  rw [Contained]
  cases act (d.entered index).pushed with
  | ok a d1 =>
    rintro ⟨hkeeps, added, hscopes⟩
    rw [hpushed.scopes, grow_cons] at hscopes
    refine Outcome.bind (pop_outcome hkeeps.sound hscopes) (fun _ d2 hshed => ?_) fun _ _ => False.elim
    rw [Outcome.bind_iff, numScopes_iff, if_neg fun hne => hne (congrArg List.length hshed.scopes)]
    exact hback ((hpushed.keeps.trans hkeeps).trans hshed.keeps) hshed.scopes
  | error stop d1 =>
    cases stop with
    | abort defect => exact fun _ => .inr ⟨rfl, defect, rfl⟩
    | reject p =>
      intro hstop
      obtain ⟨hkeeps, own, added, hscopes⟩ := hstop p rfl
      rw [hpushed.scopes, grow_cons, List.append_cons] at hscopes
      refine Outcome.bind (unwind_outcome hkeeps.sound hscopes) (fun _ d2 hshed => ?_) fun _ _ => False.elim
      exact .inl (hback ((hpushed.keeps.trans hkeeps).trans hshed.keeps) hshed.scopes)

theorem lowerExpr_contained (h : d.Ready) (hne : d.writer.scopes ≠ []) (e : Expr) : Contained (lowerExpr e) d :=
  Run.contained ((lowerExpr_sound (P := False) e False.elim).value d h hne)

theorem lowerStmts_contained (h : d.Ready) (hlevel : d.atTopLevel = false) (stmts : List Stmt) :
    Contained (lowerStmts stmts) d ∧ Contained (do lowerStmts stmts; emitReturn) d := by
  have hrun := lowerStmts_branch (P := False) stmts False.elim d h hlevel
  exact ⟨hrun.contained, hrun.returning_contained⟩

/-- A step returns with all scopes and registers as they were, or it stops at something that is too large. -/
def Restores (d : Draft) (r : EStateM.Result Stop Draft Unit) : Prop :=
  Outcome (fun _ d' => d'.Ready ∧ d.Balanced d')
    (fun stop _ => ∃ defect, stop = .abort defect ∧ defect.concernsRegisters = false) r

theorem lowerStmt_restores (h : d.Ready) (s : Stmt) (hwait : d.atTopLevel = true → d.Awaiting s) :
    Restores d (lowerStmt s d) := by
  refine Outcome.mono (lowerStmt_completes (P := False) s False.elim d h hwait) ?_ ?_
  · rintro _ d' ⟨hback, -⟩
    exact ⟨hback.1.ready, h.sound.balanced hback.1.ready.sound (Completes.scopesOf_eq h.sound hback)⟩
  · rintro stop d' ⟨⟨defect, rfl, hlimit⟩, -⟩
    exact ⟨defect, rfl, hlimit.not_concernsRegisters⟩

def upTo (script front : List Stmt) : Lowering Unit := do
  declareFunctions script
  let roles ← declareVariables [] script
  addRoles roles
  lowerTopLevel front
  modify ({ · with topLevel := true })

def behind (rest : List Stmt) : Lowering Unit := do
  lowerTopLevel rest
  modify ({ · with topLevel := false })
  emitReturn
  dispatchers

theorem lowerTopLevel_append (front rest : List Stmt) :
    lowerTopLevel (front ++ rest) = (do lowerTopLevel front; lowerTopLevel rest) := by
  induction front with
  | nil => rfl
  | cons s front ih => simp only [List.cons_append, lowerTopLevel, ih, bind_assoc]

theorem lowerScript_split {script front rest : List Stmt} {s : Stmt} (h : script = front ++ s :: rest) :
    lowerScript script = (do upTo script front; lowerStmt s; behind rest) := by
  rw [lowerScript, h, lowerTopLevel_append]
  simp only [upTo, behind, lowerTopLevel, bind_assoc]

/-- Statements at the top level are lowered from drafts in which no register is allocated. -/
theorem upTo_outcome {c : Catalog} {o : CompileOptions} {script front rest : List Stmt} {s : Stmt} (hscript : script = front ++ s :: rest) :
    Outcome (fun _ d => d.Ready ∧ d.Awaiting s ∧ ∀ i, d.scopesOf i = [] ∧ d.allocatedOf i = .empty)
      (fun stop _ => ∃ defect, stop = .abort defect ∧ defect.concernsRegisters = false)
      (upTo script front (Draft.new c o)) := by
  rw [upTo]
  refine Outcome.bind (declareFunctions_outcome (declared_new c o)) (fun _ d1 hd1 => ?_) fun _ _ => False.elim
  refine Outcome.bind (declareVariables_outcome hd1 nofun) ?_ fun _ _ => False.elim
  rintro roles d2 ⟨hd2, hroles⟩
  refine Outcome.bind (addRoles_outcome hd2 hroles) (fun _ D hD => ?_) fun _ _ => False.elim
  rw [List.nil_append] at hD
  have hfront : ∀ t ∈ front, t ∈ script := fun t ht => hscript ▸ List.mem_append_left _ ht
  refine Outcome.bind (lowerTopLevel_outcome (P := False) False.elim hD hfront (hD.ready.leveled true).inside) ?_ ?_
  · rintro _ d3 ⟨hd3, -, -, hscopes⟩
    have hs : s ∈ script := hscript ▸ List.mem_append_right _ List.mem_cons_self
    refine ⟨hd3.ready, ((hD.awaiting hs).leveled true).mono hd3.toWithin, fun i => ?_⟩
    have hidle : (d3.leveled true).scopesOf i = [] := (hscopes i).trans (hD.scopesOf_eq i)
    exact ⟨hidle, hd3.ready.sound.allocatedOf_eq_empty hidle⟩
  · rintro stop d' ⟨⟨defect, rfl, hlimit⟩, -⟩
    exact ⟨defect, rfl, hlimit.not_concernsRegisters⟩

theorem wholeScript_balanced (c : Catalog) (o : CompileOptions) (script : List Stmt) :
    Outcome (fun _ d => ∀ i, d.scopesOf i = [] ∧ d.allocatedOf i = .empty)
      (fun stop _ => ∃ defect, stop = .abort defect ∧ defect.concernsRegisters = false)
      (wholeScript script (Draft.new c o)) := by
  refine Outcome.mono (wholeScript_outcome (P := False) False.elim) ?_ ?_
  · rintro _ d ⟨hwhole, -⟩ i
    exact ⟨hwhole.idle i, hwhole.sound.allocatedOf_eq_empty (hwhole.idle i)⟩
  · rintro stop d ⟨⟨defect, rfl, hlimit⟩, -⟩
    exact ⟨defect, rfl, hlimit.not_concernsRegisters⟩

end Lowering

open Lowering

/-- Register scopes balance. Whatever a new writer is called for, the allocated registers are those that stand in its
scopes, each of them once; what it allocates is free, and it frees nothing twice. A guarded step and code that goes into
another procedure put the scopes and the registers of every procedure back, whether they are done or stop at a problem,
as long as they mind their own scopes; all expressions, statements and bodies do. So every statement of every script
leaves scopes and registers as it found them, which is empty at the top level, and no defect of registers ever stops the
compiler. -/
theorem register_scopes_balance : (∀ (calls : List WriterCall) (w : CodeWriter), CodeWriter.new.Takes calls w →
      w.Registers ∧ w.AllocatesFree ∧
        ∀ (call : WriterCall) (r : Nat) (w' : CodeWriter), call.run w ≠ .error (.abort (.freedTwice r)) w') ∧
    (∀ (d : Draft) (span : Span) (act : Lowering Unit), d.Sound → Contained act d.pushed →
      Outcome (fun _ d' => d.Keeps d' ∧ d.Balanced d')
        (fun stop d' => act d.pushed = .error stop d' ∧ ∃ defect, stop = .abort defect) (guarded span act d)) ∧
    (∀ (d : Draft) (index : Nat) (act : Lowering Unit), d.Sound → index < d.procedures.size →
      Contained act (d.entered index).pushed →
      Outcome (fun _ d' => d'.Sound ∧ d'.current = d.current ∧ d.Balanced d')
        (fun stop d' => (d'.Sound ∧ d'.current = d.current ∧ d.Balanced d') ∨
          act (d.entered index).pushed = .error stop d' ∧ ∃ defect, stop = .abort defect) (inProcedure index act d)) ∧
    (∀ d : Draft, d.Ready → (∀ e, d.writer.scopes ≠ [] → Contained (lowerExpr e) d) ∧ (∀ stmts, d.atTopLevel = false →
        Contained (lowerStmts stmts) d ∧ Contained (do lowerStmts stmts; emitReturn) d) ∧
      ∀ s, (d.atTopLevel = true → d.Awaiting s) → Restores d (lowerStmt s d)) ∧
    ∀ (c : Catalog) (o : CompileOptions) (script : List Stmt), (∀ front s rest, script = front ++ s :: rest →
        lowerScript script = (do upTo script front; lowerStmt s; behind rest) ∧
        Outcome (fun _ d => (∀ i, d.scopesOf i = [] ∧ d.allocatedOf i = .empty) ∧ Restores d (lowerStmt s d))
          (fun stop _ => ∃ defect, stop = .abort defect ∧ defect.concernsRegisters = false)
          (upTo script front (Draft.new c o))) ∧
      Outcome (fun _ d => ∀ i, d.scopesOf i = [] ∧ d.allocatedOf i = .empty)
        (fun stop _ => ∃ defect, stop = .abort defect ∧ defect.concernsRegisters = false)
        (wholeScript script (Draft.new c o)) ∧
      ∀ defect, defect.concernsRegisters = true → draftOf c o script ≠ .error (.abort defect) := by
  refine ⟨fun calls w hcalls => ?_, fun d span act h hact => guarded_balanced span h hact,
    fun d index act h hindex hact => inProcedure_balanced h hindex hact, fun d h => ?_, fun c o script => ⟨?_, ?_, ?_⟩⟩
  · have hw := hcalls.registers registers_new
    refine ⟨hw, allocatesFree_of_registers hw, fun call r w' hrun => ?_⟩
    have hcall := (inOrder_run call).ends w hw
    rw [hrun] at hcall
    exact hcall r rfl
  · exact ⟨fun e hne => lowerExpr_contained h hne e, fun stmts hlevel => lowerStmts_contained h hlevel stmts,
      fun s hwait => lowerStmt_restores h s hwait⟩
  · intro front s rest hscript
    refine ⟨lowerScript_split hscript, (upTo_outcome hscript).imp fun _ d hd => ⟨hd.2.2, ?_⟩⟩
    exact lowerStmt_restores hd.1 s fun _ => hd.2.1
  · exact wholeScript_balanced c o script
  · intro defect hregs herror
    rcases Draft.draftOf_cases c o script False.elim with ⟨d, hd, -⟩ | ⟨other, hd, hlimit, -⟩
    · rw [herror] at hd
      cases hd
    · rw [herror] at hd
      cases hd
      rw [hlimit.not_concernsRegisters] at hregs
      cases hregs

/-- `var x`, a sum that stops in the middle because a name is unknown, and a sum that is fine. -/
def stumblingScript : List Stmt :=
  let x : Expr := .ident ⟨"x", {}⟩
  [.var {} .var [.mk ⟨"x", {}⟩ none {}],
    .expr {} (.binary {} .add (.binary {} .add x x) (.binary {} .mul x (.ident ⟨"nowhere", {}⟩))),
    .expr {} (.assign {} x (.binary {} .add x x))]

theorem register_scopes_balance_stumbling :
    (∃ d, wholeScript stumblingScript (Draft.new Catalog.builtin {}) = .ok () d ∧ d.findings.count = 1 ∧
      ∀ i, d.scopesOf i = [] ∧ d.allocatedOf i = .empty) ∧
    ∃ w, CodeWriter.new.Takes [.push, .allocReg, .push, .allocReg, .allocReg, .popExcept (some 14)] w ∧
      w.scopes = [[15, 14]] ∧ w.Registers ∧ w.AllocatesFree := by
  obtain ⟨d, hd, hproblems⟩ : ∃ d, wholeScript stumblingScript (Draft.new Catalog.builtin {}) = .ok () d ∧
      d.findings.count = 1 := by
    have hrun : (match wholeScript stumblingScript (Draft.new Catalog.builtin {}) with
      | .ok () d => d.findings.count == 1
      | .error _ _ => false) = true := by decide +kernel
    split at hrun
    · next d hd => exact ⟨d, hd, beq_iff_eq.1 hrun⟩
    · cases hrun
  have hwhole := (register_scopes_balance.2.2.2.2 Catalog.builtin {} stumblingScript).2.1
  rw [hd] at hwhole
  have hcalls : ∃ w, CodeWriter.new.Takes [.push, .allocReg, .push, .allocReg, .allocReg, .popExcept (some 14)] w ∧
      w.scopes = [[15, 14]] :=
    ⟨_, .returned rfl (.returned rfl (.returned rfl (.returned rfl (.returned rfl (.returned rfl (.nil _)))))), rfl⟩
  obtain ⟨w, htakes, hscopes⟩ := hcalls
  obtain ⟨hregs, hfree, -⟩ := register_scopes_balance.1 _ w htakes
  exact ⟨⟨d, hd, hproblems, hwhole⟩, w, htakes, hscopes, hregs, hfree⟩

end BusScript
