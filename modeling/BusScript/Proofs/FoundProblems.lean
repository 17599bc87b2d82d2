import BusScript.Draft.Compiled
import BusScript.Proofs.Outcome

namespace BusScript

/-! ### Steps under other options -/

def Findings.addAll (limit : Nat) (found : Findings) (ps : List Diagnostic) : Findings :=
  ps.foldl (Findings.add limit) found

theorem Findings.addAll_append (limit : Nat) (found : Findings) (ps qs : List Diagnostic) :
    found.addAll limit (ps ++ qs) = (found.addAll limit ps).addAll limit qs := List.foldl_append

theorem Findings.count_addAll (limit : Nat) (found : Findings) (ps : List Diagnostic) :
    (found.addAll limit ps).count = found.count + ps.length := by
  induction ps generalizing found with
  | nil => rfl
  | cons p rest ih =>
    change ((found.add limit p).addAll limit rest).count = _
    rw [ih, List.length_cons, Nat.add_comm rest.length, ← Nat.add_assoc]
    rfl

def Draft.under (d : Draft) (options : CompileOptions) (findings : Findings) : Draft :=
  { d with options, findings }

/-- The options are the same, and what was found stays found. -/
structure Draft.Recalled (d d' : Draft) : Prop where
  options : d'.options = d.options
  findings : d.findings.count ≤ d'.findings.count

theorem Draft.Recalled.clean {d d' : Draft} (h : d.Recalled d') (hclean : d'.findings.count = 0) :
    d.findings.count = 0 := Nat.le_zero.1 (hclean ▸ h.findings)

theorem Draft.roleName_under (d : Draft) (options : CompileOptions) (found : Findings) (role : Nat) :
    (d.under options found).roleName role = d.roleName role := rfl

variable {α β : Type}

namespace Lowering

def resultUnder (options : CompileOptions) (found : Findings) :
    EStateM.Result Stop Draft α → EStateM.Result Stop Draft α
  | .ok a d => .ok a (d.under options found)
  | .error stop d => .error stop (d.under options found)

/-- Options and earlier problems have no say in what `act` does and in which problems it finds. -/
class Fair (act : Lowering α) : Prop where
  same : ∀ d, ∃ ps, ∀ options found, act (d.under options found) =
    resultUnder options (found.addAll options.maxErrors ps) (act d)

end Lowering

class Part.Fair (p : Part) : Prop where
  value : p.value.Fair
  body : p.body.Fair

class CallSite.Fair (call : CallSite) : Prop where
  args : ∀ p ∈ call.args, p.Fair

-- The longest rows of steps take more instances than the default allows.
set_option synthInstance.maxSize 100000

namespace Lowering

/-! Most steps are put together from others without looking at the draft; for these, the class finds the proof. -/

namespace Fair

variable {act : Lowering α} {f : α → Lowering β}

instance pure (a : α) : Fair (Pure.pure a) := ⟨fun _ => ⟨[], fun _ _ => rfl⟩⟩

instance throw (stop : Stop) : Fair (MonadExcept.throw stop : Lowering α) :=
  ⟨fun _ => ⟨[], fun _ _ => rfl⟩⟩

theorem bind (h : Fair act) (hf : ∀ a, Fair (f a)) : Fair (act >>= f) := by
  refine ⟨fun d => ?_⟩
  obtain ⟨ps, hps⟩ := h.same d
  cases hact : act d with
  | error stop d' =>
    refine ⟨ps, fun options found => ?_⟩
    simp only [Bind.bind, EStateM.bind, hps, hact, resultUnder]
  | ok a d' =>
    obtain ⟨qs, hqs⟩ := (hf a).same d'
    refine ⟨ps ++ qs, fun options found => ?_⟩
    simp only [Bind.bind, EStateM.bind, hps, hact, resultUnder, hqs, Findings.addAll_append]

instance [h : Fair act] [hf : ∀ a, Fair (f a)] : Fair (act >>= f) := h.bind hf

/-- What is read must not be the options or the problems. -/
theorem read {f : Draft → Lowering β} (hf : ∀ d, Fair (f d))
    (hsame : ∀ d options found, f (d.under options found) = f d) : Fair (get >>= f) := by
  refine ⟨fun d => ?_⟩
  obtain ⟨ps, hps⟩ := (hf d).same d
  refine ⟨ps, fun options found => ?_⟩
  rw [get_bind_apply, get_bind_apply, hsame, hps]

theorem modify {g : Draft → Draft}
    (hg : ∀ d options found, g (d.under options found) = (g d).under options found) :
    Fair (modify g) :=
  ⟨fun d => ⟨[], fun options found => congrArg (EStateM.Result.ok _) (hg d options found)⟩⟩

instance (act : Writing α) : Fair (liftM act : Lowering α) := by
  refine ⟨fun d => ⟨[], fun options found => ?_⟩⟩
  change write act _ = resultUnder _ _ (write act d)
  have hwriter : (d.under options found).writer = d.writer := rfl
  rw [write, write, hwriter]
  cases act d.writer <;> rfl

instance located [h : Fair act] (span : Span) : Fair (located span act) := by
  refine ⟨fun d => ?_⟩
  obtain ⟨ps, hps⟩ := h.same d
  refine ⟨ps, fun options found => ?_⟩
  rw [Lowering.located, Lowering.located, hps]
  cases act d <;> rfl

instance attempt [h : Fair act] : Fair (attempt act) := by
  refine ⟨fun d => ?_⟩
  obtain ⟨ps, hps⟩ := h.same d
  refine ⟨ps, fun options found => ?_⟩
  rw [Lowering.attempt, Lowering.attempt, hps]
  rcases act d with ⟨a, d'⟩ | ⟨_ | _, d'⟩ <;> rfl

instance {c : Prop} [Decidable c] {other : Lowering α} [h : Fair act] [h' : Fair other] :
    Fair (if c then act else other) := by
  split
  · exact h
  · exact h'

instance discard [h : Fair act] : Fair (discard act) := by
  refine ⟨fun d => ?_⟩
  obtain ⟨ps, hps⟩ := h.same d
  refine ⟨ps, fun options found => ?_⟩
  simp only [Functor.discard, Functor.mapConst, EStateM.map, Function.comp, hps]
  cases act d <;> rfl

theorem recalled (h : Fair act) (d : Draft) :
    Outcome (fun _ => d.Recalled) (fun _ => d.Recalled) (act d) := by
  obtain ⟨ps, hps⟩ := h.same d
  have hsame := hps d.options d.findings
  have hcount : d.findings.count ≤ (d.findings.addAll d.options.maxErrors ps).count := by
    rw [Findings.count_addAll]
    exact Nat.le_add_right _ _
  change act d = _ at hsame
  rw [hsame]
  cases act d <;> exact ⟨rfl, hcount⟩

/-- A problem that was reported is there when all is done. -/
theorem reported (h : Fair act) (p : Diagnostic) (d : Draft) :
    Outcome (fun _ d' => d'.findings.count ≠ 0) (fun _ _ => True) ((report p >>= fun _ => act) d) :=
  (h.recalled (d.reported p)).mono (fun _ _ hd' hnone => Nat.succ_ne_zero _ (hd'.clean hnone))
    fun _ _ _ => trivial

end Fair

instance (p : Diagnostic) : Fair (report p) := ⟨fun _ => ⟨[p], fun _ _ => rfl⟩⟩

instance (defect : Defect) : Fair (abort defect : Lowering α) := .throw _

instance (problem : Problem) : Fair (reject problem : Lowering α) := .throw _

instance (span : Span) (problem : Problem) : Fair (rejectAt span problem : Lowering α) := .throw _

instance (result : Except Diagnostic α) : Fair (ofExcept result) := by
  cases result <;> (unfold ofExcept; infer_instance)

instance (current : Nat) : Fair (modify ({ · with current }) : Lowering Unit) :=
  .modify fun _ _ _ => rfl

instance (topLevel : Bool) : Fair (modify ({ · with topLevel }) : Lowering Unit) :=
  .modify fun _ _ _ => rfl

instance (f : Procedure → Procedure) : Fair (modify (·.modifyProcedure f) : Lowering Unit) :=
  .modify fun _ _ _ => rfl

instance (role : Nat) (f : RoleEntry → RoleEntry) : Fair (modify (·.modifyRole role f) : Lowering Unit) :=
  .modify fun _ _ _ => rfl

instance : Fair numScopes := .read (fun _ => inferInstance) fun _ _ _ => rfl

instance (n : Nat) : Fair (popScopes n) := by
  induction n <;> (unfold popScopes; infer_instance)

instance (depth : Nat) : Fair (unwind depth) := by unfold unwind; infer_instance

instance (act : Lowering Unit) [Fair act] : Fair (reporting act) := by
  refine .bind inferInstance fun result => ?_
  cases result <;> infer_instance

instance (span : Span) (act : Lowering Unit) [Fair act] : Fair (guarded span act) := by
  refine .bind inferInstance fun depth => .bind inferInstance fun _ => .bind inferInstance fun result => ?_
  cases result <;> infer_instance

instance (span : Span) (act : Lowering Unit) [Fair act] : Fair (statement span act) :=
  .read (fun _ => inferInstance) fun _ _ _ => rfl

instance (name : String) (numParams : Nat) : Fair (addProcedure name numParams) :=
  .read (fun _ => .bind (.modify fun _ _ _ => rfl) inferInstance) fun _ _ _ => rfl

instance (index : Nat) (act : Lowering α) [Fair act] : Fair (inProcedure index act) := by
  refine .read (fun d => .bind inferInstance fun _ => .bind inferInstance fun depth => .bind inferInstance fun _ =>
    .bind inferInstance fun result => ?_) fun _ _ _ => rfl
  cases result with
  | ok a =>
    refine .bind inferInstance fun _ => .bind inferInstance fun found => ?_
    split
    · exact .read (fun _ => inferInstance) fun _ _ _ => rfl
    · infer_instance
  | error p => infer_instance

instance (act : Lowering α) [Fair act] : Fair (nested act) :=
  .read (fun _ => inferInstance) fun _ _ _ => rfl

instance (construct : String) : Fair (requireTopLevel construct) :=
  .read (fun _ => inferInstance) fun _ _ _ => rfl

instance (id : Ident) : Fair (requireFree id) := .read (fun _ => inferInstance) fun _ _ _ => rfl

instance (id : Ident) : Fair (variableNamed id) := by
  refine .read (fun d => ?_) fun _ _ _ => rfl
  split <;> infer_instance

instance (name : String) : Fair (addLocal name) := .read (fun _ => inferInstance) fun _ _ _ => rfl

instance (name : String) : Fair (addHiddenLocal name) := .read (fun _ => inferInstance) fun _ _ _ => rfl

instance (name : String) : Fair (addGlobal name) :=
  .read (fun _ => .bind (.modify fun _ _ _ => rfl) inferInstance) fun _ _ _ => rfl

/-! ### Operands -/

instance (x : Number) : Fair (floatLiteral x) := by
  refine .read (fun d => ?_) fun _ _ _ => rfl
  dsimp only
  split
  · infer_instance
  · exact .bind (.modify fun _ _ _ => rfl) inferInstance

instance (s : String) : Fair (stringLiteral s) := by
  refine .read (fun d => ?_) fun _ _ _ => rfl
  dsimp only
  split
  · infer_instance
  · exact .bind (.modify fun _ _ _ => rfl) inferInstance

instance (dst : Nat) (x : Number) : Fair (loadFloat dst x) := by unfold loadFloat; infer_instance

instance (dst : Nat) (v : Value) : Fair (loadValue dst v) := by
  cases v <;> (unfold loadValue; infer_instance)

instance (v : Value) : Fair (forceReg v) := by cases v <;> (unfold forceReg; infer_instance)

instance (dst src : Value) : Fair (assign dst src) := by
  cases dst <;> cases src <;> (unfold assign; infer_instance)

section

variable (p q : Part) [hp : p.Fair] [hq : q.Fair] (ps : List Part) (call : CallSite) [hcall : call.Fair]

instance : Fair p.value := hp.value

instance : Fair p.body := hp.body

instance : Fair (inReg p) := by unfold inReg; infer_instance

instance : Fair (number p) := by unfold number; infer_instance

variable {ps} in
theorem fair_numbers (h : ∀ p ∈ ps, p.Fair) : Fair (numbers ps) := by
  induction ps with
  | nil => exact .pure _
  | cons p rest ih =>
    obtain ⟨hp, hrest⟩ := List.forall_mem_cons.1 h
    have hnumbers := ih hrest
    unfold numbers
    infer_instance

instance (pairs : List (Nat × Value)) : Fair (loadValues pairs) := by
  induction pairs <;> (unfold loadValues; infer_instance)

instance (values : List Value) : Fair (passValues values) := by unfold passValues; infer_instance

instance (field : FieldSpec) : Fair (bufferCell field) := by
  unfold bufferCell
  split <;> infer_instance

instance (dst : Nat) (field : FieldSpec) (offset : Nat) : Fair (loadField dst field offset) := by
  unfold loadField; infer_instance

instance (src : Nat) (field : FieldSpec) (offset : Nat) : Fair (storeField src field offset) := by
  unfold storeField; infer_instance

instance (s : String) : Fair (loadText s) := by unfold loadText; infer_instance

/-! ### Arithmetic -/

instance (op : UnaryOp) : Fair (applyUnary op p) := by unfold applyUnary; infer_instance

variable {ps} in
theorem fair_applyMath (h : ∀ p ∈ ps, p.Fair) (op : SyncOp) (code : Nat) (first last : Option Number) :
    Fair (applyMath op code first ps last) := by
  have hnumbers := fair_numbers h
  unfold applyMath
  infer_instance

variable {ps} in
theorem fair_applyFunction (h : ∀ p ∈ ps, p.Fair) (f : Math.Function) : Fair (applyFunction f ps) := by
  have hprimitive : Fair (applyPrimitive f ps) := by
    unfold applyPrimitive
    split
    · split
      · next p rest =>
        have hp := h p List.mem_cons_self
        infer_instance
      · infer_instance
    · exact fair_applyMath h _ _ _ _
    · exact fair_applyMath h _ _ _ _
  refine .bind hprimitive fun r => ?_
  split <;> infer_instance

/-! ### Roles -/

instance (name : String) (call : CallSite) (expected : Nat) : Fair (requireArgs name call expected) := by
  unfold requireArgs; infer_instance

instance (name : String) (call : CallSite) : Fair (noArgs name call) := by unfold noArgs; infer_instance

theorem fair_oneArg_bind {f : Part → Lowering β} (hf : ∀ p, p.Fair → Fair (f p)) (name : String) :
    Fair (oneArg name call >>= f) := by
  unfold oneArg
  split
  · next p hargs => exact hf p (hcall.args p (hargs ▸ List.mem_singleton_self p))
  · exact .throw _

theorem fair_twoArgs_bind {f : Part × Part → Lowering β} (hf : ∀ p q, q.Fair → Fair (f (p, q)))
    (name : String) : Fair (twoArgs name call >>= f) := by
  unfold twoArgs
  split
  · next p q hargs => exact hf p q (hcall.args q (by simp [hargs]))
  · exact .throw _

instance (p : Part) : Fair (literalNumber p) := by
  unfold literalNumber
  split <;> infer_instance

instance (p : Part) : Fair (literalString p) := by
  unfold literalString
  split <;> infer_instance

instance (ms : UInt32) : Fair (emitPause ms) := by unfold emitPause; infer_instance

instance (role : Nat) (member : Ident) : Fair (unknownMember role member : Lowering α) :=
  .read (fun _ => inferInstance) fun _ _ _ => rfl

instance (role : Nat) : Fair (roleEntry role) := by
  refine .read (fun d => ?_) fun _ _ _ => rfl
  split <;> infer_instance

instance (role : Nat) (member : Ident) : Fair (packetNamed role member) := by
  refine .bind inferInstance fun entry => .read (fun d => ?_) fun _ _ _ => rfl
  split <;> infer_instance

instance (role : Nat) (member : Ident) : Fair (roleMember role member) := by
  refine .bind inferInstance fun packet => ?_
  split <;> infer_instance

instance (role : Nat) (packet : PacketSpec) : Fair (emitQuery role packet) := by
  unfold emitQuery; infer_instance

instance (role : Nat) (packet : PacketSpec) (field : FieldSpec) (offset : Nat) :
    Fair (readField role packet field offset) := by unfold readField; infer_instance

instance (role : Nat) (packet : PacketSpec) (span : Span) : Fair (readRegister role packet span) := by
  unfold readRegister
  split <;> infer_instance

instance (role : Nat) (packet : PacketSpec) (member : Ident) : Fair (readMember role packet member) := by
  unfold readMember
  split <;> infer_instance

instance (offset : Nat) (fields : List (Value × FieldSpec)) : Fair (storeFields offset fields) := by
  induction fields generalizing offset <;> (unfold storeFields; infer_instance)

instance (role : Nat) (packet : PacketSpec) (code : UInt16) : Fair (send role packet code call) := by
  have hnumbers := fair_numbers hcall.args
  unfold send
  infer_instance

instance (role : Nat) : Fair (loadConnected role) := by unfold loadConnected; infer_instance

instance (special : SpecialValue) (code : UInt16) : Fair (checkCode special code) := by
  unfold checkCode; infer_instance

instance (role : Nat) (code : UInt16) : Fair (waitEvent role code) := by unfold waitEvent; infer_instance

instance : Fair emitReturn := by unfold emitReturn; infer_instance

instance (name : String) (every : Option UInt32) : Fair (handler name every p) := by
  unfold handler
  split
  · infer_instance
  · infer_instance
  · cases every <;> infer_instance

instance (role : Nat) : Fair (dispatcherOf role) := by
  refine .bind inferInstance fun entry => ?_
  split <;> infer_instance

instance (role : Nat) (add : Dispatcher → Dispatcher) : Fair (subscribe role add) := by
  unfold subscribe; infer_instance

instance (role : Nat) (packet : PacketSpec) : Fair (onEvent role packet call) :=
  .bind inferInstance fun _ => fair_oneArg_bind call (fun _ _ => .read (fun _ => inferInstance)
    fun _ _ _ => by rw [Draft.roleName_under]) _

instance (role : Nat) (packet : PacketSpec) : Fair (onChange role packet call) := by
  refine .bind inferInstance fun _ => fair_twoArgs_bind call (fun limit p hp => ?_) _
  have hrest (threshold : Number) : Fair (do
      let name := (← get).roleName role
      let index ← handler s!"{name}_{packet.name}_change" none p
      modify (·.modifyRole role (·.refresh packet))
      subscribe role fun d => { d with watches := d.watches ++ [⟨packet, threshold, index⟩] }) :=
    .read (fun _ => inferInstance) fun _ _ _ => by rw [Draft.roleName_under]
  infer_instance

instance (role : Nat) (member : Ident) (add : Nat → Dispatcher → Dispatcher) :
    Fair (onConnection role member call add) :=
  .bind inferInstance fun _ => fair_oneArg_bind call (fun _ _ => .read (fun _ => inferInstance)
    fun _ _ _ => by rw [Draft.roleName_under]) _

instance (act : Lowering Unit) [Fair act] : Fair (noResult act) := by unfold noResult; infer_instance

instance (role : Nat) (member : Ident) : Fair (callRoleMethod role member call) := by
  refine .bind inferInstance fun entry => ?_
  split
  · infer_instance
  · infer_instance
  · infer_instance
  · split
    · refine .bind inferInstance fun _ => .read (fun d => ?_) fun _ _ _ => rfl
      split <;> infer_instance
    · refine .bind inferInstance fun v => ?_
      split <;> infer_instance

instance (v : Value) (member : Ident) : Fair (callMethod v member call) := by
  rw [callMethod.eq_def]
  dsimp only
  split
  · infer_instance
  all_goals try split
  all_goals infer_instance

/-! ### Calls -/

instance : Fair (callWait call) := fair_oneArg_bind call (fun _ _ => inferInstance) _

instance : Fair (callEvery call) :=
  .bind inferInstance fun _ => fair_twoArgs_bind call (fun _ _ _ => inferInstance) _

instance : Fair (callUpload call) := by
  have hargs := hcall.args
  unfold callUpload
  split
  · infer_instance
  · next label rest heq =>
    rw [heq, List.forall_mem_cons] at hargs
    have hrest : Fair (passArgs rest) := .bind (fair_numbers hargs.2) inferInstance
    infer_instance

instance (name : String) : Fair (passTemplate name call) := by
  have hargs := hcall.args
  unfold passTemplate
  split
  · infer_instance
  · next template rest heq =>
    rw [heq, List.forall_mem_cons] at hargs
    have hrest : Fair (passArgs rest) := .bind (fair_numbers hargs.2) inferInstance
    infer_instance

instance : Fair (callPrint call) := by unfold callPrint; infer_instance

instance : Fair (callFormat call) := by unfold callFormat; infer_instance

instance : Fair (callPanic call) := fair_oneArg_bind call (fun _ _ => inferInstance) _

instance : Fair (callReboot call) := by unfold callReboot; infer_instance

instance (index : Nat) : Fair (callDeclared index call) := by
  have hargs : Fair (passArgs call.args) := .bind (fair_numbers hcall.args) inferInstance
  refine .read (fun d => ?_) fun _ _ _ => rfl
  split <;> infer_instance

instance (id : Ident) : Fair (callNamed id call) := by
  refine .read (fun d => ?_) fun _ _ _ => rfl
  split <;> infer_instance

instance (id : Ident) : Fair (callFunction id call) := by
  unfold callFunction
  split
  all_goals try infer_instance
  exact fair_oneArg_bind call (fun _ _ => inferInstance) _

instance (name : String) : Fair (callMath name call) := by
  have hfunction (f : Math.Function) := fair_applyFunction hcall.args f
  unfold callMath
  split <;> infer_instance

instance (member : Ident) : Fair (callMember p member call) := by
  unfold callMember
  split
  · infer_instance
  · exact .read (fun _ => inferInstance) fun _ _ _ => rfl

/-! ### Expressions -/

instance (value : Literal) : Fair (literal value) := by cases value <;> (unfold literal; infer_instance)

instance (id : Ident) : Fair (identifier id) := by
  refine .read (fun d => ?_) fun _ _ _ => rfl
  split
  · infer_instance
  · split <;> infer_instance

instance (op : Sign) : Fair (unary op p) := by
  unfold unary
  split <;> infer_instance

instance (op : Operator) : Fair (binary op p q) := by
  have hpow : Fair (applyPow p q) :=
    fair_applyMath (List.forall_mem_cons.2 ⟨hp, List.forall_mem_singleton.2 hq⟩) _ _ _ _
  unfold binary
  split <;> infer_instance

instance (tmp offset : Nat) (targets : List (Expr × FieldSpec)) : Fair (assignEach tmp offset targets) := by
  induction targets generalizing offset with
  | nil => exact .pure _
  | cons pair rest ih =>
    unfold assignEach
    split <;> infer_instance

instance (id : Ident) : Fair (assignVariable id p) := by unfold assignVariable; infer_instance

instance (span : Span) (targets : List Expr) : Fair (assignFields span targets p) := by
  refine .bind inferInstance fun v => ?_
  split <;> infer_instance

instance (target : Expr) : Fair (assignTo target p) := by
  cases target <;> (unfold assignTo; infer_instance)

instance (name : Ident) : Fair (member p name) := by
  unfold member
  split
  · split <;> infer_instance
  · refine .bind inferInstance fun v => ?_
    cases v <;> infer_instance

/-! ### Statements -/

instance (id : Ident) : Fair (declaredVariable? id) := .read (fun _ => inferInstance) fun _ _ _ => rfl

instance (id : Ident) (span : Span) : Fair (declare id none span) := by
  refine .read (fun d => .bind inferInstance fun v => ?_) fun _ _ _ => rfl
  cases v <;> exact .pure _

instance (id : Ident) (span : Span) : Fair (declare id (some p) span) := by
  refine .read (fun d => ?_) fun _ _ _ => rfl
  split
  · infer_instance
  · refine .bind inferInstance fun v => ?_
    cases v <;> infer_instance

instance (branch : Lowering Unit) [Fair branch] : Fair (ifElse p branch none) := by
  unfold ifElse
  dsimp only [Option.getD_none]
  split <;> infer_instance

instance (branch other : Lowering Unit) [Fair branch] [Fair other] : Fair (ifElse p branch (some other)) := by
  unfold ifElse
  dsimp only [Option.getD_some]
  split <;> infer_instance

instance : Fair (returnResult none) := by unfold returnResult; infer_instance

instance : Fair (returnResult (some p)) := by unfold returnResult; infer_instance

instance (reg : Nat) (params : List Param) : Fair (spillParams reg params) := by
  induction params generalizing reg with
  | nil => exact .pure _
  | cons param rest ih => cases param <;> (unfold spillParams; infer_instance)

instance (span : Span) (head : FunctionHead) (body : Lowering Unit) [Fair body] :
    Fair (function span head body) := by
  have hmark (index : Nat) : Fair (modify fun d =>
      { d with functions := d.functions.modify index ({ · with isLowered := true }) } : Lowering Unit) :=
    .modify fun _ _ _ => rfl
  refine .bind inferInstance fun _ => ?_
  split
  · infer_instance
  · refine .read (fun d => ?_) fun _ _ _ => rfl
    dsimp only
    split
    · infer_instance
    · split <;> infer_instance

end

end Lowering

/-! ### Trees -/

open Lowering

mutual

theorem fair_lowerExpr (e : Expr) : Fair (lowerExpr e) := by
  cases e with
  | unary span op operand =>
    have hoperand := fair_lowerPart operand
    rw [lowerExpr]
    infer_instance
  | binary span op left right =>
    have hleft := fair_lowerPart left
    have hright := fair_lowerPart right
    rw [lowerExpr]
    infer_instance
  | assign span target value =>
    have hvalue := fair_lowerPart value
    rw [lowerExpr]
    infer_instance
  | call span callee args =>
    have hargs : CallSite.Fair ⟨span, lowerParts args⟩ := ⟨fair_lowerParts args⟩
    cases callee with
    | member span' object name =>
      have hobject := fair_lowerPart object
      rw [lowerExpr]
      infer_instance
    | _ =>
      simp only [lowerExpr]
      infer_instance
  | member span object name =>
    have hobject := fair_lowerPart object
    rw [lowerExpr]
    infer_instance
  | _ =>
    rw [lowerExpr]
    infer_instance

theorem fair_lowerBody (e : Expr) : Fair (lowerBody e) := by
  cases e with
  | arrow _ _ body =>
    rw [lowerBody]
    exact fair_lowerStmts body
  | arrowExpr span _ body =>
    have hbody := fair_lowerExpr body
    rw [lowerBody]
    infer_instance
  | _ =>
    simp only [lowerBody]
    exact .pure _

theorem fair_lowerPart (e : Expr) : Part.Fair ⟨e, lowerExpr e, lowerBody e⟩ :=
  ⟨fair_lowerExpr e, fair_lowerBody e⟩

theorem fair_lowerParts (es : List Expr) : ∀ p ∈ lowerParts es, p.Fair := by
  cases es with
  | nil =>
    rw [lowerParts]
    nofun
  | cons e rest =>
    rw [lowerParts]
    exact List.forall_mem_cons.2 ⟨fair_lowerPart e, fair_lowerParts rest⟩

theorem fair_lowerDeclarators (ds : List Declarator) : Fair (lowerDeclarators ds) := by
  cases ds with
  | nil =>
    rw [lowerDeclarators]
    exact .pure _
  | cons d rest =>
    obtain ⟨id, init, span⟩ := d
    have hrest := fair_lowerDeclarators rest
    cases init with
    | none =>
      rw [lowerDeclarators]
      infer_instance
    | some init =>
      have hinit := fair_lowerPart init
      rw [lowerDeclarators]
      infer_instance

theorem fair_lowerStmt (s : Stmt) : Fair (lowerStmt s) := by
  cases s with
  | var span kind declarators =>
    have hdeclarators := fair_lowerDeclarators declarators
    rw [lowerStmt]
    infer_instance
  | expr span value =>
    have hvalue := fair_lowerExpr value
    rw [lowerStmt]
    infer_instance
  | ifElse span c s t =>
    have hcondition := fair_lowerPart c
    have hthen := fair_lowerStmt s
    cases t with
    | none =>
      rw [lowerStmt]
      infer_instance
    | some t =>
      have helse := fair_lowerStmt t
      rw [lowerStmt]
      infer_instance
  | block span stmts =>
    have hstmts := fair_lowerStmts stmts
    rw [lowerStmt]
    infer_instance
  | ret span value =>
    cases value with
    | none =>
      rw [lowerStmt]
      infer_instance
    | some value =>
      have hvalue := fair_lowerPart value
      rw [lowerStmt]
      infer_instance
  | function span head body =>
    have hbody := fair_lowerStmts body
    rw [lowerStmt]
    infer_instance

theorem fair_lowerStmts (ss : List Stmt) : Fair (lowerStmts ss) := by
  cases ss with
  | nil =>
    rw [lowerStmts]
    exact .pure _
  | cons s rest =>
    rw [lowerStmts]
    exact .bind (fair_lowerStmt s) fun _ => fair_lowerStmts rest

end

namespace Lowering

/-! ### Dispatchers -/

instance (index : Nat) : Fair (startHandler index) := by unfold startHandler; infer_instance

instance (handlers : List Nat) : Fair (startHandlers handlers) := by
  induction handlers <;> (unfold startHandlers; infer_instance)

instance (role : Nat) : Fair (requestStreaming role) := by unfold requestStreaming; infer_instance

instance (role : Nat) (packet : PacketSpec) : Fair (requestRegister role packet) := by
  unfold requestRegister; infer_instance

instance (role : Nat) (service : ServiceSpec) (packets : List PacketSpec) :
    Fair (requestAll role service packets) := by
  induction packets <;> (unfold requestAll; infer_instance)

instance (role : Nat) (entry : RoleEntry) : Fair (refreshRole role entry) := by
  unfold refreshRole; infer_instance

instance (roles : List (RoleEntry × Nat)) : Fair (refreshRoles roles) := by
  induction roles <;> (unfold refreshRoles; infer_instance)

instance : Fair refreshLoop := .read (fun _ => inferInstance) fun _ _ _ => rfl

instance (role : Nat) (dispatcher : Dispatcher) : Fair (connectionPrologue role dispatcher) := by
  unfold connectionPrologue; infer_instance

instance (watches : List Watch) : Fair (watchSlots watches) := by
  induction watches <;> (unfold watchSlots; infer_instance)

instance (role slot : Nat) (dispatcher : Dispatcher) : Fair (checkConnection role slot dispatcher) := by
  unfold checkConnection; infer_instance

instance (events : List (UInt16 × Nat)) : Fair (checkEvents events) := by
  induction events <;> (unfold checkEvents; infer_instance)

instance (watch : Watch) (slot : Nat) (field : FieldSpec) : Fair (checkWatch watch slot field) := by
  unfold checkWatch; infer_instance

instance (slots : List (Watch × Nat)) : Fair (checkWatches slots) := by
  induction slots with
  | nil => exact .pure _
  | cons pair rest ih =>
    unfold checkWatches
    split <;> infer_instance

instance (role : Nat) (dispatcher : Dispatcher) (refresh : Option Nat) :
    Fair (dispatchLoop role dispatcher refresh) := by
  cases refresh <;> (unfold dispatchLoop; infer_instance)

instance (refresh : Option Nat) (roles : List (RoleEntry × Nat)) : Fair (lowerDispatchers refresh roles) := by
  induction roles with
  | nil => exact .pure _
  | cons pair rest ih =>
    unfold lowerDispatchers
    split <;> infer_instance

instance : Fair dispatchers := .read (fun _ => inferInstance) fun _ _ _ => rfl

/-! ### The whole script -/

instance (span : Span) (head : FunctionHead) : Fair (declareFunction span head) := by
  unfold declareFunction
  dsimp only
  split
  · exact .throw _
  · refine .bind inferInstance fun _ => ?_
    split
    · infer_instance
    · exact .bind inferInstance fun _ => .modify fun _ _ _ => rfl

instance (script : List Stmt) : Fair (declareFunctions script) := by
  induction script with
  | nil => exact .pure _
  | cons s rest ih =>
    cases s with
    | function span head body =>
      unfold declareFunctions
      infer_instance
    | _ => exact ih

instance (roles : List (String × ServiceSpec)) (declarator : Declarator) : Fair (declareGlobal roles declarator) := by
  obtain ⟨id, init, span⟩ := declarator
  refine .bind inferInstance fun _ => ?_
  dsimp only
  split
  · exact .throw _
  · refine .read (fun d => ?_) fun _ _ _ => rfl
    split <;> infer_instance

instance (roles : List (String × ServiceSpec)) (declarators : List Declarator) :
    Fair (declareGlobals roles declarators) := by
  induction declarators generalizing roles with
  | nil => exact .pure _
  | cons declarator rest ih =>
    refine .bind inferInstance fun result => ?_
    cases result <;> infer_instance

instance (roles : List (String × ServiceSpec)) (script : List Stmt) : Fair (declareVariables roles script) := by
  induction script generalizing roles with
  | nil => exact .pure _
  | cons s rest ih =>
    rw [declareVariables.eq_def]
    split
    · infer_instance
    · next heq => cases heq; infer_instance
    · next heq => cases heq; infer_instance

instance (script : List Stmt) : Fair (lowerTopLevel script) := by
  induction script with
  | nil => exact .pure _
  | cons s rest ih =>
    have hs := fair_lowerStmt s
    unfold lowerTopLevel
    infer_instance

instance (roles : List (String × ServiceSpec)) : Fair (addRoles roles) := .modify fun _ _ _ => rfl

instance (script : List Stmt) : Fair (lowerScript script) := by unfold lowerScript; infer_instance

instance (procedures : List Procedure) : Fair (checkSavedRegs procedures) := by
  induction procedures <;> (unfold checkSavedRegs; infer_instance)

end Lowering

end BusScript
