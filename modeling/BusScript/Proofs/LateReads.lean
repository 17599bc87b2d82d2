import BusScript.Proofs.WriterCalls
import BusScript.Proofs.Constants

namespace BusScript

/-- The name of the variable whose value an expression has: its own, or that behind an assignment. -/
def Expr.source? : Expr → Option String
  | .ident id => some id.name
  | .assign _ (.ident _) value => value.source?
  | _ => none

namespace Lowering

set_option synthInstance.maxSize 1000

/-- What `act` gives, if it gives a value, is not left to be read later. -/
class Settles (act : Lowering Value) : Prop where
  ne_cell : ∀ d v d' kind index, act d = .ok v d' → v ≠ .cell kind index

section

variable {α : Type} {act : Lowering Value}

theorem settles_pure {v : Value} (h : ∀ kind index, v ≠ .cell kind index) : Settles (pure v) := by
  constructor
  rintro d _ d' kind index ⟨⟩
  exact h kind index

instance (x : Number) : Settles (pure (.float x)) := settles_pure nofun

instance (r : Nat) : Settles (pure (.reg r)) := settles_pure nofun

instance : Settles (pure .buffer) := settles_pure nofun

instance (stop : Stop) : Settles (throw stop) := by
  constructor
  rintro d _ d' kind index ⟨⟩

instance (problem : Problem) : Settles (reject problem) := inferInstanceAs (Settles (throw _))

instance (span : Span) (problem : Problem) : Settles (rejectAt span problem) :=
  inferInstanceAs (Settles (throw _))

theorem settles_bind {x : Lowering α} {f : α → Lowering Value} (h : ∀ a, Settles (f a)) :
    Settles (x >>= f) := by
  constructor
  intro d v d' kind index hok
  obtain ⟨a, d₁, -, hok⟩ := exists_of_bind_ok hok
  exact (h a).ne_cell d₁ v d' kind index hok

instance {x : Lowering α} {f : α → Lowering Value} [h : ∀ a, Settles (f a)] : Settles (x >>= f) :=
  settles_bind h

instance (span : Span) [h : Settles act] : Settles (located span act) :=
  ⟨fun d v d' kind index hok => h.ne_cell d v d' kind index (eq_of_located hok)⟩

instance {c : Prop} [Decidable c] {other : Lowering Value} [Settles act] [Settles other] :
    Settles (if c then act else other) := by
  split <;> infer_instance

end

instance (act : Lowering Unit) : Settles (noResult act) := by unfold noResult; infer_instance

instance (value : Literal) : Settles (literal value) := by
  cases value <;> (unfold literal; try unfold loadText; infer_instance)

instance (op : Sign) (p : Part) : Settles (unary op p) := by
  unfold unary
  split <;> infer_instance

instance (op : Operator) (p q : Part) : Settles (binary op p q) := by
  unfold binary
  split <;> infer_instance

instance (call : CallSite) : Settles (callFormat call) := by unfold callFormat; infer_instance

instance (index : Nat) (call : CallSite) : Settles (callDeclared index call) := by
  refine settles_bind fun d => ?_
  split <;> infer_instance

instance (id : Ident) (call : CallSite) : Settles (callNamed id call) := by
  refine settles_bind fun d => ?_
  split <;> infer_instance

instance (id : Ident) (call : CallSite) : Settles (callFunction id call) := by
  unfold callFunction
  split <;> infer_instance

instance (name : String) (call : CallSite) : Settles (callMath name call) := by
  unfold callMath
  split <;> infer_instance

instance (role : Nat) (name : Ident) : Settles (unknownMember role name) := by
  unfold unknownMember; infer_instance

instance (role : Nat) (name : Ident) (call : CallSite) : Settles (callRoleMethod role name call) := by
  refine settles_bind fun entry => ?_
  split
  all_goals try infer_instance
  split
  · refine settles_bind fun _ => settles_bind fun d => ?_
    split <;> infer_instance
  · refine settles_bind fun v => ?_
    split <;> infer_instance

instance (role : Nat) (packet : PacketSpec) (field : FieldSpec) (offset : Nat) :
    Settles (readField role packet field offset) := by
  unfold readField; infer_instance

instance (role : Nat) (packet : PacketSpec) (span : Span) : Settles (readRegister role packet span) := by
  unfold readRegister
  split
  · infer_instance
  · infer_instance
  · exact settles_bind fun _ => settles_bind fun _ => settles_pure nofun

instance (role : Nat) (packet : PacketSpec) (name : Ident) : Settles (readMember role packet name) := by
  unfold readMember
  split <;> infer_instance

instance (v : Value) (name : Ident) (call : CallSite) : Settles (callMethod v name call) := by
  rw [callMethod.eq_def]
  dsimp only
  split
  · infer_instance
  · split <;> infer_instance
  · split <;> infer_instance
  · split
    · infer_instance
    · split <;> infer_instance
    · infer_instance
    · infer_instance
  · infer_instance

instance (p : Part) (name : Ident) (call : CallSite) : Settles (callMember p name call) := by
  unfold callMember
  infer_instance

instance (role : Nat) (name : Ident) : Settles (roleMember role name) := by
  refine settles_bind fun packet => ?_
  split <;> exact settles_pure nofun

instance (p : Part) (name : Ident) : Settles (member p name) := by
  unfold member
  split
  · split <;> infer_instance
  · refine settles_bind fun v => ?_
    cases v <;> infer_instance

instance (span : Span) (targets : List Expr) (p : Part) : Settles (assignFields span targets p) := by
  refine settles_bind fun v => ?_
  split <;> infer_instance

/-- Only variables, and assignments that take their value from one, are left to be read later. -/
theorem lowerExpr_cell_iff (e : Expr) {d d' : Draft} {v : Value} (h : lowerExpr e d = .ok v d') (kind : CellKind)
    (index : Nat) : v = .cell kind index ↔ ∃ name, e.source? = some name ∧ d.resolve? name = some (.cell kind index) := by
  have hsettles {act : Lowering Value} (hsource : e.source? = none) [hact : Settles act] (h : act d = .ok v d') :
      v = .cell kind index ↔ ∃ name, e.source? = some name ∧ d.resolve? name = some (.cell kind index) := by
    rw [hsource]
    exact ⟨fun heq => (hact.ne_cell d v d' kind index h heq).elim, fun hname => by rcases hname with ⟨_, hname, -⟩; cases hname⟩
  cases e with
  | ident id =>
    rw [lowerExpr] at h
    obtain ⟨_, _, hget, h⟩ := exists_of_bind_ok (eq_of_located h)
    cases hget
    cases hfound : d.resolve? id.name with
    | some w =>
      rw [hfound] at h
      cases h
      simp [Expr.source?, hfound]
    | none =>
      rw [hfound] at h
      have hnot : v ≠ .cell kind index := by
        refine (?_ : Settles _).ne_cell _ _ _ _ _ h
        dsimp only
        split <;> infer_instance
      simp [Expr.source?, hfound, hnot]
  | assign span target value =>
    rw [lowerExpr] at h
    cases target with
    | ident id =>
      obtain ⟨dst, d₁, hdst, h⟩ := exists_of_bind_ok (eq_of_located h)
      obtain ⟨src, d₂, hsrc, h⟩ := exists_of_bind_ok h
      obtain ⟨_, d₃, -, h⟩ := exists_of_bind_ok h
      cases h
      have hlooks := variableNamed_looks (d := d) id
      rw [Looks, hdst] at hlooks
      rw [hlooks.1] at hsrc
      exact lowerExpr_cell_iff value hsrc kind index
    | _ =>
      unfold assignTo at h
      exact hsettles rfl h
  | call span callee args =>
    cases callee with
    | ident id =>
      rw [lowerExpr] at h
      exact hsettles rfl h
    | member span' object name =>
      rw [lowerExpr] at h
      exact hsettles rfl h
    | _ =>
      simp only [lowerExpr] at h
      exact hsettles rfl h
  | literal span value =>
    rw [lowerExpr] at h
    exact hsettles rfl h
  | unary span op operand =>
    rw [lowerExpr] at h
    exact hsettles rfl h
  | binary span op left right =>
    rw [lowerExpr] at h
    exact hsettles rfl h
  | member span object name =>
    rw [lowerExpr] at h
    exact hsettles rfl h
  | _ =>
    rw [lowerExpr] at h
    exact hsettles rfl h

theorem value_of_number {p : Part} {d d' : Draft} {v : Value} (h : number p d = .ok v d') : p.value d = .ok v d' := by
  obtain ⟨w, d₁, hvalue, h⟩ := exists_of_bind_ok h
  dsimp only at h
  split at h
  · cases h
  · cases h
    exact hvalue

theorem numbers_in_order {es : List Expr} {d d' : Draft} {vs : List Value} (h : numbers (lowerParts es) d = .ok vs d') :
    vs.length = es.length ∧ ∀ i e v, es[i]? = some e → vs[i]? = some v →
      ∃ dᵢ, numbers (lowerParts (es.take i)) d = .ok (vs.take i) dᵢ ∧ ∃ d'', lowerExpr e dᵢ = .ok v d'' := by
  induction es generalizing d vs with
  | nil =>
    rw [lowerParts] at h
    cases h
    exact ⟨rfl, nofun⟩
  | cons e rest ih =>
    rw [lowerParts] at h
    obtain ⟨v, d₁, hv, h⟩ := exists_of_bind_ok h
    obtain ⟨ws, d₂, hws, h⟩ := exists_of_bind_ok h
    cases h
    obtain ⟨hlength, hrest⟩ := ih hws
    refine ⟨congrArg (· + 1) hlength, fun i e' v' he hv' => ?_⟩
    cases i with
    | zero =>
      cases he
      cases hv'
      exact ⟨d, rfl, d₁, value_of_number hv⟩
    | succ i =>
      obtain ⟨dᵢ, hbefore, hat⟩ := hrest i e' v' he hv'
      refine ⟨dᵢ, ?_, hat⟩
      rw [List.take_succ_cons, List.take_succ_cons, lowerParts]
      exact (bind_of_ok hv).trans (bind_of_ok hbefore)

end Lowering

def Draft.Appends (d d' : Draft) (code : List Instr) : Prop :=
  d.current < d.procedures.size → d'.current < d'.procedures.size ∧
    ∀ items, d.writer.Places items → d'.writer.Places (items ++ code.map .instr)

/-- `code` puts the number `v` into register `r`. -/
def Value.LoadedBy (r : Nat) (code : List Instr) : Value → Prop
  | .reg src => code = if src = r then [] else [.unary .id r src]
  | .cell kind index => code = [.load r kind index 0]
  | .float _ => ∃ kind index, kind ≠ .local ∧ kind ≠ .global ∧ code = [.load r kind index 0]
  | _ => False

/-- `code` puts each of the numbers into its register, one after another. -/
def LoadedInTurn (pairs : List (Nat × Value)) (code : List Instr) : Prop :=
  ∃ codes, List.Forall₂ (fun pair code => pair.2.LoadedBy pair.1 code) pairs codes ∧ code = codes.flatten

/-- `code` puts each of the numbers into its field of the packet, one after another. -/
def StoredInTurn (fields : List (Value × FieldSpec)) (code : List Instr) : Prop :=
  ∃ codes, List.Forall₂ (fun f code => ∃ r load cell place, f.1.LoadedBy r load ∧
    code = load ++ [.store r .buffer cell place]) fields codes ∧ code = codes.flatten

variable {d d' d'' : Draft} {code code' : List Instr} {α : Type}

theorem Draft.Appends.refl (d : Draft) : d.Appends d [] := fun hd => ⟨hd, fun items hplaces => by simpa using hplaces⟩

theorem Draft.Appends.trans (h : d.Appends d' code) (h' : d'.Appends d'' code') : d.Appends d'' (code ++ code') := by
  intro hd
  obtain ⟨hd', hitems⟩ := h hd
  obtain ⟨hd'', hitems'⟩ := h' hd'
  grind

namespace Lowering

open Draft

theorem appends_of_write {act : Writing α} {a : α} (h : write act d = .ok a d') (hact : ∀ items, d.writer.Places items →
      Outcome (fun _ w => w.Places (items ++ code.map .instr)) (fun _ _ => True) (act d.writer)) : d.Appends d' code := by
  intro hd
  rw [write] at h
  split at h
  · next w hok =>
    cases h
    refine ⟨by simpa [setWriter, modifyProcedure] using hd, fun items hplaces => ?_⟩
    have hplaced := hact items hplaces
    rw [hok] at hplaced
    have hwriter : (d.setWriter w).writer = w := by
      simp [setWriter, modifyProcedure, Draft.writer, procedure, Array.getElem_modify, hd]
    rw [hwriter]
    exact hplaced
  · cases h

variable {u : Unit}

theorem appends_of_emit {i : Instr} (h : write (CodeWriter.emit i) d = .ok u d') : d.Appends d' [i] :=
  appends_of_write h fun _ hplaces => (CodeWriter.emit_places hplaces i).mono (fun _ _ h => h.2.1) fun _ _ _ => trivial

theorem appends_of_codeless {act : Writing α} {a : α} (hact : CodeWriter.Codeless act) (h : write act d = .ok a d') :
    d.Appends d' [] := by
  refine appends_of_write h fun items hplaces => (hact.ends _).mono (fun _ w hw => ?_) fun _ _ _ => trivial
  rw [List.map_nil, List.append_nil]
  exact hplaces.congr hw.1 hw.2

theorem appends_of_push (h : write CodeWriter.push d = .ok u d') : d.Appends d' [] := by
  have hpush : CodeWriter.Codeless CodeWriter.push := .modify (fun _ => rfl) fun _ => rfl
  exact appends_of_codeless hpush h

theorem appends_of_pop (h : write CodeWriter.pop d = .ok u d') : d.Appends d' [] :=
  appends_of_codeless (CodeWriter.codeless_takeScope.bind fun _ => CodeWriter.codeless_freeAll _) h

theorem appends_of_emitAsync {op : AsyncOp} {a b c : Nat}
    (h : write (CodeWriter.emitAsync op a b c) d = .ok u d') :
    d.Appends d' [.async op a b c d.writer.allocated.general.mask] :=
  appends_of_write h fun _ hplaces => @CodeWriter.Places.run _ _ (.async op a b c) hplaces trivial

theorem floatLiteral_appends {x : Number} {index : Nat} (h : floatLiteral x d = .ok index d') : d.Appends d' [] := by
  obtain ⟨_, floats, heq, -⟩ := floatLiteral_eq x d
  cases heq.symm.trans h
  exact .refl d

theorem loadValue_appends {r : Nat} {v : Value} (h : loadValue r v d = .ok u d') :
    ∃ code, v.LoadedBy r code ∧ d.Appends d' code := by
  cases v with
  | reg src =>
    rw [loadValue] at h
    split at h
    · next heq =>
      cases h
      exact ⟨[], (if_pos heq).symm, .refl d⟩
    · next hne => exact ⟨_, (if_neg hne).symm, appends_of_emit h⟩
  | cell kind index => exact ⟨_, rfl, appends_of_emit h⟩
  | float x =>
    rw [loadValue, loadFloat] at h
    split at h
    · exact ⟨_, ⟨.special, _, by decide, by decide, rfl⟩, appends_of_emit h⟩
    split at h
    · exact ⟨_, ⟨.identity, _, by decide, by decide, rfl⟩, appends_of_emit h⟩
    · obtain ⟨index, d₁, hindex, h⟩ := exists_of_bind_ok h
      exact ⟨_, ⟨.floatConst, index, by decide, by decide, rfl⟩, (floatLiteral_appends hindex).trans (appends_of_emit h)⟩
  | _ => cases h

theorem loadValues_appends {pairs : List (Nat × Value)} (h : loadValues pairs d = .ok u d') :
    ∃ code, d.Appends d' code ∧ LoadedInTurn pairs code := by
  induction pairs generalizing d with
  | nil =>
    cases h
    exact ⟨[], .refl _, [], .nil, rfl⟩
  | cons pair rest ih =>
    obtain ⟨_, d₁, hfirst, hrest⟩ := exists_of_bind_ok h
    obtain ⟨code, hcode, happends⟩ := loadValue_appends hfirst
    obtain ⟨_, hmore, codes, hcodes, rfl⟩ := ih hrest
    exact ⟨_, happends.trans hmore, code :: codes, .cons hcode hcodes, rfl⟩

theorem eq_of_allocArgs {count : Nat} {regs : List Nat}
    (h : write (CodeWriter.allocArgs count) d = .ok regs d') : regs = List.range (count % 256) := by
  rw [write] at h
  split at h
  · next w hok =>
    cases h
    simp only [CodeWriter.allocArgs, bind, EStateM.bind] at hok
    split at hok
    · cases hok
      rfl
    · cases hok
  · cases h

theorem passValues_appends {values : List Value} (h : passValues values d = .ok u d') :
    ∃ code, d.Appends d' code ∧ LoadedInTurn ((List.range (values.length % 256)).zip values) code := by
  obtain ⟨regs, d₁, halloc, h⟩ := exists_of_bind_ok h
  cases eq_of_allocArgs halloc
  obtain ⟨code, happends, hcode⟩ := loadValues_appends h
  exact ⟨code, (appends_of_codeless (CodeWriter.codeless_allocArgs _) halloc).trans happends, hcode⟩

theorem forceReg_appends {r : Nat} {v : Value} (h : forceReg v d = .ok r d') :
    ∃ code, v.LoadedBy r code ∧ d.Appends d' code := by
  rw [forceReg.eq_def] at h
  split at h
  · cases h
    exact ⟨[], (if_pos rfl).symm, .refl d⟩
  · dsimp only at h
    split at h
    · cases h
    · obtain ⟨s, d₁, halloc, h⟩ := exists_of_bind_ok h
      obtain ⟨_, d₂, hload, h⟩ := exists_of_bind_ok h
      cases h
      obtain ⟨code, hcode, happends⟩ := loadValue_appends hload
      exact ⟨code, hcode, (appends_of_codeless CodeWriter.codeless_allocReg halloc).trans happends⟩

theorem bufferCell_appends {field : FieldSpec} {cell : Nat} (h : bufferCell field d = .ok cell d') : d.Appends d' [] := by
  rw [bufferCell] at h
  cases hformat : field.format? with
  | none =>
    rw [hformat] at h
    cases h
  | some format =>
    rw [hformat] at h
    dsimp only at h
    split at h
    · cases h
    · cases h
      exact .refl d

theorem storeFields_appends {offset : Nat} {fields : List (Value × FieldSpec)}
    (h : storeFields offset fields d = .ok u d') :
    ∃ code, d.Appends d' code ∧ StoredInTurn fields code := by
  induction fields generalizing d offset with
  | nil =>
    cases h
    exact ⟨[], .refl _, [], .nil, rfl⟩
  | cons f rest ih =>
    obtain ⟨_, d₁, hpush, h⟩ := exists_of_bind_ok h
    obtain ⟨r, d₂, hforce, h⟩ := exists_of_bind_ok h
    obtain ⟨_, d₃, hstore, h⟩ := exists_of_bind_ok h
    obtain ⟨_, d4, hpop, hrest⟩ := exists_of_bind_ok h
    obtain ⟨cell, d5, hcell, hstore⟩ := exists_of_bind_ok hstore
    obtain ⟨load, hload, happends⟩ := forceReg_appends hforce
    obtain ⟨_, hmore, codes, hcodes, rfl⟩ := ih hrest
    have hstored := (bufferCell_appends hcell).trans (appends_of_emit hstore)
    have hall := (appends_of_push hpush).trans (happends.trans hstored) |>.trans ((appends_of_pop hpop).trans hmore)
    exact ⟨_, hall, (load ++ [.store r .buffer cell offset]) :: codes,
      .cons ⟨r, load, cell, offset, hload, rfl⟩ hcodes, rfl⟩

section

variable {es : List Expr} {vs : List Value} {d₀ d₁ d₂ : Draft}

theorem applyMath_appends (h : numbers (lowerParts es) d = .ok vs d₁) {op : SyncOp} {k r : Nat}
    {first last : Option Number} (hpush : write CodeWriter.push d₀ = .ok () d)
    (hmath : applyMath op k first (lowerParts es) last d₀ = .ok r d₂) :
    ∃ values code, values = first.toList.map .float ++ vs ++ last.toList.map .float ∧
      d₁.Appends d₂ (code ++ [.sync op k 0 0 0, .unary .id r 0]) ∧
      LoadedInTurn ((List.range (values.length % 256)).zip values) code := by
  obtain ⟨_, _, hpush', hmath⟩ := exists_of_bind_ok hmath
  cases hpush.symm.trans hpush'
  obtain ⟨_, _, h', hmath⟩ := exists_of_bind_ok hmath
  cases h.symm.trans h'
  obtain ⟨_, d₃, hpass, hmath⟩ := exists_of_bind_ok hmath
  obtain ⟨_, d4, hemit, hmath⟩ := exists_of_bind_ok hmath
  obtain ⟨_, d5, hpop, hmath⟩ := exists_of_bind_ok hmath
  obtain ⟨_, d6, halloc, hmath⟩ := exists_of_bind_ok hmath
  obtain ⟨_, d7, hmove, hmath⟩ := exists_of_bind_ok hmath
  cases hmath
  obtain ⟨code, happends, hcode⟩ := passValues_appends hpass
  have hend := ((appends_of_emit hemit).trans (appends_of_pop hpop)).trans
    ((appends_of_codeless CodeWriter.codeless_allocReg halloc).trans (appends_of_emit hmove))
  exact ⟨_, code, rfl, happends.trans hend, hcode⟩

theorem send_appends (h : numbers (lowerParts es) d = .ok vs d₁) {role : Nat} {packet : PacketSpec} {code : UInt16}
    {span : Span} (hpush : write CodeWriter.push d₀ = .ok () d)
    (hsend : send role packet code ⟨span, lowerParts es⟩ d₀ = .ok u d₂) :
    ∃ moves saved, d₁.Appends d₂ (.sync .setupBuffer packet.payloadSize 0 0 0 :: moves ++
      [.async .sendCmd role code.toNat 0 saved]) ∧ StoredInTurn (vs.zip packet.fields) moves := by
  obtain ⟨_, _, hargs, hsend⟩ := exists_of_bind_ok hsend
  rw [requireArgs] at hargs
  split at hargs
  · cases hargs
  cases hargs
  dsimp only at hsend
  split at hsend
  · cases hsend
  obtain ⟨_, _, hpush', hsend⟩ := exists_of_bind_ok hsend
  cases hpush.symm.trans hpush'
  obtain ⟨_, _, h', hsend⟩ := exists_of_bind_ok hsend
  cases h.symm.trans h'
  obtain ⟨_, d₃, halloc, hsend⟩ := exists_of_bind_ok hsend
  obtain ⟨_, d4, hsetup, hsend⟩ := exists_of_bind_ok hsend
  obtain ⟨_, d5, hstore, hsend⟩ := exists_of_bind_ok hsend
  obtain ⟨_, d6, hemit, hpop⟩ := exists_of_bind_ok hsend
  obtain ⟨moves, happends, hmoves⟩ := storeFields_appends hstore
  have hbuffer : CodeWriter.Codeless CodeWriter.allocBuffer := CodeWriter.codeless_alloc _
  have hstart := (appends_of_codeless hbuffer halloc).trans (appends_of_emit hsetup)
  have hend := (appends_of_emitAsync hemit).trans (appends_of_pop hpop)
  exact ⟨moves, _, (hstart.trans happends).trans hend, hmoves⟩

/-- Arguments are lowered from left to right, and what each one computes is in a register or known by then. Only
variables, and assignments that take their value from one, are still to be read: that happens when the arguments are
moved, behind the code of all of them. So it is where they are passed to a function, where they are operands of the
machine's mathematics, with constants beside them or without, and where they are sent in a packet. -/
theorem variables_are_read_after_all_arguments (h : numbers (lowerParts es) d = .ok vs d₁) :
    (vs.length = es.length ∧ ∀ i e v, es[i]? = some e → vs[i]? = some v →
      ∃ dᵢ, numbers (lowerParts (es.take i)) d = .ok (vs.take i) dᵢ ∧ ∀ kind index, v = .cell kind index ↔
        ∃ name, e.source? = some name ∧ dᵢ.resolve? name = some (.cell kind index)) ∧
    (∀ (regs : List Nat) (d₂ d₃ : Draft), loadValues (regs.zip vs) d₂ = .ok () d₃ →
      ∃ code, d₂.Appends d₃ code ∧ LoadedInTurn (regs.zip vs) code) ∧
    (∀ (fields : List FieldSpec) (offset : Nat) (d₂ d₃ : Draft), storeFields offset (vs.zip fields) d₂ = .ok () d₃ →
      ∃ code, d₂.Appends d₃ code ∧ StoredInTurn (vs.zip fields) code) ∧
    (∀ d₂, passArgs (lowerParts es) d = .ok () d₂ → ∃ code, d₁.Appends d₂ code ∧
      LoadedInTurn ((List.range (vs.length % 256)).zip vs) code) ∧
    ∀ d₀, write CodeWriter.push d₀ = .ok () d →
      (∀ (op : SyncOp) (k : Nat) (first last : Option Number) (r : Nat) (d₂ : Draft),
        applyMath op k first (lowerParts es) last d₀ = .ok r d₂ →
        ∃ values code, values = first.toList.map .float ++ vs ++ last.toList.map .float ∧
          d₁.Appends d₂ (code ++ [.sync op k 0 0 0, .unary .id r 0]) ∧
          LoadedInTurn ((List.range (values.length % 256)).zip values) code) ∧
      ∀ (role : Nat) (packet : PacketSpec) (code : UInt16) (span : Span) (d₂ : Draft),
        send role packet code ⟨span, lowerParts es⟩ d₀ = .ok () d₂ →
        ∃ moves saved, d₁.Appends d₂ (.sync .setupBuffer packet.payloadSize 0 0 0 :: moves ++
          [.async .sendCmd role code.toNat 0 saved]) ∧ StoredInTurn (vs.zip packet.fields) moves := by
  obtain ⟨hlength, horder⟩ := numbers_in_order h
  refine ⟨⟨hlength, fun i e v he hv => ?_⟩, fun regs d₂ d₃ => loadValues_appends,
    fun fields offset d₂ d₃ => storeFields_appends, fun d₂ hpass => ?_, fun d₀ hpush =>
    ⟨fun op k first last r d₂ => applyMath_appends h hpush, fun role packet code span d₂ => send_appends h hpush⟩⟩
  · obtain ⟨dᵢ, hbefore, d', hat⟩ := horder i e v he hv
    exact ⟨dᵢ, hbefore, lowerExpr_cell_iff e hat⟩
  · obtain ⟨_, _, h', hpass⟩ := exists_of_bind_ok hpass
    cases h.symm.trans h'
    exact passValues_appends hpass

end

end Lowering

open Script in
/-- `x, x = 5` -/
def reassigned : List Expr := [name "x", .assign {} (name "x") (.literal {} (.number 5))]

def oneVariable : Draft := { Draft.new Catalog.builtin {} with globals := ⟨#[{ name := "x" }]⟩ }

/-- Of two arguments `x, x = 5` the first one is still to be read when the second one is done. -/
theorem variables_are_read_after_all_arguments_reassigned :
    ∃ vs d₁, Lowering.numbers (lowerParts reassigned) oneVariable = .ok vs d₁ ∧ vs[0]? = some (.cell .global 0) := by
  have hok : (match Lowering.numbers (lowerParts reassigned) oneVariable with
    | .ok _ _ => true
    | .error _ _ => false) = true := by decide +kernel
  split at hok
  · next vs d₁ hnumbers =>
    obtain ⟨⟨hlength, hargs⟩, -⟩ := Lowering.variables_are_read_after_all_arguments hnumbers
    have hv := List.getElem?_eq_getElem (l := vs) (i := 0) (by rw [hlength]; decide)
    obtain ⟨dᵢ, hbefore, hcell⟩ := hargs 0 _ _ rfl hv
    cases hbefore
    have hx : oneVariable.resolve? "x" = some (.cell .global 0) := by
      simp [oneVariable, Draft.resolve?, Draft.new, Draft.procedure, Draft.mainIndex, Variables.find?]
    exact ⟨vs, d₁, hnumbers, hv.trans (congrArg some ((hcell .global 0).2 ⟨"x", rfl, hx⟩))⟩
  · cases hok

open Script in
/-- `function f(a, b) { return a }; var x = 1; var y = f(x, x = 5)` -/
def lateReadingScript : List Stmt :=
  [.function {} { name := ⟨"f", {}⟩, params := [.ident ⟨"a", {}⟩, .ident ⟨"b", {}⟩] } [.ret {} (some (name "a"))],
    declare "x" (some (.literal {} (.number 1))), declare "y" (some (.call {} (name "f") reassigned))]

/-- The function is called with five, not with the one that `x` is before the assignment. -/
theorem first_argument_is_read_late :
    ∃ compiled m, compile Catalog.builtin {} lateReadingScript = .ok compiled ∧ compiled.numErrors = 0 ∧
      Machine.new compiled.image {} {} (.ofSeed 1) = .ok m ∧
      (m.play [.call .start] []).map (·.2.globals) = some #[5, 5] := by
  have hruns : loadsCleanly lateReadingScript {} fun m => (m.play [.call .start] []).map (·.2.globals) = some #[5, 5] := by
    decide +kernel
  obtain ⟨compiled, m, hcompile, hclean, hnew, hplay⟩ := exists_of_loadsCleanly hruns
  exact ⟨compiled, m, hcompile, hclean, hnew, of_decide_eq_true hplay⟩

end BusScript
