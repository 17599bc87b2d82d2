import BusScript.Proofs.CompiledImages
import BusScript.Proofs.Decoding
import BusScript.Proofs.Labels

namespace BusScript

open Outcome (bind_iff discard_iff get_iff modify_iff pure_iff)

/-- What a writer is called for, except for single raw words. -/
inductive WriterCall where
  | push
  | pop
  | popExcept (keep : Option Nat)
  | allocReg
  | allocBuffer
  | allocArgs (count : Nat)
  | startStatement (line : Nat)
  | endStatement (outer : Option Nat)
  | newLabel (name : String)
  | bindLabel (label : Nat)
  | sync (op : SyncOp) (a b c d : Nat)
  | async (op : AsyncOp) (a b c : Nat)
  | move (dst src : Nat)
  | unary (op : UnaryOp) (dst src : Nat)
  | binary (op : BinaryOp) (dst src : Nat)
  | load (dst : Nat) (kind : CellKind) (index c : Nat)
  | store (src : Nat) (kind : CellKind) (index c : Nat)
  | call (function numArgs : Nat) (kind : CallKind)
  | jump (label : Nat) (ifZero : Option Nat)

namespace WriterCall

def run : WriterCall → Writing Unit
  | push => CodeWriter.push
  | pop => CodeWriter.pop
  | popExcept keep => CodeWriter.popExcept keep
  | allocReg => discard CodeWriter.allocReg
  | allocBuffer => CodeWriter.allocBuffer
  | allocArgs count => discard (CodeWriter.allocArgs count)
  | startStatement line => CodeWriter.startStatement line
  | endStatement outer => CodeWriter.endStatement outer
  | newLabel name => discard (CodeWriter.newLabel name)
  | bindLabel label => CodeWriter.bindLabel label
  | sync op a b c d => CodeWriter.emitSync op a b c d
  | async op a b c => CodeWriter.emitAsync op a b c
  | move dst src => CodeWriter.emitMove dst src
  | unary op dst src => CodeWriter.emitUnary op dst src
  | binary op dst src => CodeWriter.emitBinary op dst src
  | load dst kind index c => CodeWriter.emitLoad dst kind index c
  | store src kind index c => CodeWriter.emitStore src kind index c
  | call function numArgs kind => CodeWriter.emitCall function numArgs kind
  | jump label ifZero => CodeWriter.emitJump label ifZero

/-- What a call writes. Calls and operations that may pause save the registers allocated then. -/
def items (w : CodeWriter) : WriterCall → List Item
  | sync op a b c d => [.instr (.sync op a b c d)]
  | async op a b c => [.instr (.async op a b c w.allocated.general.mask)]
  | move dst src => [.instr (.unary .id dst src)]
  | unary op dst src => [.instr (.unary op dst src)]
  | binary op dst src => [.instr (.binary op dst src)]
  | load dst kind index c => [.instr (.load dst kind index c)]
  | store src kind index c => [.instr (.store src kind index c)]
  | call function numArgs kind =>
    [.instr (.call kind numArgs function (if kind = .sync then w.allocated.general.mask else 0))]
  | jump label ifZero => [.jump label ifZero]
  | _ => []

/-- Registers are general ones, and labels were made before. -/
def Proper (w : CodeWriter) : WriterCall → Prop
  | move dst src | unary _ dst src | binary _ dst src => dst < 16 ∧ src < 16
  | load reg _ _ _ | store reg _ _ _ => reg < 16
  | bindLabel label => label < w.labels.size
  | jump label ifZero => label < w.labels.size ∧ ∀ r, ifZero = some r → r < 16
  | _ => True

/-- The call writes code, with operands within their widths. -/
def Emits : WriterCall → Prop
  | sync _ a b c d => a / 16 ≤ maxOperand ∧ b ≤ maxOperand ∧ c ≤ maxOperand ∧ d ≤ maxOperand
  | async _ a b c => a ≤ maxOperand ∧ b ≤ maxOperand ∧ c ≤ maxOperand
  | move .. | unary .. | binary .. | jump .. => True
  | load _ _ index c | store _ _ index c => index / 64 ≤ maxOperand ∧ c ≤ maxOperand
  | call function numArgs _ => numArgs < 16 ∧ function / 64 ≤ maxOperand
  | _ => False

end WriterCall

/-- Calls in a row that all return, with what they write. -/
inductive CodeWriter.Runs : CodeWriter → List WriterCall → List Item → CodeWriter → Prop
  | nil (w : CodeWriter) : Runs w [] [] w
  | cons {w w' w'' : CodeWriter} {call : WriterCall} {calls : List WriterCall} {items : List Item} :
      call.Proper w → call.run w = .ok () w' → Runs w' calls items w'' →
        Runs w (call :: calls) (call.items w ++ items) w''

namespace CodeWriter

structure Codeless {α : Type} (act : Writing α) : Prop where
  ends : ∀ w, Outcome (fun _ w' => w'.code = w.code ∧ w'.labels = w.labels) (fun _ _ => True) (act w)

namespace Codeless

variable {α β : Type}

variable {x : Writing α}

theorem bind {f : α → Writing β} (hx : Codeless x) (hf : ∀ a, Codeless (f a)) : Codeless (x >>= f) := by
  constructor
  intro w
  refine (hx.ends w).bind (fun a w' h => ?_) fun _ _ => id
  exact ((hf a).ends w').imp fun _ _ h' => ⟨h'.1.trans h.1, h'.2.trans h.2⟩

theorem pure (a : α) : Codeless (Pure.pure a) := ⟨fun _ => ⟨rfl, rfl⟩⟩

theorem get : Codeless get := ⟨fun _ => ⟨rfl, rfl⟩⟩

theorem throw (stop : Stop) : Codeless (MonadExcept.throw stop : Writing α) := ⟨fun _ => trivial⟩

theorem modify {f : CodeWriter → CodeWriter} (hcode : ∀ w, (f w).code = w.code) (hlabels : ∀ w, (f w).labels = w.labels) :
    Codeless (modify f) := ⟨fun w => ⟨hcode w, hlabels w⟩⟩

theorem ite {c : Prop} [Decidable c] {y : Writing α} (hx : Codeless x) (hy : Codeless y) :
    Codeless (if c then x else y) := by
  split
  · exact hx
  · exact hy

theorem discard (hx : Codeless x) : Codeless (discard x) :=
  ⟨fun w => discard_iff.2 (hx.ends w)⟩

end Codeless

theorem codeless_freeAll (regs : List Nat) : Codeless (freeAll regs) := by
  induction regs with
  | nil => exact .pure _
  | cons r rest ih =>
    have herase : Codeless (modify fun w => { w with allocated := w.allocated.erase r }) :=
      .modify (fun _ => rfl) fun _ => rfl
    have hfree : Codeless (free r) := Codeless.get.bind fun w => .ite (.bind (.throw _) fun _ => herase) herase
    exact hfree.bind fun _ => ih

theorem codeless_takeScope : Codeless takeScope := by
  refine Codeless.get.bind fun w => ?_
  split
  · exact .throw _
  · exact .bind (.modify (fun _ => rfl) fun _ => rfl) fun _ => .pure _

theorem codeless_addToScope (r : Nat) (outside : Defect) : Codeless (addToScope r outside) := by
  refine Codeless.get.bind fun w => ?_
  split
  · exact .throw _
  · exact .modify (fun _ => rfl) fun _ => rfl

theorem codeless_popExcept (keep : Option Nat) : Codeless (popExcept keep) := by
  refine codeless_takeScope.bind fun scope => (codeless_freeAll _).bind fun _ => ?_
  cases keep with
  | none => exact .pure _
  | some r => exact .ite (codeless_addToScope r _) (.pure _)

theorem codeless_alloc (r : Nat) : Codeless (alloc r) := by
  have hadd : Codeless (do
      addToScope r .allocatedOutsideScope
      modify fun w => { w with allocated := w.allocated.insert r }) :=
    (codeless_addToScope r _).bind fun _ => .modify (fun _ => rfl) fun _ => rfl
  have hrest : Codeless (do
      if (← get).allocated.has r then
        reject (if r = RegSet.bufferReg then .bufferInUse else .expressionTooComplex)
      addToScope r .allocatedOutsideScope
      modify fun w => { w with allocated := w.allocated.insert r }) :=
    Codeless.get.bind fun w => .ite (.bind (.throw _) fun _ => hadd) hadd
  exact .ite (.bind (.throw _) fun _ => hrest) hrest

theorem codeless_allocReg : Codeless allocReg := by
  refine Codeless.get.bind fun w => ?_
  simp only
  split
  · exact .throw _
  · exact (codeless_alloc _).bind fun _ => .pure _

theorem codeless_allocArgs (count : Nat) : Codeless (allocArgs count) := by
  have heach (regs : List Nat) : Codeless (allocEach regs) := by
    induction regs with
    | nil => exact .pure _
    | cons r rest ih => exact (codeless_alloc r).bind fun _ => ih
  exact (heach _).bind fun _ => .pure _

variable {w w' : CodeWriter} {items : List Item}

variable {call : WriterCall}

theorem Places.run (h : w.Places items) (hproper : call.Proper w) :
    Outcome (fun _ w' => w'.Places (items ++ call.items w)) (fun _ _ => True) (call.run w) := by
  have hnothing (hitems : call.items w = []) {w' : CodeWriter} (h' : w'.Places items) :
      w'.Places (items ++ call.items w) := by
    rw [hitems, List.append_nil]
    exact h'
  have hcodeless {act : Writing Unit} (hact : Codeless act) (hitems : call.items w = []) :
      Outcome (fun _ w' => w'.Places (items ++ call.items w)) (fun _ _ => True) (act w) :=
    (hact.ends w).imp fun _ w' hsame => hnothing hitems (h.congr hsame.1 hsame.2)
  have hemit {w1 : CodeWriter} (h1 : w1.Places items) (i : Instr) :
      Outcome (fun _ w' => w'.Places (items ++ [.instr i])) (fun _ _ => True) (emit i w1) :=
    (emit_places h1 i).mono (fun _ _ hemitted => hemitted.2.1) fun _ _ _ => trivial
  have hsaved : { w with maxRegs := max w.maxRegs w.allocated.general.size }.Places items := h.congr rfl rfl
  cases call with
  | push =>
    have hpush : Codeless CodeWriter.push := .modify (fun _ => rfl) fun _ => rfl
    exact hcodeless hpush rfl
  | pop =>
    have hpop : Codeless CodeWriter.pop := codeless_takeScope.bind fun _ => codeless_freeAll _
    exact hcodeless hpop rfl
  | popExcept keep => exact hcodeless (codeless_popExcept keep) rfl
  | allocReg => exact hcodeless codeless_allocReg.discard rfl
  | allocBuffer => exact hcodeless (codeless_alloc RegSet.bufferReg) rfl
  | allocArgs count => exact hcodeless (codeless_allocArgs count).discard rfl
  | startStatement | endStatement => exact hcodeless (.modify code_closeRun labels_closeRun) rfl
  | newLabel name =>
    refine discard_iff.2 ((newLabel_places h name).mono (fun _ w' hnew => ?_) fun _ _ => False.elim)
    exact hnothing rfl hnew.2.1
  | bindLabel label =>
    have hbound := hnothing rfl (h.bindLabel label)
    simp only [WriterCall.run, CodeWriter.bindLabel, bind_iff, get_iff]
    rcases w.labels[label]? with _ | ⟨name, _ | o, uses⟩
    · exact hbound
    · exact hbound
    · trivial
  | async op a b c =>
    simp only [WriterCall.run, emitAsync, saveRegs, bind_iff, get_iff, modify_iff,
      pure_iff]
    exact hemit hsaved _
  | call function numArgs kind =>
    simp only [WriterCall.run, emitCall]
    split
    · trivial
    · by_cases hsync : kind = .sync
      · simp only [saveRegs, WriterCall.items, if_pos hsync, bind_iff, get_iff, modify_iff,
          pure_iff]
        exact hemit hsaved _
      · simp only [WriterCall.items, if_neg hsync, bind_iff, pure_iff]
        exact hemit h _
  | jump label ifZero =>
    exact (emitJump_places h hproper.1 hproper.2).mono (fun _ _ hjump => hjump.1) fun _ _ => False.elim
  | _ => exact hemit h _

theorem namesRegs_of_mem (hproper : call.Proper w) {i : Instr}
    (hmem : .instr i ∈ call.items w) : i.NamesRegs := by
  cases call with
  | move | unary | binary => cases List.mem_singleton.1 hmem; exact hproper
  | sync | async | load | store | call => cases List.mem_singleton.1 hmem; trivial
  | jump label ifZero => cases List.mem_singleton.1 hmem
  | _ => cases hmem

theorem Runs.places {calls : List WriterCall} {more : List Item} (hruns : w.Runs calls more w') (h : w.Places items) :
    w'.Places (items ++ more) ∧ ∀ i, .instr i ∈ more → i.NamesRegs := by
  induction hruns generalizing items with
  | nil w => simp_all
  | cons hproper hrun _ ih =>
    have hstep := h.run hproper
    rw [hrun] at hstep
    obtain ⟨hplaces, hregs⟩ := ih hstep
    rw [List.append_assoc] at hplaces
    refine ⟨hplaces, fun i hi => ?_⟩
    rcases List.mem_append.1 hi with hi | hi
    · exact namesRegs_of_mem hproper hi
    · exact hregs i hi

theorem run_of_emits (hproper : call.Proper w) (hemits : call.Emits) :
    ∃ w', call.run w = .ok () w' := by
  have hmask : w.allocated.general.mask ≤ maxOperand :=
    Nat.le_trans (RegSet.general_mask_le _) (by decide)
  cases call with
  | move dst src => exact ⟨_, emit_of_encodable (Instr.encodable_unary .id hproper.1 hproper.2) w⟩
  | unary op dst src => exact ⟨_, emit_of_encodable (Instr.encodable_unary op hproper.1 hproper.2) w⟩
  | binary op dst src => exact ⟨_, emit_of_encodable (Instr.encodable_binary op hproper.1 hproper.2) w⟩
  | sync op a b c d =>
    exact ⟨_, emit_of_encodable (Instr.encodable_sync op hemits.1 hemits.2.1 hemits.2.2.1 hemits.2.2.2) w⟩
  | async op a b c =>
    have hsaved : w.allocated.general.mask / 16 ≤ maxOperand := Nat.le_trans (Nat.div_le_self ..) hmask
    exact ⟨_, emit_of_encodable (Instr.encodable_async op hemits.1 hemits.2.1 hemits.2.2 hsaved) _⟩
  | load dst kind index c => exact ⟨_, emit_of_encodable (Instr.encodable_load kind hproper hemits.1 hemits.2) w⟩
  | store src kind index c => exact ⟨_, emit_of_encodable (Instr.encodable_store kind hproper hemits.1 hemits.2) w⟩
  | call function numArgs kind =>
    simp only [WriterCall.run, emitCall, if_neg (Nat.not_le.2 hemits.1)]
    by_cases hsync : kind = .sync
    · simp only [if_pos hsync]
      exact ⟨_, emit_of_encodable (Instr.encodable_call kind hemits.1 hemits.2 hmask) _⟩
    · simp only [if_neg hsync]
      exact ⟨_, emit_of_encodable (Instr.encodable_call kind hemits.1 hemits.2 (Nat.zero_le _)) w⟩
  | jump label ifZero => exact ⟨_, emitJump_eq label hproper.2 w⟩
  | _ => exact hemits.elim

/-- Code is read as it was written. Whatever calls were made of a new writer, the patched code is read, from its first
word on, as the row of instructions that they wrote, each with its own operation, registers and operands and with no
others, the jumps with their labels for targets, and a return if it has to be filled up. A call with operands within
their widths always writes its instruction, and code with resolved labels can always be patched. -/
theorem code_is_read_as_it_was_written :
    (∀ (calls : List WriterCall) (items : List Item) (w w' : CodeWriter) (strict : Bool),
      new.Runs calls items w → finalize strict w = .ok () w' →
        Body.read 0 {} w'.code.toList = some (Item.readings w.offset? 0 (items ++ padding items))) ∧
    (∀ (call : WriterCall) (w : CodeWriter), call.Proper w → call.Emits → ∃ w', call.run w = .ok () w') ∧
    ∀ (calls : List WriterCall) (items : List Item) (w : CodeWriter), new.Runs calls items w → w.Resolved →
      ∃ w', finalize true w = .ok () w' := by
  refine ⟨fun calls items w w' strict hruns hfinal => ?_, fun call w => run_of_emits, fun calls items w hruns hres => ?_⟩
  · obtain ⟨hplaces, hregs⟩ := hruns.places lays_new.toPlaces
    rw [List.nil_append] at hplaces
    have hlays := hplaces.lays_of_finalize hfinal
    have hout := finalize_outcome hlays strict
    rw [hfinal] at hout
    obtain ⟨-, hcode, hnear, -⟩ := hout
    rw [hcode]
    refine Item.read_render (fun i hi => ⟨hplaces.encodable_padded i hi, ?_⟩) (conditions_padding hplaces.conditions) ?_
    · rcases mem_padded hi with hi | rfl
      · exact hregs i hi
      · trivial
    · intro p l hmem
      rw [jumps_padding] at hmem
      have hl := Array.getElem?_eq_getElem (hplaces.known p l hmem)
      refine ⟨?_, fun t => hnear p l t hmem⟩
      rw [hlays.assigned_eq hmem hl, offset?_eq hl]
  · exact (hruns.places lays_new.toPlaces).1.finalize_iff.2 hres

/-- A jump over a call that saves register 15, a jump back to the top, and a return. -/
def jumpingCalls : List WriterCall :=
  [.push, .allocReg, .newLabel "end", .load 15 .global 70 0, .jump 2 (some 15), .call 100 1 .sync, .bindLabel 2,
    .jump 0 none, .sync .ret 0 0 0 0]

def jumpingReadings : List (Reading × Operands) :=
  [(.instr (.load 15 .global 70 0), ⟨1, 70, 0, 0⟩), (.jump (some 15) 8, { b := 4 }),
    (.instr (.call .sync 1 100 0x8000), ⟨0, 100, 0, 0x8000⟩), (.jump none 0, { b := 10 }), (.instr .ret, {}),
    (.instr .ret, {})]

theorem runs_jumpingCalls :
    ∃ items w w', new.Runs jumpingCalls items w ∧ finalize true w = .ok () w' ∧
      Item.readings w.offset? 0 (items ++ padding items) = jumpingReadings := by
  refine ⟨_, _, _, .cons trivial rfl (.cons trivial rfl (.cons trivial rfl (.cons ?_ rfl (.cons ⟨?_, ?_⟩ rfl
    (.cons trivial rfl (.cons ?_ rfl (.cons ⟨?_, nofun⟩ rfl (.cons trivial rfl (.nil _))))))))), rfl, rfl⟩
  · exact (by decide : 15 < 16)
  · exact (by decide : 2 < 3)
  · rintro _ ⟨⟩
    decide
  · exact (by decide : 2 < 3)
  · exact (by decide : 0 < 3)

theorem code_is_read_as_it_was_written_jumping :
    ∃ items w w', new.Runs jumpingCalls items w ∧ finalize true w = .ok () w' ∧
      Body.read 0 {} w'.code.toList = some jumpingReadings := by
  obtain ⟨items, w, w', hruns, hfinal, hreadings⟩ := runs_jumpingCalls
  refine ⟨items, w, w', hruns, hfinal, ?_⟩
  rw [← hreadings]
  exact code_is_read_as_it_was_written.1 jumpingCalls items w w' true hruns hfinal

end CodeWriter

def Defect.concernsLabel : Defect → Bool
  | .neverBound _ | .boundTwice _ | .jumpToItself _ => true
  | _ => false

/-- Labels stand where their jumps go. No script makes a label that is used and never bound, one that is bound twice, or
a jump to itself. If it has no problems, then in each of its procedures every label stands inside the code, and every
jump, as it is read, goes to where its label stands, which is the start of an instruction. The same holds of whatever
calls were made of a new writer, and those can be patched exactly if the labels that are used are bound somewhere else
than at their jumps and within reach. -/
theorem labels_stand_where_their_jumps_go :
    (∀ (c : Catalog) (options : CompileOptions) (script : List Stmt) (defect : Defect), defect.concernsLabel = true →
      draftOf c options script ≠ .error (.abort defect)) ∧
    (∀ (c : Catalog) (options : CompileOptions) (script : List Stmt) (d : Draft),
      draftOf c options script = .ok d → d.findings.count = 0 →
      ∀ p ∈ d.procedures, p.writer.Linked ∧
        ∀ l, l < p.writer.labels.size → ∃ o, p.writer.offset? l = some o ∧ o < p.writer.code.size) ∧
    ∀ (calls : List WriterCall) (items : List Item) (w : CodeWriter), CodeWriter.new.Runs calls items w →
      ((∃ w', CodeWriter.finalize true w = .ok () w') ↔ w.Resolved) ∧
        ∀ w', CodeWriter.finalize true w = .ok () w' → w'.labels = w.labels ∧ w'.Linked := by
  refine ⟨fun c options script defect hlabel herror => ?_,
    fun c options script d h hclean p hp => Draft.linked_of_draftOf h hclean hp, fun calls items w hruns => ?_⟩
  · rcases Draft.draftOf_cases c options script False.elim with ⟨d, hd, -⟩ | ⟨other, hd, hlimit, -⟩
    · rw [herror] at hd
      cases hd
    · rw [herror] at hd
      cases hd
      cases defect with
      | neverBound | boundTwice | jumpToItself => exact hlimit
      | _ => cases hlabel
  · obtain ⟨hplaces, -⟩ := hruns.places CodeWriter.lays_new.toPlaces
    refine ⟨hplaces.finalize_iff, fun w' hfinal => ?_⟩
    obtain ⟨hlabels, -, hlinked⟩ := hplaces.linked hfinal
    exact ⟨hlabels, hlinked⟩

theorem labels_stand_where_their_jumps_go_subscribing :
    (∃ d, draftOf Catalog.builtin {} subscribingScript = .ok d ∧ d.findings.count = 0 ∧ d.procedures.size = 4 ∧
      ∀ p ∈ d.procedures, p.writer.Linked ∧
        ∀ l, l < p.writer.labels.size → ∃ o, p.writer.offset? l = some o ∧ o < p.writer.code.size) ∧
    ∃ items w w', CodeWriter.new.Runs CodeWriter.jumpingCalls items w ∧ CodeWriter.finalize true w = .ok () w' ∧
      w.Resolved ∧ w'.labels = w.labels ∧ w'.Linked := by
  have hfits : draftFits Catalog.builtin subscribingScript 0 4 = true := by decide +kernel
  obtain ⟨d, hd, hclean, hcount, -⟩ := exists_of_draftFits hfits
  obtain ⟨items, w, w', hruns, hfinal, -⟩ := CodeWriter.runs_jumpingCalls
  obtain ⟨hres, hlinked⟩ := labels_stand_where_their_jumps_go.2.2 CodeWriter.jumpingCalls items w hruns
  exact ⟨⟨d, hd, hclean, hcount, labels_stand_where_their_jumps_go.2.1 _ _ _ d hd hclean⟩,
    items, w, w', hruns, hfinal, hres.1 ⟨w', hfinal⟩, hlinked w' hfinal⟩

end BusScript
