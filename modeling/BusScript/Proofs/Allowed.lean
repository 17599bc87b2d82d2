import BusScript.Proofs.Bodies

namespace BusScript

/-- How many there are of what the instructions of one function name. -/
structure Bounds where
  locals : Nat
  regs : Nat
  globals : Nat
  floats : Nat
  roles : Nat
  strings : Nat
  /-- How many arguments a function takes at most. -/
  callee : Nat → Option Nat

namespace Bounds

def HasCell (b : Bounds) (kind : CellKind) (index c : Nat) : Prop :=
  match kind with
  | .local => index < b.locals
  | .global => index < b.globals
  | .floatConst => index < b.floats
  | .identity => True
  | .buffer => ∃ format, FieldFormat.ofCode? (index % 16) = some format ∧ index / 16 ≤ format.bits ∧
    c + format.size ≤ maxPayload
  | .special => index ≤ 0xff ∧ (SpecialValue.ofCode? index).isSome
  | .roleProperty => index < b.roles ∧ c ≤ 0xff ∧ (RoleProperty.ofCode? c).isSome

def Saves (b : Bounds) (mask : Nat) : Prop := mask ≤ 0xffff ∧ (RegSet.mk mask).size ≤ b.regs

/-- What a function has beside what another one has, no less of anything. -/
structure Le (b b' : Bounds) : Prop where
  locals : b.locals ≤ b'.locals
  regs : b.regs ≤ b'.regs
  globals : b.globals ≤ b'.globals
  floats : b.floats ≤ b'.floats
  roles : b.roles ≤ b'.roles
  strings : b.strings ≤ b'.strings
  callee : ∀ i n, b.callee i = some n → ∃ n', b'.callee i = some n' ∧ n ≤ n'

variable {b b' : Bounds}

theorem HasCell.mono {kind : CellKind} {index c : Nat} (h : b.HasCell kind index c) (hle : b.Le b') :
    b'.HasCell kind index c := by
  cases kind with
  | «local» => exact Nat.lt_of_lt_of_le h hle.locals
  | global => exact Nat.lt_of_lt_of_le h hle.globals
  | floatConst => exact Nat.lt_of_lt_of_le h hle.floats
  | identity | buffer | special => exact h
  | roleProperty => exact ⟨Nat.lt_of_lt_of_le h.1 hle.roles, h.2⟩

theorem Saves.mono {mask : Nat} (h : b.Saves mask) (hle : b.Le b') : b'.Saves mask :=
  ⟨h.1, Nat.le_trans h.2 hle.regs⟩

end Bounds

namespace Instr

/-- Whether an instruction names only what there is. A move to one of sixteen registers beyond the last
is another operation on the first sixteen. -/
def Allowed (b : Bounds) : Instr → Prop
  | .unary op dst src => src < 16 ∧ (dst < 16 ∨ op = .id ∧ dst < 32)
  | .binary _ dst src => dst < 16 ∧ src < 16
  | .load _ kind index c => b.HasCell kind index c
  | .store _ kind index c => Image.CellKind.isStorable kind = true ∧ b.HasCell kind index c
  | .call kind numArgs function saved =>
    (∃ n, b.callee function = some n ∧ numArgs ≤ n) ∧ (kind = .sync → b.Saves saved) ∧ (kind ≠ .sync → saved = 0)
  | .sync .ret _ _ _ _ => True
  | .sync .panic _ _ _ _ => True
  | .sync .setupBuffer a _ _ _ => a ≤ maxPayload
  | .sync .observeRole a _ _ _ => a < b.roles
  | .sync .format a _ c _ => a < b.strings ∧ c ≤ maxPayload
  | .sync .memcpy a _ c _ => a < b.strings ∧ c ≤ maxPayload
  | .sync .logFormat a _ _ _ => a < b.strings
  | .sync .math1 a _ _ _ => ∃ op : Math1, a = op.code
  | .sync .math2 a _ _ _ => ∃ op : Math2, a = op.code
  | .async .queryReg a _ _ saved => a < b.roles ∧ b.Saves saved
  | .async .sendCmd a _ _ saved => a < b.roles ∧ b.Saves saved
  | .async .pause _ _ _ saved => b.Saves saved
  | .async .cloudUpload _ _ _ saved => b.Saves saved

theorem Allowed.mono {b b' : Bounds} {i : Instr} (h : i.Allowed b) (hle : b.Le b') : i.Allowed b' := by
  cases i with
  | unary | binary => exact h
  | load dst kind index c => exact Bounds.HasCell.mono h hle
  | store src kind index c => exact ⟨h.1, Bounds.HasCell.mono h.2 hle⟩
  | call kind numArgs function saved =>
    obtain ⟨⟨n, hn, hargs⟩, hsaved⟩ := h
    obtain ⟨n', hn', hle'⟩ := hle.callee function n hn
    exact ⟨⟨n', hn', Nat.le_trans hargs hle'⟩, fun hsync => (hsaved.1 hsync).mono hle, hsaved.2⟩
  | sync op a _ c _ =>
    cases op with
    | observeRole => exact Nat.lt_of_lt_of_le h hle.roles
    | format | memcpy => exact ⟨Nat.lt_of_lt_of_le h.1 hle.strings, h.2⟩
    | logFormat => exact Nat.lt_of_lt_of_le h hle.strings
    | _ => exact h
  | async op a _ _ saved =>
    cases op with
    | queryReg | sendCmd => exact ⟨Nat.lt_of_lt_of_le h.1 hle.roles, h.2.mono hle⟩
    | pause | cloudUpload => exact Bounds.Saves.mono h hle

end Instr

namespace Image

variable {image : Image} {f : FunctionInfo}

def bounds (image : Image) (f : FunctionInfo) : Bounds where
  locals := f.numLocals
  regs := f.numRegs
  globals := image.numGlobals
  floats := image.floats.size
  roles := image.roles.size
  strings := image.strings.size
  callee i := image.functions[i]?.map (·.numLocals)

theorem cellKind_code_mod (kind : CellKind) : CellKind.ofCode? (kind.code % 256) = some kind := by
  cases kind <;> rfl

theorem cellExists_of_hasCell {kind : CellKind} {p : Operands}
    (h : (image.bounds f).HasCell kind p.b p.c) : cellExists image f kind p = .ok true := by
  cases kind with
  | «local» | global | floatConst => exact congrArg Except.ok (decide_eq_true h)
  | identity => rfl
  | buffer =>
    obtain ⟨format, hformat, hshift, hend⟩ := h
    simp [cellExists, hformat, hshift, hend, pure, Except.pure]
  | special =>
    obtain ⟨hle, hsome⟩ := h
    have hmod : p.b % 256 = p.b := by omega
    simp [cellExists, hmod, hsome, hle, pure, Except.pure]
  | roleProperty =>
    obtain ⟨hrole, hle, hsome⟩ := h
    have hmod : p.c % 256 = p.c := by omega
    have hrole : p.b < image.roles.size := hrole
    simp [cellExists, hmod, hsome, hrole, pure, Except.pure]

theorem checkSaved_of_saves {mask : Nat} (h : (image.bounds f).Saves mask) : checkSaved f mask = .ok () :=
  checkSaved_iff.2 h

theorem checkSync_of_allowed {op : SyncOp} {a b c d : Nat} (henc : (Instr.sync op a b c d).Encodable)
    (h : (Instr.sync op a b c d).Allowed (image.bounds f)) :
    checkSync image (Instr.sync op a b c d).lastWord ⟨a, b, c, d⟩ = .ok () := by
  rw [checkSync, Instr.syncOp_lastWord henc]
  cases op with
  | ret => rfl
  | panic => rfl
  | setupBuffer | observeRole | logFormat => exact ensure_iff.2 (decide_eq_true h)
  | format | memcpy =>
    refine Except.bind_ok_iff.2 ⟨(), ensure_iff.2 (decide_eq_true h.1), ?_⟩
    exact ensure_iff.2 (decide_eq_true h.2)
  | math1 | math2 =>
    obtain ⟨op, rfl⟩ := h
    cases op <;> rfl

theorem checkAsync_of_allowed {op : AsyncOp} {a b c d : Nat} (henc : (Instr.async op a b c d).Encodable)
    (h : (Instr.async op a b c d).Allowed (image.bounds f)) :
    checkAsync image f (Instr.async op a b c d).lastWord ⟨a, b, c, d⟩ = .ok () := by
  obtain ⟨-, harg⟩ := Instr.subopWord_fields .async (Instr.asyncCode_lt op) henc.arg
  have hop : AsyncOp.ofCode? (Instr.async op a b c d).lastWord.arg8 = some op :=
    harg ▸ AsyncOp.ofCode?_code op
  rw [checkAsync, hop]
  cases op with
  | queryReg | sendCmd =>
    exact Except.bind_ok_iff.2 ⟨(), ensure_iff.2 (decide_eq_true h.1), checkSaved_of_saves h.2⟩
  | pause | cloudUpload => exact checkSaved_of_saves h

theorem unaryCode_lastWord {op : UnaryOp} {dst src : Nat} (henc : (Instr.unary op dst src).Encodable)
    (hsrc : src < 16) (hdst : dst < 16 ∨ op = .id ∧ dst < 32) :
    ∃ op', UnaryOp.ofCode? (Instr.unary op dst src).lastWord.high4 = some op' := by
  by_cases hlow : dst < 16
  · obtain ⟨hhigh, -⟩ := Instr.regsWord_fields .unary hlow hsrc henc.arg
    exact ⟨op, hhigh ▸ UnaryOp.ofCode?_code op⟩
  · -- the fifth bit of the register runs into the code of the operation
    obtain ⟨rfl, hdst⟩ := hdst.resolve_left hlow
    have harg : (Instr.unary .id dst src).form.arg = UnaryOp.neg.code * 256 ||| (dst - 16) * 16 ||| src := by
      simp only [Instr.form, UnaryOp.code]
      have hsplit : 1 * 2 ^ 8 ||| (dst - 16) * 16 = 1 * 2 ^ 8 + (dst - 16) * 16 :=
        or_eq_add 8 (by omega)
      grind
    have henc := henc.arg
    rw [harg] at henc
    obtain ⟨hhigh, -⟩ := Instr.regsWord_fields .unary (by omega : dst - 16 < 16) hsrc henc
    refine ⟨.neg, ?_⟩
    rw [Instr.lastWord, harg]
    exact (congrArg UnaryOp.ofCode? hhigh).trans (UnaryOp.ofCode?_code .neg)

theorem checkCall_of_allowed {kind : CallKind} {numArgs function saved : Nat}
    (henc : (Instr.call kind numArgs function saved).Encodable)
    (h : (Instr.call kind numArgs function saved).Allowed (image.bounds f)) :
    checkCall image f (Instr.call kind numArgs function saved).lastWord ⟨0, function, 0, saved⟩ = .ok () := by
  obtain ⟨hhigh, hkind, -⟩ := Instr.cellWord_fields .call (Instr.callCode_lt kind)
    (Nat.mod_lt function (by decide : 0 < 64)) henc.arg
  obtain ⟨⟨n, hn, hargs⟩, hsync, hbackground⟩ := h
  obtain ⟨callee, hcallee, rfl⟩ := Option.map_eq_some_iff.1 hn
  refine checkCall_iff.2 ⟨kind, callee, ?_, hcallee, ?_, ?_⟩
  · exact (congrArg CallKind.ofCode? hkind).trans (CallKind.ofCode?_code kind)
  · exact Nat.le_trans (Nat.le_of_eq hhigh) hargs
  · split
    · next h => exact checkSaved_of_saves (hsync h)
    · next h => exact hbackground h

theorem checkWord_of_allowed {i : Instr} (henc : i.Encodable) (h : i.Allowed (image.bounds f))
    (length n : Nat) : checkWord image f length n i.lastWord i.seen = .ok () := by
  rw [checkWord, Instr.opClass?_lastWord henc]
  cases i with
  | unary op dst src =>
    obtain ⟨op', hop⟩ := unaryCode_lastWord henc h.1 h.2
    exact ensure_iff.2 (by rw [hop]; rfl)
  | binary op dst src =>
    obtain ⟨hhigh, -⟩ := Instr.regsWord_fields .binary h.1 h.2 henc.arg
    have hop : BinaryOp.ofCode? (Instr.binary op dst src).lastWord.high4 = some op :=
      hhigh ▸ BinaryOp.ofCode?_code op
    exact ensure_iff.2 (by rw [hop]; rfl)
  | load dst kind index c =>
    exact checkCell_iff.2 ⟨kind, cellKind_code_mod kind, nofun, cellExists_of_hasCell h⟩
  | store src kind index c =>
    exact checkCell_iff.2 ⟨kind, cellKind_code_mod kind, fun _ => h.1, cellExists_of_hasCell h.2⟩
  | call kind numArgs function saved => exact checkCall_of_allowed henc h
  | sync op a b c d => exact checkSync_of_allowed henc h
  | async op a b c saved => exact checkAsync_of_allowed henc h

theorem checked_of_rows {target : Nat → Option Nat} {items : List Item} {cs : List Chunk}
    (h : Item.Rows target 0 items cs) (henc : ∀ i, .instr i ∈ items → i.Encodable)
    (hallowed : ∀ i, .instr i ∈ items → i.Allowed (image.bounds f))
    (hgoals : ∀ p l, (p, l) ∈ Item.jumps 0 items → Item.goal target p < Item.extent items) :
    Checked image f (Chunk.body cs) := by
  refine Body.checked_body fun k c hk => ?_
  obtain ⟨item, hitem, hbecomes⟩ := h.exists_item hk
  have hmem := List.mem_of_getElem? hitem
  cases item with
  | instr i =>
    obtain ⟨-, hword, hseen⟩ := hbecomes
    rw [hword, hseen]
    exact checkWord_of_allowed (henc i hmem) (hallowed i hmem) _ _
  | jump label ifZero =>
    obtain ⟨hlt, -⟩ := List.getElem?_eq_some_iff.1 hitem
    obtain ⟨hfront, hclass, -, -, hgoal, hback⟩ := hbecomes
    have hplace := Item.mem_jumps_of_getElem? 0 hitem
    have hinside := hgoals _ _ hplace
    rw [Nat.zero_add] at hgoal hback hinside
    rw [checkWord, hclass, h.offset_eq (Nat.le_of_lt hlt), hfront, h.size_body]
    exact checkJump_iff.2 ⟨hback, hgoal ▸ hinside⟩

end Image

end BusScript
