import Mathlib
import BusScript.Proofs.Bodies
import BusScript.Proofs.Stepping

namespace BusScript

structure Store where
  registers : Registers
  globals : Array Number

namespace Store

theorem get_set (v : Registers) (i j : Reg) (x : Number) :
    (v.set i x i.isLt).get j = if j = i then x else v.get j := by
  have hget : ∀ w : Registers, w.get j = w[j.val] := fun _ => rfl
  grind

def get (s : Store) (r : Nat) : Number := s.registers.get (Reg.ofNat r)

def put (s : Store) (r : Nat) (x : Number) : Store :=
  { s with registers := s.registers.set (Reg.ofNat r).val x (Reg.ofNat r).isLt }

theorem get_put (s : Store) {r q : Nat} (hr : r < 16) (hq : q < 16) (x : Number) :
    (s.put r x).get q = if q = r then x else s.get q := by
  have hiff : Reg.ofNat q = Reg.ofNat r ↔ q = r := by
    rw [Reg.ofNat, Reg.ofNat, Fin.ext_iff, Fin.val_ofNat, Fin.val_ofNat, Nat.mod_eq_of_lt hq, Nat.mod_eq_of_lt hr]
  rw [get, put, get_set]
  simp only [hiff]
  rfl

@[simp] theorem get_put_self (s : Store) (r : Nat) (x : Number) : (s.put r x).get r = x := by
  rw [get, put, get_set, if_pos rfl]

end Store

/-- What a function of one operand gives; none if it is not a function. -/
def Math1.value? : Math1 → Number → Option Number
  | .floor, x => some x.floor
  | .round, x => some x.roundHalfUp
  | .ceil, x => some x.ceil
  | .logE, x => some x.log
  | .random, _ => none

namespace Instr

def loaded (floats : Array Number) (s : Store) (kind : CellKind) (index : Nat) : Option Number :=
  match kind with
  | .global => s.globals[index]?
  | .floatConst => floats[index]?
  | .identity => some (Number.ofNat index)
  | .special => if index = SpecialValue.nan.code then some Number.nan else none
  | _ => none

def effect (floats : Array Number) (s : Store) : Instr → Option Store
  | .unary op dst src => if dst < 16 ∧ src < 16 then some (s.put dst (op.eval (s.get src))) else none
  | .binary op dst src =>
    if dst < 16 ∧ src < 16 then some (s.put dst (op.eval (s.get dst) (s.get src))) else none
  | .load dst kind index _ => (loaded floats s kind index).map (s.put dst)
  | .store src .global index _ =>
    if index < s.globals.size then some { s with globals := s.globals.setIfInBounds index (s.get src) } else none
  | .sync .math1 code _ _ _ => ((Math1.ofCode? code).bind fun op => op.value? (s.get 0)).map (s.put 0)
  | .sync .math2 code _ _ _ => (Math2.ofCode? code).map fun op => s.put 0 (op.eval (s.get 0) (s.get 1))
  | _ => none

def effects (floats : Array Number) (s : Store) : List Instr → Option Store
  | [] => some s
  | i :: rest => (i.effect floats s).bind fun s' => effects floats s' rest

theorem effects_append (floats : Array Number) (s : Store) (code more : List Instr) :
    effects floats s (code ++ more) = (effects floats s code).bind fun s' => effects floats s' more := by
  induction code generalizing s with
  | nil => rfl
  | cons i rest ih =>
    rw [List.cons_append, effects, effects, Option.bind_assoc]
    exact congrArg _ (funext ih)

end Instr

/-- A machine whose only fiber is `f`, at word `pc` of the image and with some operands collected. -/
def Machine.collecting (m : Machine) (f : Fiber) (pc : Nat) (p : Operands) (s : Store) : Machine :=
  { m with
    registers := s.registers
    globals := s.globals
    operands := p
    fibers := [{ f with frame := { f.frame with pc } }] }

def Machine.standing (m : Machine) (f : Fiber) (pc : Nat) (s : Store) : Machine := m.collecting f pc {} s

def Image.Carries (image : Image) (pc : Nat) (ws : List Word) : Prop :=
  ∀ (k : Nat) (w : Word), ws[k]? = some w → image.words[pc + k]? = some w

namespace Image.Carries

variable {image : Image} {pc : Nat} {ws vs : List Word}

theorem left (h : image.Carries pc (ws ++ vs)) : image.Carries pc ws := fun k w hk =>
  h k w (by rw [List.getElem?_append_left (List.getElem?_eq_some_iff.1 hk).1, hk])

theorem right (h : image.Carries pc (ws ++ vs)) : image.Carries (pc + ws.length) vs := fun k w hk => by
  rw [Nat.add_assoc]
  exact h (ws.length + k) w (by rw [List.getElem?_append_right (Nat.le_add_right ..), Nat.add_sub_cancel_left, hk])

theorem head {w : Word} (h : image.Carries pc (w :: vs)) : image.words[pc]? = some w := h 0 w rfl

theorem tail {w : Word} (h : image.Carries pc (w :: vs)) : image.Carries (pc + 1) vs :=
  @right image pc [w] vs h

end Image.Carries

theorem Word.val_highReg (w : Word) : w.highReg.val = w.high4 := by
  rw [highReg, Reg.ofNat, Fin.val_ofNat, high4, arg12]
  omega

namespace Stepping

variable {m : Machine} {f : Fiber} {pc : Nat} {s : Store}

variable {w : Word} {p : Operands}

theorem step_prefix {q : Operands} (hword : m.image.words[pc]? = some w) (hq : p.absorb? w = some q) :
    step 0 (m.collecting f pc p s) = .ok .next (m.collecting f (pc + 1) q s) := by
  simp only [step, fiber, bind, EStateM.bind, get, getThe, MonadStateOf.get, EStateM.get, modifyFrame, modifyFiber, modify,
    modifyGet, MonadStateOf.modifyGet, EStateM.modifyGet, pure, EStateM.pure, Machine.collecting,
    List.getElem?_cons_zero, hword, hq]
  rfl

theorem step_word (hword : m.image.words[pc]? = some w) (hp : p.absorb? w = none) :
    step 0 (m.collecting f pc p s) = execute 0 w (p.resolve w) (m.standing f (pc + 1) s) := by
  simp only [step, fiber, bind, EStateM.bind, get, getThe, MonadStateOf.get, EStateM.get, modifyFrame, modifyFiber, modify,
    modifyGet, MonadStateOf.modifyGet, EStateM.modifyGet, pure, EStateM.pure, Machine.collecting,
    List.getElem?_cons_zero, hword, hp]
  rfl

theorem runWords_front {front : List Word} (hfront : m.image.Carries pc front)
    (hwords : ∀ w ∈ front, w.isOperandPrefix = true) (p : Operands) (budget left : Nat) :
    runWords 0 budget (left + front.length) (m.collecting f pc p s) =
      runWords 0 budget left (m.collecting f (pc + front.length) (p.collect front) s) := by
  induction front generalizing pc p with
  | nil => rfl
  | cons w rest ih =>
    obtain ⟨q, hq⟩ := Option.isSome_iff_exists.1 (Operands.absorb?_isSome_iff.2 (hwords w (by simp)))
    have hstep : step 0 (m.collecting f pc p s) = .ok .next (m.collecting f (pc + 1) q s) := step_prefix hfront.head hq
    have hrun : runWords 0 budget (left + rest.length + 1) (m.collecting f pc p s) =
        runWords 0 budget (left + rest.length) (m.collecting f (pc + 1) q s) := by
      rw [runWords, bind_of_ok hstep]
    rw [List.length_cons, ← Nat.add_assoc, hrun, ih hfront.tail fun v hv => hwords v (by simp [hv]),
      Operands.collect_cons hq]
    congr 2
    omega

theorem reg_eq {r : Reg} {n : Nat} (h : r.val = n) : r = Reg.ofNat n := by
  subst h
  exact Fin.ext (Nat.mod_eq_of_lt r.isLt).symm

variable {dst src : Nat} {x : Number}

theorem execute_unary (hclass : w.opClass? = some .unary) {op : UnaryOp}
    (hop : w.high4 = op.code) (hdst : w.dstReg.val = dst) (hsrc : w.srcReg.val = src) (p : Operands) :
    execute 0 w p (m.standing f pc s) = .ok .next (m.standing f pc (s.put dst (op.eval (s.get src)))) := by
  have hrun : execute 0 w p = (do
      let op ← known w.high4 (UnaryOp.ofCode? w.high4)
      writeReg w.dstReg (op.eval (← readReg w.srcReg))
      return .next) := by
    rw [execute, hclass]
    rfl
  rw [hrun, hop, UnaryOp.ofCode?_code, reg_eq hdst, reg_eq hsrc]
  rfl

theorem execute_binary (hclass : w.opClass? = some .binary) {op : BinaryOp}
    (hop : w.high4 = op.code) (hdst : w.dstReg.val = dst) (hsrc : w.srcReg.val = src) (p : Operands) :
    execute 0 w p (m.standing f pc s) =
      .ok .next (m.standing f pc (s.put dst (op.eval (s.get dst) (s.get src)))) := by
  have hrun : execute 0 w p = (do
      let op ← known w.high4 (BinaryOp.ofCode? w.high4)
      writeReg w.dstReg (op.eval (← readReg w.dstReg) (← readReg w.srcReg))
      return .next) := by
    rw [execute, hclass]
    rfl
  rw [hrun, hop, BinaryOp.ofCode?_code, reg_eq hdst, reg_eq hsrc]
  rfl

theorem loadCell_standing {kind : CellKind} {index c : Nat}
    (hx : Instr.loaded m.image.floats s kind index = some x) :
    loadCell 0 kind.code index c (m.standing f pc s) = .ok x (m.standing f pc s) := by
  rw [loadCell, CellKind.ofCode?_code]
  rw [Instr.loaded.eq_def] at hx
  split at hx
  · change ofOption s.globals[index]? _ _ _ = _
    rw [hx]
    rfl
  · change ofOption m.image.floats[index]? _ _ _ = _
    rw [hx]
    rfl
  · cases hx
    rfl
  · split at hx
    · next hindex =>
      cases hx
      rw [hindex]
      rfl
    · cases hx
  · cases hx

theorem execute_load (hclass : w.opClass? = some .loadCell) (hdst : w.highReg.val = dst)
    {kind : CellKind} (hkind : p.a = kind.code)
    (hx : Instr.loaded m.image.floats s kind p.b = some x) :
    execute 0 w p (m.standing f pc s) = .ok .next (m.standing f pc (s.put dst x)) := by
  have hrun : execute 0 w p = (do
      writeReg w.highReg (← loadCell 0 p.a p.b p.c)
      return .next) := by
    rw [execute, hclass]
    rfl
  rw [hrun, hkind, reg_eq hdst, bind_of_ok (loadCell_standing hx)]
  rfl

theorem execute_store (hclass : w.opClass? = some .storeCell) (hsrc : w.highReg.val = src)
    (hkind : p.a = CellKind.global.code) (hindex : p.b < s.globals.size) : execute 0 w p (m.standing f pc s) =
      .ok .next (m.standing f pc { s with globals := s.globals.setIfInBounds p.b (s.get src) }) := by
  have hrun : execute 0 w p = (do
      storeCell 0 p.a p.b p.c (← readReg w.highReg)
      return .next) := by
    rw [execute, hclass]
    rfl
  have hstore : storeCell 0 CellKind.global.code p.b p.c (s.get src) (m.standing f pc s) =
      (if p.b < s.globals.size then
        modify fun m => { m with globals := m.globals.setIfInBounds p.b (s.get src) }
      else invalid (.noCell CellKind.global.code p.b) : Stepping Unit) (m.standing f pc s) := rfl
  rw [if_pos hindex] at hstore
  rw [hrun, hkind, reg_eq hsrc]
  change (storeCell 0 CellKind.global.code p.b p.c (s.get src) >>= fun _ => pure Flow.next) _ = _
  simp only [bind, EStateM.bind, hstore]
  rfl

theorem execute_math1 (hclass : w.opClass? = some .sync) (hop : w.arg8 = SyncOp.math1.code)
    {op : Math1} (hcode : Math1.ofCode? p.a = some op) (hx : op.value? (s.get 0) = some x) :
    execute 0 w p (m.standing f pc s) = .ok .next (m.standing f pc (s.put 0 x)) := by
  have hrun : execute 0 w p = (do
      math1 (← known p.a (Math1.ofCode? p.a))
      return .next) := by
    rw [execute, hclass, hop]
    rfl
  rw [hrun, hcode]
  cases op <;> cases hx <;> rfl

theorem execute_math2 (hclass : w.opClass? = some .sync) (hop : w.arg8 = SyncOp.math2.code)
    {op : Math2} (hcode : Math2.ofCode? p.a = some op) : execute 0 w p (m.standing f pc s) =
      .ok .next (m.standing f pc (s.put 0 (op.eval (s.get 0) (s.get 1)))) := by
  have hrun : execute 0 w p = (do
      let op ← known p.a (Math2.ofCode? p.a)
      writeReg .first (op.eval (← readReg .first) (← readReg .second))
      return .next) := by
    rw [execute, hclass, hop]
    rfl
  rw [hrun, hcode]
  rfl

theorem execute_instr {i : Instr} (henc : i.Encodable) {s' : Store} (heff : i.effect m.image.floats s = some s') :
    execute 0 i.lastWord i.seen (m.standing f pc s) = .ok .next (m.standing f pc s') := by
  have hclass := Instr.opClass?_lastWord henc
  have harg := henc.arg
  rw [Instr.effect.eq_def] at heff
  split at heff
  · next op dst src =>
    split at heff
    · next hlow =>
      cases heff
      obtain ⟨hop, hdst, hsrc⟩ := Instr.regsWord_fields .unary hlow.1 hlow.2 harg
      exact execute_unary hclass hop hdst hsrc _
    · cases heff
  · next op dst src =>
    split at heff
    · next hlow =>
      cases heff
      obtain ⟨hop, hdst, hsrc⟩ := Instr.regsWord_fields .binary hlow.1 hlow.2 harg
      exact execute_binary hclass hop hdst hsrc _
    · cases heff
  · next dst kind index c =>
    obtain ⟨x, hx, rfl⟩ := Option.map_eq_some_iff.1 heff
    obtain ⟨hdst, -, -⟩ := Instr.cellWord_fields .loadCell (Nat.mod_lt _ (by decide)) (Nat.mod_lt _ (by decide)) harg
    exact execute_load hclass ((Word.val_highReg _).trans hdst) rfl hx
  · next src index c =>
    split at heff
    · next hindex =>
      cases heff
      obtain ⟨hsrc, -, -⟩ := Instr.cellWord_fields .storeCell (Nat.mod_lt _ (by decide)) (Nat.mod_lt _ (by decide)) harg
      exact execute_store hclass ((Word.val_highReg _).trans hsrc) rfl hindex
    · cases heff
  · next code b c d =>
    obtain ⟨x, hx, rfl⟩ := Option.map_eq_some_iff.1 heff
    obtain ⟨op, hcode, hx⟩ := Option.bind_eq_some_iff.1 hx
    exact execute_math1 hclass (Instr.subopWord_fields .sync (Instr.syncCode_lt .math1) harg).2 hcode hx
  · next code b c d =>
    obtain ⟨op, hcode, rfl⟩ := Option.map_eq_some_iff.1 heff
    exact execute_math2 hclass (Instr.subopWord_fields .sync (Instr.syncCode_lt .math2) harg).2 hcode
  · cases heff

theorem jump_standing (w : Word) {distance : Nat} (hback : w.jumpsBack = true → distance ≤ pc) :
    jump 0 w distance (m.standing f pc s) = .ok () (m.standing f
      (if w.jumpsIfZero && (s.get w.high4).truthy then pc
      else if w.jumpsBack then pc - distance else pc + distance) s) := by
  have hreg : (m.standing f pc s).registers.get w.highReg = s.get w.high4 := by
    rw [reg_eq (Word.val_highReg w)]
    rfl
  rw [jump]
  simp only [bind, EStateM.bind, readReg, get, getThe, MonadStateOf.get, EStateM.get, pure, EStateM.pure, hreg]
  split
  · rfl
  · cases hb : w.jumpsBack with
    | true =>
      change (if pc < distance then _ else _ : Stepping Unit) _ = _
      rw [if_neg (Nat.not_lt.2 (hback hb))]
      rfl
    | false => rfl

theorem execute_jump (hclass : w.opClass? = some .jump) (hback : w.jumpsBack = true → p.b ≤ pc) :
    execute 0 w p (m.standing f pc s) = .ok .next (m.standing f
      (if w.jumpsIfZero && (s.get w.high4).truthy then pc
      else if w.jumpsBack then pc - p.b else pc + p.b) s) := by
  have hrun : execute 0 w p = (do
      jump 0 w p.b
      return .next) := by
    rw [execute, hclass]
    rfl
  rw [hrun, bind_of_ok (jump_standing w hback)]
  rfl

end Stepping

/-- Running takes the machine on from one instruction to another one further down, through as many words at most as
there are in between. -/
def Machine.RunsTo (m : Machine) (f : Fiber) (pc : Nat) (s : Store) (pc' : Nat) (s' : Store) : Prop :=
  ∃ n, pc + n ≤ pc' ∧ ∀ budget left, Stepping.runWords 0 budget (left + n) (m.standing f pc s) =
    Stepping.runWords 0 budget left (m.standing f pc' s')

namespace Machine.RunsTo

variable {m : Machine} {f : Fiber} {pc pc' pc'' : Nat} {s s' s'' : Store}

theorem refl (m : Machine) (f : Fiber) (pc : Nat) (s : Store) : m.RunsTo f pc s pc s := ⟨0, Nat.le_refl _, fun _ _ => rfl⟩

theorem trans (h : m.RunsTo f pc s pc' s') (h' : m.RunsTo f pc' s' pc'' s'') : m.RunsTo f pc s pc'' s'' := by
  obtain ⟨n, hle, hrun⟩ := h
  obtain ⟨n', hle', hrun'⟩ := h'
  refine ⟨n' + n, by omega, fun budget left => ?_⟩
  rw [← Nat.add_assoc, hrun, hrun']

theorem chunk {c : Chunk} (hwords : m.image.Carries pc c.words) (hle : pc + c.words.length ≤ pc')
    (hexec : Stepping.execute 0 c.word c.seen (m.standing f (pc + c.words.length) s) =
      .ok .next (m.standing f pc' s')) : m.RunsTo f pc s pc' s' := by
  have hlen := c.length_words
  refine ⟨c.words.length, hle, fun budget left => ?_⟩
  have hlast : m.image.words[pc + c.front.length]? = some c.word := hwords.right.head
  have hstep : Stepping.step 0 (m.collecting f (pc + c.front.length) (Operands.collect {} c.front) s) =
      .ok .next (m.standing f pc' s') := by
    rw [Stepping.step_word hlast (Operands.absorb?_eq_none_iff.2 c.word_noPrefix), ← hexec, hlen]
    rfl
  rw [hlen, show left + (c.front.length + 1) = left + 1 + c.front.length by omega, standing,
    Stepping.runWords_front hwords.left c.front_prefix, Stepping.runWords]
  simp only [bind, EStateM.bind, hstep]

theorem instr {i : Instr} (henc : i.Encodable) (hcarries : m.image.Carries pc i.words)
    (heff : i.effect m.image.floats s = some s') : m.RunsTo f pc s (pc + i.words.length) s' := by
  obtain ⟨c, hwords, -, hword, hseen⟩ := Item.exists_instrChunk 0 (fun _ => none) henc
  rw [← hwords] at hcarries ⊢
  refine .chunk hcarries (Nat.le_refl _) ?_
  rw [hword, hseen]
  exact Stepping.execute_instr henc heff

end Machine.RunsTo

structure Item.Placed (image : Image) (start : Nat) (target : Nat → Option Nat) (items : List Item) : Prop where
  carries : image.Carries start (render target 0 items)
  encodable : ∀ i, .instr i ∈ items → i.Encodable
  conditions : Conditions items
  near : ∀ p l t, (p, l) ∈ jumps 0 items → target p = some t → (ahead p t).natAbs ≤ CodeWriter.maxJump

namespace Item.Placed

variable {m : Machine} {f : Fiber} {start : Nat} {target : Nat → Option Nat} {front rest : List Item} {s s' : Store}

theorem exists_chunk {image : Image} {item : Item} (h : Placed image start target (front ++ item :: rest)) :
    ∃ c : Chunk, image.Carries (start + extent front) c.words ∧ c.words.length = item.length ∧
      Becomes target (extent front) item c := by
  have hmem : item ∈ front ++ item :: rest := by simp
  have hjumps : ∀ p l, (p, l) ∈ jumps (extent front) [item] → (p, l) ∈ jumps 0 (front ++ item :: rest) := by
    intro p l hp
    rw [show front ++ item :: rest = front ++ ([item] ++ rest) from rfl, jumps_append, jumps_append, Nat.zero_add]
    simp [hp]
  obtain ⟨c, hwords, hbecomes⟩ := @Item.exists_chunk target item (extent front)
    (fun i hi => h.encodable i (hi ▸ hmem)) (fun l r hi => h.conditions l r (hi ▸ hmem))
    fun l z t hi ht => h.near (extent front) l t (hjumps _ _ (by rw [hi]; exact List.mem_singleton_self _)) ht
  refine ⟨c, ?_, ?_, hbecomes⟩
  · have hcarries := h.carries
    rw [show front ++ item :: rest = front ++ ([item] ++ rest) from rfl, render_append, render_append, Nat.zero_add,
      ← hwords] at hcarries
    have hright := hcarries.right.left
    rwa [length_render] at hright
  · rw [c.length_words, hbecomes.length_eq]

theorem runsTo_instr {i : Instr} (h : Placed m.image start target (front ++ .instr i :: rest))
    (heff : i.effect m.image.floats s = some s') :
    m.RunsTo f (start + extent front) s (start + extent (front ++ [.instr i])) s' := by
  obtain ⟨c, hcarries, hlen, hwords, -⟩ := h.exists_chunk
  have hpc : start + extent front + i.words.length = start + extent (front ++ [.instr i]) := by
    rw [← hwords, hlen, extent_append, extent_cons, extent_nil]
    omega
  rw [← hpc]
  exact .instr (h.encodable i (by simp)) (hwords ▸ hcarries) heff

theorem runsTo_instrs {code : List Instr} (h : Placed m.image start target (front ++ (code.map .instr ++ rest)))
    (heff : Instr.effects m.image.floats s code = some s') :
    m.RunsTo f (start + extent front) s (start + extent (front ++ code.map .instr)) s' := by
  induction code generalizing front s with
  | nil =>
    cases heff
    rw [List.map_nil, List.append_nil]
    exact .refl ..
  | cons i code ih =>
    obtain ⟨s1, hs1, hrest⟩ := Option.bind_eq_some_iff.1 heff
    have hsplit : ∀ more, front ++ (.instr i :: more) = front ++ [.instr i] ++ more := by simp
    rw [List.map_cons, List.cons_append] at h
    refine (h.runsTo_instr hs1).trans ?_
    grind

theorem runsTo_jump {label t : Nat} {ifZero : Option Nat} (h : Placed m.image start target (front ++ .jump label ifZero :: rest))
    (ht : target (extent front) = some t) (hahead : extent front + 2 ≤ t) :
    m.RunsTo f (start + extent front) s
      (start + if ifZero.any fun r => (s.get r).truthy then extent (front ++ [.jump label ifZero]) else t) s := by
  obtain ⟨c, hcarries, hlen, -, hclass, hzero, hreg, htarget, hback⟩ := h.exists_chunk
  have hextent : extent (front ++ [.jump label ifZero]) = extent front + 2 := by
    rw [extent_append, extent_cons, extent_nil]
    rfl
  have hcond : (c.word.jumpsIfZero && (s.get c.word.high4).truthy) = ifZero.any fun r => (s.get r).truthy := by
    cases ifZero with
    | none => rw [hzero, Option.isSome_none, Bool.false_and, Option.any_none]
    | some r => rw [hzero, hreg r rfl, Option.isSome_some, Bool.true_and, Option.any_some]
  have hpc : (if c.word.jumpsBack then start + extent front + 2 - c.seen.b else start + extent front + 2 + c.seen.b) =
      start + t := by
    rw [goal, ht, Option.getD_some, Word.jumpTarget] at htarget
    grind
  refine .chunk hcarries ?_ ?_
  · rw [hlen, length, hextent]
    split <;> omega
  · rw [hlen, length, Stepping.execute_jump hclass fun hb => Nat.le_trans (hback hb) (by omega), hcond, hpc, hextent,
      apply_ite (start + ·)]
    rfl

theorem runs_ret (h : Placed m.image start target (front ++ .instr .ret :: rest)) (hcallers : f.callers = [])
    (hpending : f.isPending = false) (budget left : Nat) :
    Stepping.runWords 0 budget (left + 1) (m.standing f (start + extent front) s) =
      .ok () { m.standing f (start + extent front + 1) s with fibers := [] } := by
  obtain ⟨c, hcarries, hlen, -, hword, hseen⟩ := h.exists_chunk
  have hfront : c.front = [] := by
    rw [c.length_words, length] at hlen
    exact List.eq_nil_of_length_eq_zero (Nat.succ.inj hlen)
  have hstands : m.image.words[start + extent front]? = some c.word := by
    rw [Chunk.words, hfront] at hcarries
    exact hcarries.head
  have hresolve : Operands.resolve {} c.word = c.seen := by rw [Chunk.seen, hfront]; rfl
  have hstep : Stepping.step 0 (m.standing f (start + extent front) s) =
      .ok .finish (m.standing f (start + extent front + 1) s) := by
    rw [Machine.standing, Stepping.step_word hstands (Operands.absorb?_eq_none_iff.2 c.word_noPrefix), hresolve, hseen,
      hword]
    have hret : Stepping.ret 0 (m.standing f (start + extent front + 1) s) =
        .ok .finish (m.standing f (start + extent front + 1) s) := by
      rw [Stepping.ret, bind_of_ok (Stepping.fiber_eq rfl)]
      simp only [hcallers]
      rfl
    exact hret
  have hfinish : Stepping.finish 0 (m.standing f (start + extent front + 1) s) =
      .ok false { m.standing f (start + extent front + 1) s with fibers := [] } := by
    rw [Stepping.finish, bind_of_ok (Stepping.fiber_eq rfl)]
    simp only [hpending]
    rfl
  rw [Stepping.runWords, bind_of_ok hstep]
  simp only [bind_of_ok hfinish]
  rfl

end Item.Placed

end BusScript
