import Mathlib
import BusScript.Proofs.Confined

namespace BusScript

open Outcome (bind_iff get_iff ite_iff modify_iff pure_iff set_iff)

open Body

theorem CellKind.code_of_ofCode? {n : Nat} {kind : CellKind} (h : ofCode? n = some kind) : kind.code = n := by
  unfold ofCode? at h
  split at h <;> cases h <;> rfl

/-- The code of every function is checked and stays in it. -/
structure Image.Safe (image : Image) : Prop where
  checked : ∀ {index : Nat} {f : FunctionInfo}, image.functions[index]? = some f → image.Checked f (image.body f)
  closed : ∀ {index : Nat} {f : FunctionInfo}, image.functions[index]? = some f → Body.isClosed (image.body f) = true
  main : 0 < image.functions.size

/-- The fiber has just taken word `n` of its function, which is no prefix. -/
structure Machine.Executes (image : Image) (index : Nat) (f : FunctionInfo) (n : Nat) (w : Word)
    (fiber : Fiber) (m : Machine) : Prop extends m.Hosts image index fiber where
  frame : fiber.frame.At image f (n + 1)
  operands : m.operands = {}
  word : (image.body f)[n]? = some w
  noPrefix : w.isOperandPrefix = false

/-- What a word leaves: a fiber that runs on, that waits, that has finished, or that stops the program. -/
def Flow.Leaves (image : Image) (index : Nat) : Flow → Machine → Prop
  | .next, m => m.Runs image index
  | .park, m => m.Rests image
  | .finish, m => ∃ fiber f n, m.Hosts image index fiber ∧ fiber.callers = [] ∧
      fiber.frame.At image f n ∧ m.operands = {}
  | .stop code, m => code ∈ image.panicCodes ∧ m.panic = none ∧ m.Stopped image

namespace Machine.Executes

variable {image : Image} {index n : Nat} {f : FunctionInfo} {w : Word} {fiber : Fiber} {m : Machine}

variable (h : m.Executes image index f n w fiber)

include h

theorem lookup : image.functions[fiber.frame.function]? = some f := h.frame.function

theorem startsAt_next : startsAt (image.body f) (n + 1) = true := by
  rw [startsAt_succ h.word, h.noPrefix]
  rfl

theorem checkWord_eq (hsafe : image.Safe) :
    Image.checkWord image f (image.body f).size n w (seenAt (image.body f) n w) = .ok () :=
  (hsafe.checked h.lookup).word n w h.word h.noPrefix

theorem knowsCodes (hsafe : image.Safe) : w.knowsCodes (seenAt (image.body f) n w) = true :=
  knowsCodes_of_isClosed (hsafe.closed h.lookup) h.word h.noPrefix

theorem frame_rests (hsafe : image.Safe) (hgoes : w.goesOn = true) : fiber.frame.Rests image :=
  ⟨f, n + 1, h.frame, lt_size_of_goesOn (hsafe.closed h.lookup) h.word hgoes, h.startsAt_next⟩

theorem runs (hsafe : image.Safe) (hgoes : w.goesOn = true) : m.Runs image index :=
  ⟨fiber, h.toHosts, h.operands ▸ (h.frame_rests hsafe hgoes).runs⟩

theorem leaves_next (hsafe : image.Safe) (hgoes : w.goesOn = true) : Flow.Leaves image index .next m := h.runs hsafe hgoes

theorem congr {m' : Machine} (heq : m'.setting = m.setting) (hfibers : m'.fibers = m.fibers) (hoperands : m'.operands = m.operands) :
    m'.Executes image index f n w fiber :=
  ⟨h.toHosts.congr heq hfibers, h.frame, hoperands.trans h.operands, h.word, h.noPrefix⟩

theorem modify {m' : Machine} (g : Fiber → Fiber) (heq : m'.setting = m.setting) (hsound : (g fiber).Sound image)
    (hframe : (g fiber).frame.At image f (n + 1))
    (hfibers : m'.fibers = m.fibers.modify index g) (hoperands : m'.operands = m.operands) :
    m'.Executes image index f n w (g fiber) :=
  ⟨h.toHosts.modify g heq hsound hfibers, hframe, hoperands.trans h.operands, h.word, h.noPrefix⟩

end Machine.Executes

theorem Word.goesOn_of_opClass? {w : Word} {cls : OpClass} (h : w.opClass? = some cls)
    (hsync : cls ≠ .sync) (hjump : cls ≠ .jump) : w.goesOn = true := by
  simp [Word.goesOn, Word.isSync, h, hsync, hjump]

theorem Word.goesOn_of_sync {w : Word} {op : SyncOp} (h : w.opClass? = some .sync)
    (hop : SyncOp.ofCode? w.arg8 = some op) (hret : op ≠ .ret) (hpanic : op ≠ .panic) :
    w.goesOn = true := by
  simp [Word.goesOn, Word.isSync, h, hop, hret, hpanic]

namespace Stepping

open Machine

variable {image : Image} {index n : Nat} {f : FunctionInfo} {w : Word} {fiber : Fiber} {m : Machine}

variable {p : Operands}

theorem cellKind_of_checkCell {isStore : Bool} (hcheck : Image.checkCell image f p isStore = .ok ())
    (hknown : (CellKind.ofCode? p.a).isSome) :
    ∃ kind, CellKind.ofCode? p.a = some kind ∧ (isStore = true → Image.CellKind.isStorable kind = true) ∧
      Image.cellExists image f kind p = .ok true := by
  obtain ⟨kind, hkind⟩ := Option.isSome_iff_exists.1 hknown
  have hlt : p.a < 256 := by
    rw [← CellKind.code_of_ofCode? hkind]
    cases kind <;> decide
  obtain ⟨kind', hkind', hrest⟩ := Image.checkCell_iff.1 hcheck
  grind

theorem getElem?_some_of_lt {α : Type} {xs : Array α} {i : Nat} (h : i < xs.size) :
    ∃ x, xs[i]? = some x := ⟨xs[i], Array.getElem?_eq_getElem h⟩

variable (hsafe : image.Safe) (h : m.Executes image index f n w fiber)

include h

theorem loadCell_reads {kind : CellKind} (hkind : CellKind.ofCode? p.a = some kind)
    (hexists : Image.cellExists image f kind p = .ok true)
    (hrole : kind = .roleProperty → (RoleProperty.ofCode? p.c).isSome) :
    Outcome (fun _ m' => m' = m) (fun _ _ => False) (loadCell index p.a p.b p.c m) := by
  rw [loadCell]
  simp only [bind_iff, get_iff, known_iff hkind]
  cases kind with
  | «local» =>
    have hlt : p.b < fiber.frame.slots.size := by
      have : p.b < f.numLocals := by simpa [Image.cellExists, pure, Except.pure] using hexists
      rw [h.frame.slots, FunctionInfo.frameSize]
      omega
    obtain ⟨x, hx⟩ := getElem?_some_of_lt hlt
    simp [fiber_iff h.fiber_at, ofOption, hx]
  | global =>
    have hlt : p.b < m.globals.size := by
      rw [h.globals]
      simpa [Image.cellExists, pure, Except.pure] using hexists
    obtain ⟨x, hx⟩ := getElem?_some_of_lt hlt
    simp [ofOption, hx]
  | floatConst =>
    have hlt : p.b < m.image.floats.size := by
      rw [h.image_eq]
      simpa [Image.cellExists, pure, Except.pure] using hexists
    obtain ⟨x, hx⟩ := getElem?_some_of_lt hlt
    simp [ofOption, hx]
  | identity => simp
  | buffer =>
    cases hformat : FieldFormat.ofCode? (p.b % 16) with
    | none => simp [Image.cellExists, hformat, throw, throwThe, MonadExceptOf.throw] at hexists
    | some format => simp [known_iff rfl]
  | special =>
    have hspecial : (SpecialValue.ofCode? (p.b % 256)).isSome ∧ p.b ≤ 0xff := by
      simpa [Image.cellExists, pure, Except.pure] using hexists
    rw [Nat.mod_eq_of_lt (by omega)] at hspecial
    obtain ⟨special, hs⟩ := Option.isSome_iff_exists.1 hspecial.1
    simp only [bind_iff, known_iff hs]
    cases special <;> simp [loadSpecial]
  | roleProperty =>
    have hlt : p.b < m.roles.length := by
      rw [h.roles]
      have hboth : p.b < image.roles.size ∧ (RoleProperty.ofCode? (p.c % 256)).isSome = true := by
        simpa [Image.cellExists, pure, Except.pure] using hexists
      exact hboth.1
    obtain ⟨property, hp⟩ := Option.isSome_iff_exists.1 (hrole rfl)
    rw [List.getElem?_eq_getElem hlt]
    simp only [bind_iff, known_iff hp]
    cases property
    simp

theorem storeCell_writes {kind : CellKind}
    (hkind : CellKind.ofCode? p.a = some kind) (hstore : Image.CellKind.isStorable kind = true)
    (hexists : Image.cellExists image f kind p = .ok true) (x : Number) :
    Outcome (fun _ m' => ∃ fiber', m'.Executes image index f n w fiber') (fun _ _ => False)
      (storeCell index p.a p.b p.c x m) := by
  rw [storeCell]
  simp only [bind_iff, known_iff hkind]
  cases kind with
  | «local» =>
    have hlt : p.b < fiber.frame.slots.size := by
      have : p.b < f.numLocals := by simpa [Image.cellExists, pure, Except.pure] using hexists
      rw [h.frame.slots, FunctionInfo.frameSize]
      omega
    simp only [storeLocal, bind_iff, fiber_iff h.fiber_at, if_pos hlt, modifyFrame_iff]
    exact ⟨_, h.modify _ rfl ⟨h.sound.callers, h.sound.request⟩
      ⟨h.frame.function, h.frame.startPc, h.frame.pc, h.frame.numLocals, by simpa using h.frame.slots⟩ rfl rfl⟩
  | global =>
    have hlt : p.b < m.globals.size := by
      rw [h.globals]
      simpa [Image.cellExists, pure, Except.pure] using hexists
    simp only [bind_iff, get_iff, if_pos hlt, modify_iff]
    exact ⟨_, h.congr (by simp [Machine.setting]) rfl rfl⟩
  | buffer =>
    cases hformat : FieldFormat.ofCode? (p.b % 16) with
    | none => simp [Image.cellExists, hformat, throw, throwThe, MonadExceptOf.throw] at hexists
    | some format =>
      simp only [bind_iff, known_iff rfl, modify_iff]
      exact ⟨_, h.congr rfl rfl rfl⟩
  | _ => cases hstore

include hsafe in
theorem cell_of_checked {isStore : Bool} (hclass : w.opClass? = some .loadCell ∨ w.opClass? = some .storeCell)
    (hcheck : Image.checkCell image f (seenAt (image.body f) n w) isStore = .ok ()) :
    ∃ kind, CellKind.ofCode? (seenAt (image.body f) n w).a = some kind ∧
      (isStore = true → Image.CellKind.isStorable kind = true) ∧
      Image.cellExists image f kind (seenAt (image.body f) n w) = .ok true ∧
      (kind = .roleProperty → (RoleProperty.ofCode? (seenAt (image.body f) n w).c).isSome) := by
  obtain ⟨kind, hkind, hrole⟩ := Word.cellKind_of_knowsCodes hclass (h.knowsCodes hsafe)
  obtain ⟨kind', hkind', hstore, hexists⟩ :=
    cellKind_of_checkCell hcheck (Option.isSome_of_eq_some hkind)
  simp_all

include hsafe in
theorem jump_runs (hclass : w.opClass? = some .jump) : Outcome (fun _ m' => m'.Runs image index) (fun _ _ => False)
      (jump index w (seenAt (image.body f) n w).b m) := by
  have hcheck : Image.checkJump (image.body f).size n w (seenAt (image.body f) n w) = .ok () := by
    simpa only [Image.checkWord, hclass] using h.checkWord_eq hsafe
  obtain ⟨hback, hlt⟩ := Image.checkJump_iff.1 hcheck
  have hstarts := startsAt_jumpTarget (hsafe.closed h.lookup) h.word h.noPrefix hclass
  generalize (seenAt (image.body f) n w).b = distance at hback hlt hstarts ⊢
  have hpc := h.frame.pc
  -- the frame after a jump that is taken
  have hland : ∀ pc, pc = f.startPc + w.jumpTarget n distance → Machine.Runs image index { m with
        fibers := m.fibers.modify index fun fiber =>
          { fiber with frame := { fiber.frame with pc } } } := by
    intro pc heq
    refine ⟨_, h.toHosts.modify (fun fiber => { fiber with frame := { fiber.frame with pc } })
      rfl ⟨h.sound.callers, h.sound.request⟩ rfl,
      f, w.jumpTarget n distance, ⟨h.frame.function, h.frame.startPc, heq, h.frame.numLocals, h.frame.slots⟩, hlt, ?_⟩
    rw [operandsAt_of_startsAt hstarts]
    exact h.operands
  rw [jump]
  simp only [bind_iff, readReg_iff]
  by_cases hskip : (w.jumpsIfZero && (m.registers.get w.highReg).truthy) = true
  · rw [if_pos hskip]
    refine h.runs hsafe ?_
    simp [Word.goesOn, Word.isSync, hclass, (Bool.and_eq_true_iff.1 hskip).1]
  · rw [if_neg hskip]
    simp only [bind_iff, fiber_iff h.fiber_at]
    rw [Word.jumpTarget] at hland
    cases hdirection : w.jumpsBack with
    | true =>
      have hle := hback hdirection
      rw [hdirection, if_pos rfl] at hland
      rw [if_pos rfl, if_neg (by omega)]
      simp only [modifyFrame_iff]
      exact hland _ (by omega)
    | false =>
      rw [hdirection, if_neg (by decide)] at hland
      rw [if_neg (by decide)]
      simp only [modifyFrame_iff]
      exact hland _ (by omega)

theorem hasRoom_of_checkSaved {mask : Nat} (hcheck : Image.checkSaved f mask = .ok ()) :
    fiber.frame.hasRoom ⟨mask % 65536⟩ = true := by
  obtain ⟨hmask, hsize⟩ := Image.checkSaved_iff.1 hcheck
  rw [Nat.mod_eq_of_lt (by omega)]
  have hle : (RegSet.mk mask).toList.length ≤ (RegSet.mk mask).size := by
    rw [RegSet.toList, RegSet.size, ← List.countP_eq_length_filter]
    exact (List.range_sublist.2 (by decide : 16 ≤ 32)).countP_le
  have hframe := h.frame.slots
  rw [FunctionInfo.frameSize] at hframe
  rw [Frame.hasRoom, decide_eq_true_iff, h.frame.numLocals]
  omega

theorem saveRegs_saves {mask : Nat} (hcheck : Image.checkSaved f mask = .ok ()) :
    Outcome (fun _ m' => ∃ fiber', m'.Executes image index f n w fiber') (fun _ _ => False)
      (saveRegs index mask m) := by
  have hroom := hasRoom_of_checkSaved h hcheck
  simp only [saveRegs, bind_iff, get_iff, fiber_iff h.fiber_at, modifyFrame_iff, hroom]
  exact ⟨_, h.modify (fun fiber => { fiber with frame := fiber.frame.save ⟨mask % 65536⟩ m.registers })
    rfl ⟨h.sound.callers, h.sound.request⟩
    (h.frame.save _ _) rfl rfl⟩

omit h in
theorem startFiber_cases {function : Nat} {info : FunctionInfo} (args : List Number)
    (kind : CallKind) (hinfo : m.image.functions[function]? = some info) :
    Outcome (fun _ m' => m' = m ∨ (∃ j, m' = { m with fibers := m.fibers.modify j ({ · with isPending := true }) }) ∨
        m' = { m with
          fibers := m.fibers ++ [Fiber.start m.nextFiberId (.enter function info args) m.host.now]
          nextFiberId := m.nextFiberId + 1 })
      (fun _ _ => False) (startFiber function args kind m) := by
  simp only [startFiber, bind_iff, function_iff hinfo, get_iff]
  cases (if kind = .background then none else m.fibers.findIdx? (·.function == function)) with
  | none => exact .inr (.inr rfl)
  | some j =>
    simp only [ite_iff, modifyFiber_iff]
    exact ⟨fun _ => .inr (.inl ⟨j, rfl⟩), fun _ => .inl rfl⟩

include hsafe in
theorem startFiber_executes {function : Nat} {info : FunctionInfo} (args : List Number) (kind : CallKind)
    (hinfo : image.functions[function]? = some info) :
    Outcome (fun _ m' => ∃ fiber', m'.Executes image index f n w fiber') (fun _ _ => False)
      (startFiber function args kind m) := by
  refine (startFiber_cases args kind (h.image_eq ▸ hinfo)).imp ?_
  rintro _ m' (rfl | ⟨j, rfl⟩ | rfl)
  · exact ⟨fiber, h⟩
  · obtain ⟨fiber', hframe, hhosts⟩ := h.toHosts.pend j
    exact ⟨fiber', hhosts, hframe ▸ h.frame, h.operands, h.word, h.noPrefix⟩
  · refine ⟨fiber, h.toHosts.append rfl ?_ rfl, h.frame, h.operands, h.word, h.noPrefix⟩
    exact Fiber.rests_start (Frame.rests_enter hinfo (hsafe.closed hinfo))

include hsafe in
theorem call_leaves (hclass : w.opClass? = some .call) : Outcome (Flow.Leaves image index) (fun _ _ => False)
      (call index w (seenAt (image.body f) n w) m) := by
  have hgoes := Word.goesOn_of_opClass? hclass (by decide) (by decide)
  have hcheck : Image.checkCall image f w (seenAt (image.body f) n w) = .ok () := by
    simpa only [Image.checkWord, hclass] using h.checkWord_eq hsafe
  obtain ⟨kind, callee, hkind, hcallee, _, hsaved⟩ := Image.checkCall_iff.1 hcheck
  generalize seenAt (image.body f) n w = p at hcallee hsaved ⊢
  have hmask : Image.checkSaved f p.d = .ok () := by
    by_cases hsync : kind = .sync
    · rwa [if_pos hsync] at hsaved
    · rw [if_neg hsync] at hsaved
      rw [hsaved, Image.checkSaved_iff]
      exact ⟨by decide, by rw [show (RegSet.mk 0).size = 0 by decide]; omega⟩
  rw [call]
  simp only [bind_iff, known_iff hkind]
  refine (saveRegs_saves h hmask).imp ?_
  rintro _ m' ⟨fiber', h'⟩
  simp only [firstRegs_iff]
  by_cases hsync : kind = .sync
  · rw [if_pos hsync]
    simp only [bind_iff, function_iff (h'.image_eq ▸ hcallee), modifyFiber_iff, pure_iff]
    refine ⟨_, h'.toHosts.modify (fun g => { g with
        frame := .enter p.b callee (m'.registers.toList.take w.high4)
        callers := g.frame :: g.callers })
      rfl ⟨?_, h'.sound.request⟩ rfl, ?_⟩
    · intro frame hmem
      rcases List.mem_cons.1 hmem with rfl | hmem
      · exact h'.frame_rests hsafe hgoes
      · exact h'.sound.callers frame hmem
    · rw [show m'.operands = {} from h'.operands]
      exact (Frame.rests_enter hcallee (hsafe.closed hcallee)).runs
  · rw [if_neg hsync]
    simp only [bind_iff, pure_iff]
    refine (startFiber_executes hsafe h' _ kind hcallee).imp ?_
    rintro _ m'' ⟨fiber'', h''⟩
    exact h''.runs hsafe hgoes

omit h in
theorem restoreRegs_runs (h : m.Hosts image index fiber) (hframe : fiber.frame.Rests image)
    (hoperands : m.operands = {}) :
    Outcome (fun _ m' => m'.Runs image index) (fun _ _ => False) (restoreRegs index m) := by
  simp only [restoreRegs, bind_iff, fiber_iff h.fiber_at, modify_iff, modifyFrame_iff]
  refine ⟨_, h.modify (fun fiber => { fiber with frame := fiber.frame.restored })
    rfl ⟨h.sound.callers, h.sound.request⟩ rfl, ?_⟩
  rw [show m.operands = {} from hoperands]
  exact hframe.restored.runs

theorem ret_leaves : Outcome (Flow.Leaves image index) (fun _ _ => False) (ret index m) := by
  rw [ret]
  simp only [bind_iff, fiber_iff h.fiber_at]
  cases hcallers : fiber.callers with
  | nil => exact ⟨fiber, f, n + 1, h.toHosts, hcallers, h.frame, h.operands⟩
  | cons caller rest =>
    simp only [bind_iff, modifyFiber_iff, pure_iff]
    refine restoreRegs_runs (h.toHosts.modify ({ · with frame := caller, callers := rest })
      rfl ⟨?_, h.sound.request⟩ rfl)
      (h.sound.callers caller (by simp [hcallers])) h.operands
    intro frame hmem
    exact h.sound.callers frame (by simp [hcallers, show frame ∈ rest from hmem])

theorem fillBuffer_executes (bytes : Bytes) (offset : Nat) :
    Outcome (fun _ m' => m'.Executes image index f n w fiber) (fun _ _ => False) (fillBuffer bytes offset m) := by
  simp only [fillBuffer, bind_iff, get_iff, ite_iff, modify_iff]
  exact ⟨fun _ => h.congr rfl rfl rfl, fun _ => h⟩

omit h in
theorem formatted_iff {Q : String → Machine → Prop} {E : Fault → Machine → Prop}
    {template : Bytes} (h : m.image.strings[p.a]? = some template) :
    Outcome Q E (formatted p m) ↔ Q (Template.render template (m.registers.toList.take p.b)) m := by
  simp [formatted, string_iff h]

theorem math1_executes (op : Math1) :
    Outcome (fun _ m' => m'.Executes image index f n w fiber) (fun _ _ => False) (math1 op m) := by
  have hsame : ∀ {registers random}, Executes image index f n w fiber { m with registers, random } :=
    h.congr rfl rfl rfl
  simp only [math1, bind_iff, readReg_iff]
  cases op <;> exact hsame

theorem panic_leaves (hpanic : w.isSync .panic = true) :
    Flow.Leaves image index (.stop (.ofOperand (seenAt (image.body f) n w).a)) m := by
  refine ⟨?_, h.panic, h.toHosts.stopped ⟨f, n + 1, h.frame, h.startsAt_next, ?_⟩⟩
  · have hmem : f ∈ image.functions.toList := by
      rw [Array.mem_toList_iff]
      exact Array.mem_of_getElem? h.lookup
    exact List.mem_flatMap.2 ⟨f, hmem, mem_panicCodes h.word hpanic⟩
  · obtain ⟨hlt, _⟩ := Array.getElem?_eq_some_iff.1 h.word
    grind

include hsafe

theorem syncOp_leaves (hclass : w.opClass? = some .sync) {op : SyncOp} (hop : SyncOp.ofCode? w.arg8 = some op) :
    Outcome (Flow.Leaves image index) (fun _ _ => False) (syncOp index op (seenAt (image.body f) n w) m) := by
  have hcheck : Image.checkSync image w (seenAt (image.body f) n w) = .ok () := by
    simpa only [Image.checkWord, hclass] using h.checkWord_eq hsafe
  have hknown := h.knowsCodes hsafe
  have hstop := panic_leaves h
  have hnext (hret : op ≠ .ret) (hpanic : op ≠ .panic) {m' : Machine} {fiber' : Fiber}
      (h' : m'.Executes image index f n w fiber') : Flow.Leaves image index .next m' :=
    h'.runs hsafe (Word.goesOn_of_sync hclass hop hret hpanic)
  simp only [Image.checkSync, hop] at hcheck
  simp only [Word.knowsCodes, hclass, hop] at hknown
  rw [Word.isSync, hclass, hop] at hstop
  generalize seenAt (image.body f) n w = p at hcheck hknown hstop ⊢
  cases op with
  | ret => exact ret_leaves h
  | setupBuffer =>
    have hsize : p.a ≤ maxPayload := by simpa using hcheck
    simp only [syncOp, bind_iff, get_iff, ite_iff, modify_iff, pure_iff]
    refine ⟨fun hlarge => ?_, fun _ => ?_⟩
    · exact Nat.not_lt.2 (Nat.le_trans hsize h.limit) hlarge
    · exact hnext (by decide) (by decide) (h.congr rfl rfl rfl)
  | observeRole =>
    have hlt : p.a < m.roles.length := by
      rw [h.roles]
      simpa [Image.checkRole] using hcheck
    simp only [syncOp, bind_iff, role_iff (List.getElem?_eq_getElem hlt), modifyFiber_iff, pure_iff]
    exact hnext (by decide) (by decide) (h.modify ({ · with observed := some p.a })
      rfl ⟨h.sound.callers, h.sound.request⟩
      ⟨h.frame.function, h.frame.startPc, h.frame.pc, h.frame.numLocals, h.frame.slots⟩ rfl rfl)
  | format =>
    have hlt : p.a < m.image.strings.size ∧ p.c ≤ maxPayload := by
      rw [h.image_eq]
      simpa [Image.checkString, Image.checkOffset, Except.bind_ok_iff] using hcheck
    simp only [syncOp, bind_iff, formatted_iff (Array.getElem?_eq_getElem hlt.1)]
    exact (fillBuffer_executes h _ p.c).imp fun _ _ => hnext (by decide) (by decide)
  | memcpy =>
    have hlt : p.a < m.image.strings.size ∧ p.c ≤ maxPayload := by
      rw [h.image_eq]
      simpa [Image.checkString, Image.checkOffset, Except.bind_ok_iff] using hcheck
    simp only [syncOp, bind_iff, string_iff (Array.getElem?_eq_getElem hlt.1)]
    exact (fillBuffer_executes h _ p.c).imp fun _ _ => hnext (by decide) (by decide)
  | logFormat =>
    have hlt : p.a < m.image.strings.size := by
      rw [h.image_eq]
      simpa [Image.checkString] using hcheck
    simp only [syncOp, bind_iff, formatted_iff (Array.getElem?_eq_getElem hlt),
      modify_iff, pure_iff]
    exact hnext (by decide) (by decide) (h.congr rfl rfl rfl)
  | math1 =>
    obtain ⟨op, hop⟩ := Option.isSome_iff_exists.1 hknown
    simp only [syncOp, bind_iff, known_iff hop]
    exact (math1_executes h op).imp fun _ _ => hnext (by decide) (by decide)
  | math2 =>
    obtain ⟨op, hop⟩ := Option.isSome_iff_exists.1 hknown
    simp only [syncOp, bind_iff, known_iff hop, readReg_iff, writeReg_iff, pure_iff]
    exact hnext (by decide) (by decide) (h.congr rfl rfl rfl)
  | panic => exact hstop (by simp)

theorem parks (hgoes : w.goesOn = true) {m' : Machine} (g : Fiber → Fiber) (heq : m'.setting = m.setting)
    (hframe : (g fiber).frame = fiber.frame) (hcallers : (g fiber).callers = fiber.callers)
    (hrequest : ∀ r, (g fiber).request = some r → r.role < image.roles.size)
    (hfibers : m'.fibers = m.fibers.modify index g) (hoperands : m'.operands = m.operands) :
    Flow.Leaves image index .park m' :=
  (h.toHosts.modify g heq ⟨hcallers ▸ h.sound.callers, hrequest⟩ hfibers).rests
    (hframe ▸ h.frame_rests hsafe hgoes) (hoperands.trans h.operands)

theorem parkWith_leaves (hgoes : w.goesOn = true) {request : Request} (hrole : request.role < image.roles.size) :
    Outcome (Flow.Leaves image index) (fun _ _ => False) (parkWith index request m) := by
  simp only [parkWith, bind_iff, get_iff, modifyFiber_iff, pure_iff]
  refine parks hsafe h hgoes _ rfl rfl rfl ?_ rfl rfl
  simp_all

theorem upload_leaves (hgoes : w.goesOn = true) (count : Nat) :
    Outcome (Flow.Leaves image index) (fun _ _ => False) (upload index count m) := by
  simp only [upload, bufferText, bind_iff, get_iff, firstRegs_iff, set_iff,
    modifyFiber_iff, pure_iff]
  exact parks hsafe h hgoes _ rfl rfl rfl h.sound.request rfl rfl

theorem sendCommand_leaves (hgoes : w.goesOn = true) {role : Nat} (hrole : role < image.roles.size) (code : CommandCode) :
    Outcome (Flow.Leaves image index) (fun _ _ => False) (sendCommand index role code m) := by
  have hlt : role < m.roles.length := h.roles ▸ hrole
  have h' : Executes image index f n w fiber
      { m with cache := m.cache.invalidate role (CommandCode.pairedGet code) } :=
    h.congr rfl rfl rfl
  simp only [sendCommand, bind_iff, role_iff (List.getElem?_eq_getElem hlt),
    ite_iff, modify_iff, get_iff, pure_iff]
  refine ⟨fun _ => ⟨fun _ => ?_, fun _ => h.runs hsafe hgoes⟩, fun _ => ⟨fun _ => ?_, fun _ => ?_⟩⟩
  · exact Executes.leaves_next (h.congr rfl rfl rfl) hsafe hgoes
  · exact parkWith_leaves hsafe h' hgoes hrole
  · exact parkWith_leaves hsafe h hgoes hrole

theorem queryRegister_leaves (hgoes : w.goesOn = true) {role : Nat} (hrole : role < image.roles.size) (code : CommandCode)
    (validity : Nat) : Outcome (Flow.Leaves image index) (fun _ _ => False)
      (queryRegister index role code validity m) := by
  have hlt : role < m.roles.length := h.roles ▸ hrole
  simp only [queryRegister, bind_iff, role_iff (List.getElem?_eq_getElem hlt), get_iff]
  cases m.roles[role].binding with
  | none => exact parkWith_leaves hsafe h hgoes hrole
  | some b =>
    generalize m.cache.lookup role code none m.host.now _ = found
    obtain ⟨hit, cache⟩ := found
    have h' : Executes image index f n w fiber { m with cache } :=
      h.congr rfl rfl rfl
    cases hit with
    | none =>
      simp only [bind_iff, set_iff]
      exact parkWith_leaves hsafe h' hgoes hrole
    | some entry =>
      simp only [bind_iff, set_iff, modify_iff, pure_iff]
      exact Executes.leaves_next (h'.congr rfl rfl rfl) hsafe hgoes

theorem asyncOp_leaves (hclass : w.opClass? = some .async) {op : AsyncOp} (hop : AsyncOp.ofCode? w.arg8 = some op) :
    Outcome (Flow.Leaves image index) (fun _ _ => False) (asyncOp index op (seenAt (image.body f) n w) m) := by
  have hgoes := Word.goesOn_of_opClass? hclass (by decide) (by decide)
  have hcheck : Image.checkAsync image f w (seenAt (image.body f) n w) = .ok () := by
    simpa only [Image.checkWord, hclass] using h.checkWord_eq hsafe
  generalize seenAt (image.body f) n w = p at hcheck ⊢
  obtain ⟨hsaved, hrole⟩ : Image.checkSaved f p.d = .ok () ∧
      (op = .queryReg ∨ op = .sendCmd → p.a < image.roles.size) := by
    cases op <;>
      simpa [Image.checkAsync, hop, Image.checkRole, Except.bind_ok_iff, and_comm] using hcheck
  simp only [asyncOp, bind_iff]
  refine (saveRegs_saves h hsaved).imp ?_
  rintro _ m' ⟨fiber', h'⟩
  cases op with
  | pause =>
    simp only [bind_iff, get_iff, modifyFiber_iff, pure_iff]
    exact parks hsafe h' hgoes _ rfl rfl rfl h'.sound.request rfl rfl
  | cloudUpload => exact upload_leaves hsafe h' hgoes p.a
  | sendCmd => exact sendCommand_leaves hsafe h' hgoes (hrole (.inr rfl)) _
  | queryReg => exact queryRegister_leaves hsafe h' hgoes (hrole (.inl rfl)) _ p.c

theorem execute_leaves : Outcome (Flow.Leaves image index) (fun _ _ => False)
      (execute index w (seenAt (image.body f) n w) m) := by
  have hcheck := h.checkWord_eq hsafe
  rw [execute]
  cases hclass : w.opClass? with
  | none => simp [Image.checkWord, hclass, throw, throwThe, MonadExceptOf.throw] at hcheck
  | some cls =>
    have hnext (hsync : cls ≠ .sync) (hjump : cls ≠ .jump) {m' : Machine} {fiber' : Fiber}
        (h' : m'.Executes image index f n w fiber') : Flow.Leaves image index .next m' :=
      h'.runs hsafe (Word.goesOn_of_opClass? hclass hsync hjump)
    simp only [bind_iff, known_iff rfl]
    simp only [Image.checkWord, hclass] at hcheck
    cases cls with
    | unary | binary =>
      obtain ⟨op, hop⟩ := Option.isSome_iff_exists.1 (Image.ensure_iff.1 hcheck)
      simp only [bind_iff, known_iff hop, readReg_iff, writeReg_iff, pure_iff]
      exact hnext (by decide) (by decide) (h.congr rfl rfl rfl)
    | loadCell =>
      obtain ⟨kind, hkind, -, hexists, hrole⟩ := cell_of_checked hsafe h (.inl hclass) hcheck
      simp only [bind_iff]
      refine (loadCell_reads h hkind hexists hrole).imp ?_
      rintro x m' rfl
      exact hnext (by decide) (by decide) (h.congr rfl rfl rfl)
    | storeCell =>
      obtain ⟨kind, hkind, hstore, hexists, -⟩ := cell_of_checked hsafe h (.inr hclass) hcheck
      simp only [bind_iff, readReg_iff]
      refine (storeCell_writes h hkind (hstore rfl) hexists _).imp ?_
      rintro _ m' ⟨fiber', h'⟩
      exact hnext (by decide) (by decide) h'
    | jump => exact (jump_runs hsafe h hclass).bind (fun _ _ => id) fun _ _ => False.elim
    | call => exact call_leaves hsafe h hclass
    | sync =>
      cases hop : SyncOp.ofCode? w.arg8 with
      | none => simp [Image.checkSync, hop, throw, throwThe, MonadExceptOf.throw] at hcheck
      | some op =>
        simp only [bind_iff, known_iff rfl]
        exact syncOp_leaves hsafe h hclass hop
    | async =>
      cases hop : AsyncOp.ofCode? w.arg8 with
      | none => simp [Image.checkAsync, hop, throw, throwThe, MonadExceptOf.throw] at hcheck
      | some op =>
        simp only [bind_iff, known_iff rfl]
        exact asyncOp_leaves hsafe h hclass hop
    | _ =>
      -- the classes that are left are those of prefix words
      have hcode := OpClass.code_of_ofCode? hclass
      have hpre := h.noPrefix
      rw [Word.isOperandPrefix, ← hcode] at hpre
      cases hpre

omit h in
theorem step_leaves (h : m.Runs image index) :
    Outcome (Flow.Leaves image index) (fun _ _ => False) (step index m) := by
  obtain ⟨fiber, hhosts, f, n, hat, hlt, hoperands⟩ := h
  obtain ⟨w, hw⟩ := getElem?_some_of_lt hlt
  have hword : m.image.words[fiber.frame.pc]? = some w := by
    rw [hhosts.image_eq, hat.pc]
    exact Image.words_of_body hw
  -- the fiber behind the word, with its frame moved on
  let g : Fiber → Fiber := fun other =>
    { other with frame := { other.frame with pc := fiber.frame.pc + 1 } }
  have hmoved : (g fiber).frame.At image f (n + 1) :=
    ⟨hat.function, hat.startPc, congrArg (· + 1) hat.pc, hat.numLocals, hat.slots⟩
  have hbehind (operands : Operands) :
      Hosts image index (g fiber) { m with fibers := m.fibers.modify index g, operands } :=
    hhosts.modify g rfl ⟨hhosts.sound.callers, hhosts.sound.request⟩ rfl
  simp only [step, bind_iff, fiber_iff hhosts.fiber_at, modifyFrame_iff, get_iff, hword, hoperands]
  cases habsorb : (operandsAt (image.body f) n).absorb? w with
  | some operands =>
    have hpre : w.isOperandPrefix = true :=
      Operands.absorb?_isSome_iff.1 (by rw [habsorb]; rfl)
    have hnext : n + 1 < (image.body f).size := by
      rcases Nat.eq_or_lt_of_le (Nat.succ_le_of_lt hlt) with heq | hnext
      · have hend := (hsafe.checked hat.function).closed
        rw [← heq, startsAt_succ hw, hpre] at hend
        cases hend
      · exact hnext
    refine ⟨g fiber, hbehind operands, f, n + 1, hmoved, hnext, ?_⟩
    rw [operandsAt_succ hw, habsorb]
    rfl
  | none =>
    have hpre := Operands.absorb?_eq_none_iff.1 habsorb
    exact execute_leaves hsafe ⟨hbehind {}, hmoved, rfl, hw, hpre⟩

end Stepping

end BusScript
