import BusScript.Proofs.LoweredBus

namespace BusScript

open CodeWriter Draft

namespace Lowering

open Run

variable {P : Prop} {d : Draft}

theorem startHandlers_run {handlers : List Nat} (h : d.Ready)
    (hhandlers : ∀ i ∈ handlers, i < d.procedures.size) :
    Passes P d (startHandlers handlers) := by
  induction handlers generalizing d with
  | nil => exact Run.pure h.inside trivial
  | cons index rest ih =>
    have hq := Array.getElem?_eq_getElem (hhandlers index (by simp))
    refine call_bind h.inside (by decide) hq (Nat.zero_le _) fun d1 hd1 hext => ?_
    refine Run.within hd1 (ih hd1.ready fun i hi => ?_)
    exact Nat.lt_of_lt_of_le (hhandlers i (by simp [hi])) hext.procedures_le

theorem startHandler_run {index : Nat} (h : d.Ready) (hindex : index < d.procedures.size) :
    Passes P d (startHandler index) :=
  Run.tail (call_bind h.inside (by decide) (Array.getElem?_eq_getElem hindex) (Nat.zero_le _)
    fun d1 hd1 _ => Run.pure hd1 trivial)

variable {role slot : Nat} {dispatcher : Dispatcher}

variable {d0 : Draft}

theorem sendCmd_pop_run {code : Nat} (h : d0.Inside [] 1 d) (hrole : role < d.roles.size)
    (hcode : code ≤ maxOperand) : Run P d0 [] 0 (fun _ _ => True) ((do
      write (emitAsync .sendCmd role code 0)
      write pop : Lowering Unit) d) := by
  refine async_bind h (fun _ => hrole) (fun _ hfits => ?_) fun d1 hd1 _ _ => ?_
  · exact ⟨role_le_maxOperand hrole hfits, hcode, Nat.zero_le _⟩
  · exact Run.tail (pop_bind hd1 fun d2 hd2 _ => Run.pure hd2 trivial)

theorem requestStreaming_run (h : d.Ready) (hrole : role < d.roles.size) :
    Passes P d (requestStreaming role) := by
  refine push_bind h.inside fun d1 hd1 _ => ?_
  refine allocBuffer_bind hd1 hd1.scopes_ne_of_pushed fun d2 hd2 _ => ?_
  refine setupBuffer_bind hd2 (by decide) fun d3 hd3 _ => ?_
  refine allocReg_bind hd3 hd3.scopes_ne_of_pushed fun r d4 hd4 _ hr => ?_
  refine Run.bind hd4 (loadFloat_run hd4.ready (fun _ => hr) _) fun _ d5 hd5 _ _ => ?_
  have hcell : (d5.bounds d5.procedure).HasCell .buffer FieldFormat.u8.code 0 :=
    ⟨.u8, rfl, by decide, by decide⟩
  refine emit_bind hd5 (fun _ => ⟨rfl, nofun, fun _ => ⟨rfl, hcell⟩⟩)
    (fun _ _ _ => Instr.encodable_store _ hr (by decide) (Nat.zero_le _)) fun d6 hd6 _ _ => ?_
  exact sendCmd_pop_run hd6 (hd6.grown.roles.1 ▸ hrole) (by decide)

theorem requestRegister_run (h : d.Ready) (hrole : role < d.roles.size)
    (packet : PacketSpec) : Passes P d (requestRegister role packet) := by
  refine push_bind h.inside fun d1 hd1 _ => ?_
  refine allocBuffer_bind hd1 hd1.scopes_ne_of_pushed fun d2 hd2 _ => ?_
  refine setupBuffer_bind hd2 (by decide) fun d3 hd3 _ => ?_
  exact sendCmd_pop_run hd3 (hd3.grown.roles.1 ▸ hrole) (code_le_maxOperand _)

theorem requestAll_run {packets : List PacketSpec} (h : d.Ready)
    (hrole : role < d.roles.size) (service : ServiceSpec) :
    Passes P d (requestAll role service packets) := by
  induction packets generalizing d with
  | nil => exact Run.pure h.inside trivial
  | cons packet rest ih =>
    have hrest : ∀ {d1 : Draft}, d.Inside [] 0 d1 →
        Run P d [] 0 (fun _ _ => True) (requestAll role service rest d1) := fun hd1 =>
      Run.within hd1 (ih hd1.ready (hd1.grown.roles.1 ▸ hrole))
    change Runs P d _ _
    rw [requestAll]
    split
    · exact Run.bind h.inside (requestStreaming_run h hrole) fun _ _ hd1 _ _ => hrest hd1
    · exact Run.bind h.inside (requestRegister_run h hrole packet) fun _ _ hd1 _ _ => hrest hd1

theorem refreshRole_run (h : d.Ready) (hrole : role < d.roles.size) (entry : RoleEntry) :
    Passes P d (refreshRole role entry) := by
  refine newLabel_bind h.inside fun skip d1 hd1 _ => ?_
  refine push_bind hd1 fun d2 hd2 _ => ?_
  have hrole2 : role < d2.roles.size := hd2.grown.roles.1 ▸ hrole
  refine Run.bind hd2 (loadConnected_run hd2.ready hd2.scopes_ne_of_pushed hrole2) fun r d3 hd3 _ hr => ?_
  refine forward_bind hd3 (by simp) (by rintro _ ⟨⟩; exact hr) fun d4 hd4 _ => ?_
  refine pop_bind hd4 fun d5 hd5 _ => ?_
  have hrole5 : role < d5.roles.size := hd5.grown.roles.1 ▸ hrole
  refine Run.bind hd5 (requestAll_run hd5.ready hrole5 _) fun _ d6 hd6 _ _ => ?_
  exact Run.tail (bindLabel_bind hd6 fun d7 hd7 _ _ => Run.pure hd7 trivial)

theorem refreshRoles_run {pairs : List (RoleEntry × Nat)} (h : d.Ready)
    (hroles : ∀ pair ∈ pairs, pair.2 < d.roles.size) :
    Passes P d (refreshRoles pairs) := by
  induction pairs generalizing d with
  | nil => exact Run.pure h.inside trivial
  | cons pair rest ih =>
    have hrest : ∀ {d1 : Draft}, d.Inside [] 0 d1 →
        Run P d [] 0 (fun _ _ => True) (refreshRoles rest d1) := fun hd1 =>
      Run.within hd1 (ih hd1.ready fun q hq => hd1.grown.roles.1 ▸ hroles q (by simp [hq]))
    change Runs P d _ _
    rw [refreshRoles]
    dsimp only
    split
    · exact Run.bind h.inside (refreshRole_run h (hroles pair (by simp)) _) fun _ _ hd1 _ _ => hrest hd1
    · exact hrest h.inside

theorem mem_zipIdx_lt {α : Type} {xs : Array α} {pair : α × Nat} (h : pair ∈ xs.toList.zipIdx) :
    xs[pair.2]? = some pair.1 := by grind

theorem refreshLoop_finishes (h : d.Ready) (hparams : d.procedure.numParams = 0) :
    Finishes P d (refreshLoop d) := by
  have hroles : Passes P d (refreshRoles d.roles.toList.zipIdx) :=
    refreshRoles_run h fun pair hpair => (Array.getElem?_eq_some_iff.1 (mem_zipIdx_lt hpair)).1
  refine Finishes.bind (x := refreshRoles d.roles.toList.zipIdx) h.inside hroles fun _ d1 hd1 _ _ => ?_
  have hpause : Run P d1 [] 0 (fun _ d' => d1.writer.location < d'.writer.location)
      (write (emitAsync .pause refreshPeriod 0 0) d1) :=
    Run.tail (async_bind hd1.ready.inside (by simp) (fun _ _ => by decide) fun d2 hd2 _ hlt => Run.pure hd2 hlt)
  refine Finishes.bind hd1 hpause fun _ d2 hd2 _ hlt => ?_
  refine Finishes.bind hd2 (loopTop_run hd2 (Nat.lt_of_le_of_lt (Nat.zero_le _) hlt)) fun _ d3 hd3 _ _ => ?_
  refine finishes_emitReturn hd3 fun _ => ?_
  rw [hd3.grown.numParams h.sound hd3.ready.sound, hparams]
  exact Nat.zero_le _

theorem loadLocal_bind {β : Type} {labels labels' : List Nat} {j k dst : Nat}
    {f : Unit → Lowering β} {Q : β → Draft → Prop} (h : d0.Inside labels j d) (hdst : dst < 16)
    (hslot : (Value.cell .local slot).Sound d)
    (hf : ∀ d', d0.Inside labels j d' → d.Extends d' → Run P d0 labels' k Q (f () d')) :
    Run P d0 labels' k Q ((write (emitLoad dst .local slot 0) >>= f) d) := by
  obtain ⟨hkind, -, hcell⟩ := hasCell_of_sound hslot
  refine emit_bind h (fun _ => sound_load hkind hcell) (fun _ _ hfits => ?_) fun d' hd' hext _ => hf d' hd' hext
  exact Instr.encodable_load _ hdst (cell_le_maxOperand h.ready.sound hslot hfits) (Nat.zero_le _)

theorem storeLocal_bind {β : Type} {labels : List Nat} {j k src : Nat} {labels' : List Nat}
    {f : Unit → Lowering β} {Q : β → Draft → Prop} (h : d0.Inside labels j d) (hsrc : src < 16)
    (hslot : (Value.cell .local slot).Sound d)
    (hf : ∀ d', d0.Inside labels j d' → d.Extends d' → Run P d0 labels' k Q (f () d')) :
    Run P d0 labels' k Q ((write (emitStore src .local slot 0) >>= f) d) :=
  Run.bind h (emitStore_run h.ready.inside hsrc hslot) fun _ d' hd' hstep _ => hf d' hd' hstep.grown

theorem connectionPrologue_run (h : d.Ready) (hrole : role < d.roles.size) (hdisp : d.DispatcherSound dispatcher) :
    Run P d [] 0 (fun slot d' => (Value.cell .local slot).Sound d')
      (connectionPrologue role dispatcher d) := by
  refine Run.bind h.inside (addHiddenLocal_run h _) fun slot d1 hd1 _ hslot => ?_
  refine push_bind hd1 fun d2 hd2 hext2 => ?_
  have hrole2 : role < d2.roles.size := hd2.grown.roles.1 ▸ hrole
  refine Run.bind hd2 (loadConnected_run hd2.ready hd2.scopes_ne_of_pushed hrole2) fun r d3 hd3 hstep3 hr => ?_
  have hslot3 := (hslot.mono hext2).mono hstep3.grown
  refine storeLocal_bind hd3 hr hslot3 fun d4 hd4 hext4 => ?_
  have hslot4 := hslot3.mono hext4
  dsimp only
  split
  · refine newLabel_bind hd4 fun skip d5 hd5 hext5 => ?_
    refine forward_bind hd5 (by simp) (by rintro _ ⟨⟩; exact hr) fun d6 hd6 hext6 => ?_
    have hhandlers : ∀ i ∈ dispatcher.connected, i < d6.procedures.size := fun i hi =>
      Nat.lt_of_lt_of_le (hdisp.connected i hi) hd6.grown.procedures_le
    refine Run.bind hd6 (startHandlers_run hd6.ready hhandlers) fun _ d7 hd7 hstep7 _ => ?_
    refine bindLabel_bind hd7 fun d8 hd8 hext8 _ => pop_bind hd8 fun d9 hd9 hext9 => Run.pure hd9 ?_
    exact hslot4.mono ((((hext5.trans hext6).trans hstep7.grown).trans hext8).trans hext9)
  · exact pop_bind hd4 fun d5 hd5 hext5 => Run.pure hd5 (hslot4.mono hext5)

theorem watchSlots_run {watches : List Watch} (h : d.Ready) :
    Run P d [] 0 (fun slots d' => ∀ pair ∈ slots, pair.1 ∈ watches ∧ (Value.cell .local pair.2).Sound d')
      (watchSlots watches d) := by
  induction watches generalizing d with
  | nil => exact Run.pure h.inside nofun
  | cons watch rest ih =>
    refine Run.bind (x := addHiddenLocal s!"{watch.packet.name}_prev") h.inside (addHiddenLocal_run h _) ?_
    intro slot d1 hd1 _ hslot
    refine special_bind hd1 (by decide) .nan fun d2 hd2 hext2 => ?_
    have hslot2 := hslot.mono hext2
    refine storeLocal_bind hd2 (by decide) hslot2 fun d3 hd3 hext3 => ?_
    refine Run.bind hd3 (ih hd3.ready) fun slots d4 hd4 hstep4 hslots => Run.pure hd4 fun pair hpair => ?_
    rcases List.mem_cons.1 hpair with rfl | hpair
    · exact ⟨by simp, (hslot2.mono hext3).mono hstep4.grown⟩
    · exact ⟨by simp [(hslots pair hpair).1], (hslots pair hpair).2⟩

theorem checkConnection_run (h : d.Ready) (hrole : role < d.roles.size) (hslot : (Value.cell .local slot).Sound d)
    (hdisp : d.DispatcherSound dispatcher) :
    Passes P d (checkConnection role slot dispatcher) := by
  refine newLabel_bind h.inside fun unchanged d1 hd1 hext1 => ?_
  refine newLabel_bind hd1 fun down d2 hd2 hext2 => ?_
  refine push_bind hd2 fun d3 hd3 hext3 => ?_
  have hrole3 : role < d3.roles.size := hd3.grown.roles.1 ▸ hrole
  refine Run.bind hd3 (loadConnected_run hd3.ready hd3.scopes_ne_of_pushed hrole3) fun now d4 hd4 hstep4 hnow => ?_
  refine allocReg_bind hd4 hd4.scopes_ne_of_pushed fun changed d5 hd5 hext5 hchanged => ?_
  refine loadLocal_bind hd5 hchanged (hslot.mono hd5.grown) fun d6 hd6 hext6 => ?_
  refine binary_bind hd6 .ne hchanged hnow fun d7 hd7 hext7 => ?_
  refine forward_bind hd7 (by simp) (by rintro _ ⟨⟩; exact hchanged) fun d8 hd8 hext8 => ?_
  refine storeLocal_bind hd8 hnow (hslot.mono hd8.grown) fun d9 hd9 hext9 => ?_
  refine forward_bind hd9 (by simp) (by rintro _ ⟨⟩; exact hnow) fun d10 hd10 _ => ?_
  refine pop_bind hd10 fun d11 hd11 _ => ?_
  have hup : ∀ i ∈ dispatcher.connected, i < d11.procedures.size := fun i hi =>
    Nat.lt_of_lt_of_le (hdisp.connected i hi) hd11.grown.procedures_le
  refine Run.bind hd11 (startHandlers_run hd11.ready hup) fun _ d12 hd12 _ _ => ?_
  refine forward_bind hd12 (by simp) nofun fun d13 hd13 _ => ?_
  refine bindLabel_bind hd13 fun d14 hd14 _ _ => ?_
  have hdown : ∀ i ∈ dispatcher.disconnected, i < d14.procedures.size := fun i hi =>
    Nat.lt_of_lt_of_le (hdisp.disconnected i hi) hd14.grown.procedures_le
  refine Run.bind hd14 (startHandlers_run hd14.ready hdown) fun _ d15 hd15 _ _ => ?_
  exact Run.tail (bindLabel_bind hd15 fun d16 hd16 _ _ => Run.pure hd16 trivial)

theorem checkEvents_run {events : List (UInt16 × Nat)} (h : d.Ready)
    (hevents : ∀ e ∈ events, e.2 < d.procedures.size) :
    Passes P d (checkEvents events) := by
  induction events generalizing d with
  | nil => exact Run.pure h.inside trivial
  | cons event rest ih =>
    refine newLabel_bind h.inside fun skip d1 hd1 _ => ?_
    refine push_bind hd1 fun d2 hd2 _ => ?_
    refine Run.bind hd2 (checkCode_run hd2.ready hd2.scopes_ne_of_pushed _ _) fun hit d3 hd3 _ hhit => ?_
    refine forward_bind hd3 (by simp) (by rintro _ ⟨⟩; exact hhit) fun d4 hd4 _ => ?_
    refine pop_bind hd4 fun d5 hd5 _ => ?_
    have hindex := Nat.lt_of_lt_of_le (hevents event (by simp)) hd5.grown.procedures_le
    refine Run.bind hd5 (startHandler_run hd5.ready hindex) fun _ d6 hd6 _ _ => ?_
    refine bindLabel_bind hd6 fun d7 hd7 _ _ => Run.within hd7 (ih hd7.ready fun e he => ?_)
    exact Nat.lt_of_lt_of_le (hevents e (by simp [he])) hd7.grown.procedures_le

theorem checkWatch_run {watch : Watch} {field : FieldSpec} (h : d.Ready)
    (hslot : (Value.cell .local slot).Sound d) (hfield : d.catalog.Fits → field.FitsAt 0)
    (hhandler : watch.handler < d.procedures.size) :
    Passes P d (checkWatch watch slot field) := by
  refine newLabel_bind h.inside fun skip d1 hd1 _ => ?_
  refine push_bind hd1 fun d2 hd2 _ => ?_
  refine Run.bind hd2 (checkCode_run hd2.ready hd2.scopes_ne_of_pushed _ _) fun hit d3 hd3 _ hhit => ?_
  refine forward_bind hd3 (by simp) (by rintro _ ⟨⟩; exact hhit) fun d4 hd4 _ => ?_
  refine allocReg_bind hd4 hd4.scopes_ne_of_pushed fun value d5 hd5 _ hvalue => ?_
  have hfield5 : d5.catalog.Fits → field.FitsAt 0 := fun hfits => hfield (hd5.grown.catalog ▸ hfits)
  refine Run.bind hd5 (loadField_run hd5.ready hvalue hfield5) fun _ d6 hd6 _ _ => ?_
  refine allocReg_bind hd6 hd6.scopes_ne_of_pushed fun moved d7 hd7 _ hmoved => ?_
  refine loadLocal_bind hd7 hmoved (hslot.mono hd7.grown) fun d8 hd8 _ => ?_
  refine binary_bind hd8 .sub hmoved hvalue fun d9 hd9 _ => ?_
  refine unary_bind hd9 .abs hmoved hmoved fun d10 hd10 _ => ?_
  refine allocReg_bind hd10 hd10.scopes_ne_of_pushed fun limit d11 hd11 _ hlimit => ?_
  refine Run.bind hd11 (loadFloat_run hd11.ready (fun _ => hlimit) _) fun _ d12 hd12 _ _ => ?_
  refine binary_bind hd12 .le hmoved hlimit fun d13 hd13 _ => ?_
  refine unary_bind hd13 .not hmoved hmoved fun d14 hd14 _ => ?_
  refine forward_bind hd14 (by simp) (by rintro _ ⟨⟩; exact hmoved) fun d15 hd15 _ => ?_
  refine storeLocal_bind hd15 hvalue (hslot.mono hd15.grown) fun d16 hd16 _ => ?_
  refine pop_bind hd16 fun d17 hd17 _ => ?_
  have hindex := Nat.lt_of_lt_of_le hhandler hd17.grown.procedures_le
  refine Run.bind hd17 (startHandler_run hd17.ready hindex) fun _ d18 hd18 _ _ => ?_
  exact Run.tail (bindLabel_bind hd18 fun d19 hd19 _ _ => Run.pure hd19 trivial)

theorem checkWatches_run {pairs : List (Watch × Nat)} (h : d.Ready)
    (hslots : ∀ pair ∈ pairs, (Value.cell .local pair.2).Sound d)
    (hwatches : ∀ pair ∈ pairs, pair.1.handler < d.procedures.size ∧
      (d.catalog.Fits → pair.1.packet.Fits)) :
    Passes P d (checkWatches pairs) := by
  induction pairs generalizing d with
  | nil => exact Run.pure h.inside trivial
  | cons pair rest ih =>
    obtain ⟨hhandler, hpacket⟩ := hwatches pair (by simp)
    have hrest : ∀ {d1 : Draft}, d.Inside [] 0 d1 →
        Run P d [] 0 (fun _ _ => True) (checkWatches rest d1) := fun hd1 => by
      refine Run.within hd1 (ih hd1.ready (fun q hq => (hslots q (by simp [hq])).mono hd1.grown) fun q hq => ?_)
      obtain ⟨hlt, hfits⟩ := hwatches q (by simp [hq])
      exact ⟨Nat.lt_of_lt_of_le hlt hd1.grown.procedures_le, hd1.grown.catalog ▸ hfits⟩
    rw [checkWatches]
    rcases hfields : pair.1.packet.fields with _ | ⟨field, more⟩
    · exact hrest h.inside
    · have hfield : d.catalog.Fits → field.FitsAt 0 := fun hfits => fits_first (hpacket hfits) hfields
      refine Run.bind h.inside (checkWatch_run h (hslots pair (by simp)) hfield hhandler) ?_
      exact fun _ _ hd1 _ _ => hrest hd1

/-- The part of a dispatcher that runs again and again. -/
def observeLoop (role slot : Nat) (dispatcher : Dispatcher) (slots : List (Watch × Nat)) : Lowering Unit := do
  let again ← newLabel "observe"
  bindLabel again
  emitSync .observeRole role 0 0 0
  emitAsync .pause 0 0 0
  if !dispatcher.connected.isEmpty || !dispatcher.disconnected.isEmpty then
    checkConnection role slot dispatcher
  checkEvents dispatcher.events
  checkWatches slots
  emitJump again none

theorem dispatchLoop_eq (role : Nat) (dispatcher : Dispatcher) (refresh : Option Nat) :
    dispatchLoop role dispatcher refresh = (do
      match refresh with
      | some index => emitCall index 0 .backgroundOnce
      | none => pure ()
      let slot ← connectionPrologue role dispatcher
      let slots ← watchSlots dispatcher.watches
      observeLoop role slot dispatcher slots
      emitReturn) := by
  have hassoc : ∀ slot slots, (observeLoop role slot dispatcher slots >>= fun _ => emitReturn) = (do
      let again ← newLabel "observe"
      bindLabel again
      emitSync .observeRole role 0 0 0
      emitAsync .pause 0 0 0
      if !dispatcher.connected.isEmpty || !dispatcher.disconnected.isEmpty then
        checkConnection role slot dispatcher
      checkEvents dispatcher.events
      checkWatches slots
      emitJump again none
      emitReturn) := by
    intro slot slots
    rw [observeLoop]
    cases !dispatcher.connected.isEmpty || !dispatcher.disconnected.isEmpty <;>
      simp only [bind_assoc, if_true, if_false, Bool.false_eq_true]
  simp only [hassoc]
  rfl

theorem observeLoop_run {slots : List (Watch × Nat)}
    (h : d.Ready) (hrole : role < d.roles.size) (hdisp : d.DispatcherSound dispatcher)
    (hslot : (Value.cell .local slot).Sound d)
    (hslots : ∀ pair ∈ slots, pair.1 ∈ dispatcher.watches ∧ (Value.cell .local pair.2).Sound d) :
    Passes P d (observeLoop role slot dispatcher slots) := by
  refine newLabel_bind h.inside fun again d1 hd1 _ => ?_
  refine bindLabel_bind hd1 fun d2 hd2 _ hagain => ?_
  refine observe_bind hd2 (hd2.grown.roles.1 ▸ hrole) fun d3 hd3 hext3 hlt => ?_
  have hchecks : ∀ {d4 : Draft}, d.Inside [] 0 d4 → d3.Inside [] 0 d4 →
      Run P d [] 0 (fun _ _ => True) ((do
        checkEvents dispatcher.events
        checkWatches slots
        write (emitJump again none) : Lowering Unit) d4) := by
    intro d4 hd4 hstep4
    have hdisp4 := hd4.grown.dispatcherSound hdisp
    refine Run.bind hd4 (checkEvents_run hd4.ready hdisp4.events) fun _ d5 hd5 hstep5 _ => ?_
    have hdisp5 := hd5.grown.dispatcherSound hdisp
    have hwatches : Passes P d5 (checkWatches slots) :=
      checkWatches_run hd5.ready (fun pair hpair => (hslots pair hpair).2.mono hd5.grown)
        fun pair hpair => hdisp5.watches pair.1 (hslots pair hpair).1
    refine Run.bind hd5 hwatches fun _ d6 hd6 hstep6 _ => ?_
    have hext6 := (hstep4.grown.trans hstep5.grown).trans hstep6.grown
    obtain ⟨hlabel, hapart⟩ := jump_back ((hext3.trans hext6).bound again _ hagain)
      (Nat.lt_of_lt_of_le hlt hext6.location)
    exact Run.tail (emitJump_bind hd6 hlabel hapart nofun fun d7 hd7 _ => Run.pure hd7 trivial)
  dsimp only
  split
  · have hdisp3 := hd3.grown.dispatcherSound hdisp
    have hconnection : Passes P d3 (checkConnection role slot dispatcher) :=
      checkConnection_run hd3.ready (hd3.grown.roles.1 ▸ hrole) (hslot.mono hd3.grown) hdisp3
    exact Run.bind hd3 hconnection fun _ _ hd4 hstep4 _ => hchecks hd4 hstep4
  · exact hchecks hd3 hd3.ready.inside

theorem dispatchLoop_finishes {refresh : Option Nat} (h : d.Ready)
    (hparams : d.procedure.numParams = 0) (hrole : role < d.roles.size)
    (hdisp : d.DispatcherSound dispatcher) (hrefresh : ∀ i, refresh = some i → i < d.procedures.size) :
    Finishes P d (dispatchLoop role dispatcher refresh d) := by
  have hrest : ∀ {d1 : Draft}, d.Inside [] 0 d1 → Finishes P d ((do
      let slot ← connectionPrologue role dispatcher
      let slots ← watchSlots dispatcher.watches
      observeLoop role slot dispatcher slots
      emitReturn : Lowering Unit) d1) := by
    intro d1 hd1
    have hdisp1 := hd1.grown.dispatcherSound hdisp
    have hrole1 : role < d1.roles.size := hd1.grown.roles.1 ▸ hrole
    refine Finishes.bind hd1 (connectionPrologue_run hd1.ready hrole1 hdisp1) fun slot d2 hd2 _ hslot => ?_
    refine Finishes.bind hd2 (watchSlots_run hd2.ready) fun slots d3 hd3 hstep3 hslots => ?_
    have hloop : Passes P d3 (observeLoop role slot dispatcher slots) :=
      observeLoop_run hd3.ready (hd3.grown.roles.1 ▸ hrole) (hd3.grown.dispatcherSound hdisp)
        (hslot.mono hstep3.grown) hslots
    refine Finishes.bind hd3 hloop fun _ d4 hd4 _ _ => finishes_emitReturn hd4 fun _ => ?_
    rw [hd4.grown.numParams h.sound hd4.ready.sound, hparams]
    exact Nat.zero_le _
  rw [dispatchLoop_eq]
  cases refresh with
  | none => exact hrest h.inside
  | some index =>
    have hq := Array.getElem?_eq_getElem (hrefresh index rfl)
    have hstart : Passes P d (write (emitCall index 0 .backgroundOnce)) :=
      Run.tail (call_bind h.inside (by decide) hq (Nat.zero_le _) fun d1 hd1 _ => Run.pure hd1 trivial)
    exact Finishes.bind h.inside hstart fun _ _ hd1 _ _ => hrest hd1

theorem reporting_visits {index : Nat} {act : Lowering Unit} (hact : Visits P d index (act d)) :
    Outcome (fun _ d' => d.Visited index d' ∧
        (d'.findings.count = 0 → ∃ p, d'.procedures[index]? = some p ∧ p.Finished))
      (Halts P d) (reporting act d) := by
  rw [reporting, Outcome.bind_iff, attempt]
  revert hact
  cases act d with
  | ok a d' => exact id
  | error stop d' =>
    cases stop with
    | reject p =>
      intro hvisited
      exact ⟨hvisited.reported p, fun hclean => absurd hclean (Nat.succ_ne_zero _)⟩
    | abort defect => exact fun hstop => ⟨⟨defect, rfl, hstop.1⟩, hstop.2⟩

end Lowering

namespace Draft

/-- Dispatchers are still to be written for the roles in `rest`, and all else is done. -/
structure Pending (d : Draft) (rest : List (RoleEntry × Nat)) : Prop where
  sound : d.Sound
  roles : ∀ pair ∈ rest, d.roles[pair.2]? = some pair.1
  fresh : ∀ pair ∈ rest, ∀ disp, pair.1.dispatcher = some disp →
    disp.procedure ≠ mainIndex ∧ ∃ p, d.procedures[disp.procedure]? = some p ∧ p.Fresh
  apart : rest.Pairwise fun a b => ∀ x y, a.1.dispatcher = some x → b.1.dispatcher = some y →
    x.procedure ≠ y.procedure
  finished : d.findings.count = 0 → ∀ (i : Nat) (p : Procedure), d.procedures[i]? = some p →
    p.Finished ∨ ∃ pair ∈ rest, ∃ disp, pair.1.dispatcher = some disp ∧ disp.procedure = i
  idle : ∀ i, d.scopesOf i = []

variable {d d' : Draft} {pair : RoleEntry × Nat} {rest : List (RoleEntry × Nat)}

theorem Pending.skipped (h : d.Pending (pair :: rest)) (hnone : pair.1.dispatcher = none) :
    d.Pending rest := by
  refine ⟨h.sound, fun other hother => h.roles other (List.mem_cons_of_mem _ hother),
    fun other hother => h.fresh other (List.mem_cons_of_mem _ hother), h.apart.tail, fun hclean i p hp => ?_, h.idle⟩
  rcases h.finished hclean i p hp with hfin | ⟨other, hother, disp, hdisp, hi⟩
  · exact .inl hfin
  grind

theorem Pending.visited {disp : Dispatcher} (h : d.Pending (pair :: rest)) (hdisp : pair.1.dispatcher = some disp)
    (hvisited : d.Visited disp.procedure d')
    (hfinished : d'.findings.count = 0 → ∃ p, d'.procedures[disp.procedure]? = some p ∧ p.Finished) :
    d'.Pending rest := by
  obtain ⟨hapart, hrest⟩ := List.pairwise_cons.1 h.apart
  refine ⟨hvisited.sound, fun other hother => ?_, fun other hother x hx => ?_, hrest, fun hclean i p hp => ?_,
    fun i => (hvisited.scopes i).trans (h.idle i)⟩
  · rw [hvisited.roles]
    exact h.roles other (List.mem_cons_of_mem _ hother)
  · rw [hvisited.procedures _ (hapart other hother disp x hdisp hx).symm]
    exact h.fresh other (List.mem_cons_of_mem _ hother) x hx
  · by_cases hi : i = disp.procedure
    · simp_all
    rw [hvisited.procedures i hi] at hp
    rcases h.finished (hvisited.grows.clean hclean) i p hp with hfin | ⟨other, hother, x, hx, hxi⟩
    · exact .inl hfin
    grind

theorem Pending.refreshed {p : Procedure} (h : d.Pending rest) (hp : p.Fresh)
    (hvisited : (d.added p).Visited d.procedures.size d')
    (hfinished : d'.findings.count = 0 → ∃ q, d'.procedures[d.procedures.size]? = some q ∧ q.Finished) :
    d'.Pending rest := by
  refine ⟨hvisited.sound, fun pair hpair => ?_, fun pair hpair disp hdisp => ?_, h.apart,
    fun hclean i q hq => ?_, fun i => (hvisited.scopes i).trans ((scopesOf_added hp i).trans (h.idle i))⟩
  · rw [hvisited.roles]
    exact h.roles pair hpair
  · obtain ⟨hne, q, hq, hfresh⟩ := h.fresh pair hpair disp hdisp
    have hlt := Nat.ne_of_lt (Array.getElem?_eq_some_iff.1 hq).1
    refine ⟨hne, q, ?_, hfresh⟩
    rw [hvisited.procedures _ hlt, getElem?_added, if_neg hlt, hq]
  · by_cases hi : i = d.procedures.size
    · simp_all
    · rw [hvisited.procedures i hi, getElem?_added, if_neg hi] at hq
      exact h.finished (hvisited.grows.clean hclean) i q hq

end Draft

namespace Lowering

open Draft

variable {P : Prop} {d : Draft}

theorem lowerDispatchers_outcome {refresh : Option Nat} {rest : List (RoleEntry × Nat)} (h : d.Pending rest)
    (hrefresh : ∀ i, refresh = some i → i < d.procedures.size) :
    Outcome (fun _ d' => d'.Pending [] ∧ d.Grows d') (Halts P d) (lowerDispatchers refresh rest d) := by
  induction rest generalizing d with
  | nil => exact ⟨h, Grows.refl d⟩
  | cons pair rest ih =>
    obtain ⟨entry, role⟩ := pair
    rw [lowerDispatchers]
    cases hdisp : entry.dispatcher with
    | none => exact ih (h.skipped hdisp) hrefresh
    | some disp =>
      have hrole := h.roles (entry, role) List.mem_cons_self
      obtain ⟨hne, p, hp, hfresh⟩ := h.fresh (entry, role) List.mem_cons_self disp hdisp
      have hsound := h.sound.dispatchers role entry disp hrole hdisp
      obtain ⟨q, hq, hnum⟩ := hsound.procedure
      rw [hp] at hq
      cases hq
      have hvisits : Visits P d disp.procedure (inProcedure disp.procedure
          (dispatchLoop role disp (if entry.refreshed.isEmpty then none else refresh)) d) := by
        refine inProcedure_visits h.sound hp hfresh hne fun d' hd' _ _ hgrows hparams => ?_
        refine dispatchLoop_finishes hd' (hparams.trans hnum) ?_ (hgrows.dispatcherSound hsound) fun i hi => ?_
        · exact hgrows.roles.1 ▸ (Array.getElem?_eq_some_iff.1 hrole).1
        · split at hi
          · cases hi
          · exact Nat.lt_of_lt_of_le (hrefresh i hi) hgrows.procedures_le
      refine Outcome.bind (reporting_visits hvisits) ?_ fun _ _ => id
      rintro _ d1 ⟨hvisited, hfinished⟩
      have hgrows := hvisited.grows
      refine (ih (h.visited hdisp hvisited hfinished)
        fun i hi => Nat.lt_of_lt_of_le (hrefresh i hi) hgrows.procedures_le).mono ?_ ?_
      · exact fun _ d2 hd2 => ⟨hd2.1, hgrows.trans hd2.2⟩
      · exact fun _ _ => Halts.of_catalog hgrows.catalog

theorem dispatchers_outcome (h : d.Pending d.roles.toList.zipIdx) :
    Outcome (fun _ d' => d'.Pending [] ∧ d.Grows d') (Halts P d) (dispatchers d) := by
  rw [dispatchers, Outcome.bind_iff, Outcome.get_iff]
  dsimp only
  split
  · have hfresh : ({ name := "_autoRefresh_", numParams := 0 } : Procedure).Fresh := ⟨rfl, rfl, Nat.zero_le _⟩
    have hgrows := grows_added d { name := "_autoRefresh_", numParams := 0 }
    have hvisits := inProcedure_visits (P := P) (h.sound.added hfresh) (getElem?_added_size d _) hfresh
      (Nat.ne_of_gt (mainIndex_lt h.sound))
      fun d' hd' _ _ _ hparams => refreshLoop_finishes hd' hparams
    change Outcome _ _ ((do
      reporting (inProcedure d.procedures.size refreshLoop)
      lowerDispatchers (some d.procedures.size) d.roles.toList.zipIdx : Lowering Unit)
        (d.added { name := "_autoRefresh_", numParams := 0 }))
    refine Outcome.bind (reporting_visits hvisits) ?_ fun _ _ => Halts.of_catalog hgrows.catalog
    rintro _ d1 ⟨hvisited, hfinished⟩
    have hgrows1 := hgrows.trans hvisited.grows
    refine (lowerDispatchers_outcome (P := P) (h.refreshed hfresh hvisited hfinished) ?_).mono ?_ ?_
    · rintro _ ⟨⟩
      refine Nat.lt_of_lt_of_le ?_ hvisited.grows.procedures_le
      exact (Array.getElem?_eq_some_iff.1 (getElem?_added_size d _)).1
    · exact fun _ d2 hd2 => ⟨hd2.1, hgrows1.trans hd2.2⟩
    · exact fun _ _ => Halts.of_catalog hgrows1.catalog
  · exact lowerDispatchers_outcome h nofun

end Lowering

end BusScript
