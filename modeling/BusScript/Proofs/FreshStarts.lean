import Mathlib
import BusScript.Proofs.CachedReports
import BusScript.Proofs.Moments

/-!
A machine that has been reset does what a new one does. The two differ only in the numbers that their next fibers
get. Numbers of fibers are compared with each other and used for nothing else, so every call does the same to a
machine all of whose fibers have numbers that are higher by the same amount.
-/

namespace BusScript

def Fiber.renumber (k : UInt32) (f : Fiber) : Fiber := { f with id := f.id + k }

/-- The machine with the numbers of its fibers, now and later, higher by `k`. -/
def Machine.renumber (k : UInt32) (m : Machine) : Machine :=
  { m with fibers := m.fibers.map (·.renumber k), nextFiberId := m.nextFiberId + k }

def renumberResult {ε α : Type} (k : UInt32) : EStateM.Result ε Machine α → EStateM.Result ε Machine α
  | .ok a m => .ok a (m.renumber k)
  | .error e m => .error e (m.renumber k)

theorem renumberResult_bind {ε α β : Type} {k : UInt32} {m : Machine} {x x' : EStateM ε Machine α}
    {f f' : α → EStateM ε Machine β} (hx : x' (m.renumber k) = renumberResult k (x m))
    (hf : ∀ a m, f' a (m.renumber k) = renumberResult k (f a m)) :
    (x' >>= f') (m.renumber k) = renumberResult k ((x >>= f) m) := by
  simp only [bind, EStateM.bind, hx]
  cases x m with
  | ok a m' => exact hf a m'
  | error e m' => rfl

/-- A computation that does the same whatever the numbers of fibers are. -/
class Blind {ε α : Type} (k : UInt32) (x : EStateM ε Machine α) : Prop where
  ends : ∀ m, x (m.renumber k) = renumberResult k (x m)

namespace Blind

variable {ε α β : Type} {k : UInt32} {x y : EStateM ε Machine α}

theorem bind {f : α → EStateM ε Machine β} [hx : Blind k x] (hf : ∀ a, Blind k (f a)) :
    Blind k (x >>= f) := ⟨fun m => renumberResult_bind (hx.ends m) fun a => (hf a).ends⟩

instance {f : α → EStateM ε Machine β} [Blind k x] [hf : ∀ a, Blind k (f a)] : Blind k (x >>= f) := .bind hf

instance (a : α) : Blind k (pure a : EStateM ε Machine α) := ⟨fun _ => rfl⟩

instance (e : ε) : Blind k (throw e : EStateM ε Machine α) := ⟨fun _ => rfl⟩

instance {c : Prop} [Decidable c] [Blind k x] [Blind k y] : Blind k (if c then x else y) := by
  split <;> infer_instance

protected theorem modify {g : Machine → Machine} (hg : ∀ m, g (m.renumber k) = (g m).renumber k) :
    Blind k (modify g : EStateM ε Machine PUnit) := ⟨fun m => congrArg (EStateM.Result.ok _) (hg m)⟩

theorem modify_bind {g : Machine → Machine} {f : PUnit → EStateM ε Machine β} [∀ u, Blind k (f u)]
    (hg : ∀ m, g (m.renumber k) = (g m).renumber k) : Blind k (modify g >>= f) :=
  have := Blind.modify (ε := ε) hg
  inferInstance

theorem get_bind {f : Machine → EStateM ε Machine α} (hf : ∀ m, Blind k (f m))
    (hsame : ∀ m : Machine, f (m.renumber k) = f m) : Blind k (get >>= f) := by
  constructor
  intro m
  change f (m.renumber k) (m.renumber k) = _
  rw [hsame]
  exact (hf m).ends m

end Blind

namespace Stepping

open Machine

variable {α : Type} {k : UInt32} (index : Nat)

instance (flaw : Flaw) : Blind k (invalid flaw : Stepping α) := ⟨fun _ => rfl⟩

instance (code : Nat) (o : Option α) : Blind k (known code o) := by
  cases o <;> (unfold known; infer_instance)

theorem blind_fiber {f : Fiber → Stepping α} (hf : ∀ fiber, Blind k (f fiber))
    (hsame : ∀ fiber : Fiber, f (fiber.renumber k) = f fiber) : Blind k (fiber index >>= f) := by
  constructor
  intro m
  have hget : (m.renumber k).fibers[index]? = m.fibers[index]?.map (·.renumber k) := List.getElem?_map
  cases hfiber : m.fibers[index]? with
  | none =>
    rw [hfiber] at hget
    simp only [fiber, bind, EStateM.bind, get, getThe, MonadStateOf.get, EStateM.get, hget, hfiber]
    rfl
  | some x =>
    rw [hfiber, Option.map_some] at hget
    rw [bind_of_ok (fiber_eq hget), bind_of_ok (fiber_eq hfiber), hsame]
    exact (hf x).ends m

theorem map_modify_renumber {g : Fiber → Fiber} (hg : ∀ f : Fiber, g (f.renumber k) = (g f).renumber k)
    (fibers : List Fiber) :
    (fibers.map (·.renumber k)).modify index g = (fibers.modify index g).map (·.renumber k) := by
  induction fibers generalizing index with
  | nil => rw [List.map_nil, List.modify_nil, List.map_nil]
  | cons f rest ih => grind

theorem blind_modifyFiber {g : Fiber → Fiber} (hg : ∀ f : Fiber, g (f.renumber k) = (g f).renumber k) :
    Blind k (modifyFiber index g) := by
  refine .modify fun m => ?_
  rw [renumber, renumber, map_modify_renumber index hg]

theorem blind_modifyFiber_bind {g : Fiber → Fiber} {rest : Unit → Stepping α} [∀ u, Blind k (rest u)]
    (hg : ∀ f : Fiber, g (f.renumber k) = (g f).renumber k) : Blind k (modifyFiber index g >>= rest) :=
  have := blind_modifyFiber index hg
  inferInstance

instance (g : Frame → Frame) : Blind k (modifyFrame index g) := blind_modifyFiber index fun _ => rfl

instance (r : Reg) : Blind k (readReg r) := .get_bind (fun _ => inferInstance) fun _ => rfl

instance (r : Reg) (x : Number) : Blind k (writeReg r x) := .modify fun _ => rfl

instance : Blind k (function index) := by
  refine .get_bind (fun m => ?_) fun _ => rfl
  cases m.image.functions[index]? <;> infer_instance

instance : Blind k (string index) := by
  refine .get_bind (fun m => ?_) fun _ => rfl
  cases m.image.strings[index]? <;> infer_instance

instance : Blind k (role index) := by
  refine .get_bind (fun m => ?_) fun _ => rfl
  cases m.roles[index]? <;> infer_instance

instance (count : Nat) : Blind k (firstRegs count) := .get_bind (fun _ => inferInstance) fun _ => rfl

instance (p : Packet) : Blind k (send p) := by
  constructor
  intro m
  have hhost : (m.renumber k).host = m.host := rfl
  simp only [send, get_bind_apply, hhost]
  cases m.host.send? p <;> rfl

instance (cell : Option Number) (kind i : Nat) : Blind k (ofOption cell kind i) := by
  cases cell <;> (unfold ofOption; infer_instance)

instance (special : SpecialValue) : Blind k (loadSpecial special) := by
  refine .get_bind (fun m => ?_) fun _ => rfl
  cases special <;> infer_instance

instance (kind i c : Nat) : Blind k (loadCell index kind i c) := by
  refine .get_bind (fun m => .bind fun cell => ?_) fun _ => rfl
  cases cell with
  | «local» => exact blind_fiber index (fun _ => inferInstance) fun _ => rfl
  | roleProperty =>
    dsimp only
    cases m.roles[i]? with
    | none => infer_instance
    | some role => exact .bind fun property => by cases property; infer_instance
  | _ => infer_instance

instance (kind i : Nat) (x : Number) : Blind k (storeLocal index kind i x) :=
  blind_fiber index (fun _ => inferInstance) fun _ => rfl

instance (kind i c : Nat) (x : Number) : Blind k (storeCell index kind i c x) := by
  refine .bind fun cell => ?_
  cases cell with
  | global =>
    refine .get_bind (fun m => ?_) fun _ => rfl
    have : Blind k (modify fun m => { m with globals := m.globals.setIfInBounds i x } : Stepping Unit) :=
      .modify fun _ => rfl
    infer_instance
  | buffer => exact .bind fun _ => .modify fun _ => rfl
  | _ => infer_instance

instance (bytes : Bytes) (offset : Nat) : Blind k (fillBuffer bytes offset) := by
  refine .get_bind (fun m => ?_) fun _ => rfl
  dsimp only
  split
  · exact .modify fun _ => rfl
  · infer_instance

instance (function : Nat) (args : List Number) (kind : CallKind) :
    Blind k (startFiber function args kind) := by
  refine .bind fun info => ⟨fun m => ?_⟩
  have hfind : (m.renumber k).fibers.findIdx? (·.function == function) =
      m.fibers.findIdx? (·.function == function) := List.findIdx?_map
  simp only [get_bind_apply, hfind]
  cases (if kind = .background then none else m.fibers.findIdx? (·.function == function)) with
  | some index =>
    dsimp only
    split
    · refine (blind_modifyFiber index ?_).ends m
      exact fun _ => rfl
    · rfl
  | none =>
    simp only [set, MonadStateOf.set, EStateM.set, renumberResult, renumber, List.map_append, List.map_cons, List.map_nil]
    rw [UInt32.add_assoc, UInt32.add_comm k, ← UInt32.add_assoc]
    rfl

instance (mask : Nat) : Blind k (saveRegs index mask) :=
  .get_bind (fun _ => blind_fiber index (fun _ => inferInstance) fun _ => rfl) fun _ => rfl

instance : Blind k (restoreRegs index) :=
  blind_fiber index (fun _ => .modify_bind fun _ => rfl) fun _ => rfl

instance (word : Word) (p : Operands) : Blind k (call index word p) := by
  refine .bind fun kind => .bind fun _ => .bind fun args => ?_
  dsimp only
  split
  · exact .bind fun info => blind_modifyFiber_bind index fun _ => rfl
  · infer_instance

instance : Blind k (ret index) := by
  refine blind_fiber index (fun f => ?_) fun _ => rfl
  cases f.callers with
  | nil => infer_instance
  | cons caller rest => exact blind_modifyFiber_bind index fun _ => rfl

instance (word : Word) (distance : Nat) : Blind k (jump index word distance) := by
  have hjumps : Blind k (do
      let pc := (← fiber index).frame.pc
      if word.jumpsBack then
        if pc < distance then invalid .jumpOutside
        modifyFrame index ({ · with pc := pc - distance })
      else
        modifyFrame index ({ · with pc := pc + distance })) :=
    blind_fiber index (fun f => inferInstance) fun _ => rfl
  unfold jump
  infer_instance

instance (op : Math1) : Blind k (math1 op) := by
  refine .bind fun x => ?_
  cases op with
  | random => exact ⟨fun _ => rfl⟩
  | _ => infer_instance

instance (p : Operands) : Blind k (formatted p) := by
  unfold formatted
  infer_instance

instance (op : SyncOp) (p : Operands) : Blind k (syncOp index op p) := by
  cases op with
  | setupBuffer =>
    have hfill : Blind k (do
        modify fun m => { m with packet.data := Array.replicate p.a 0 }
        return Flow.next : Stepping Flow) := .modify_bind fun _ => rfl
    exact .get_bind (fun _ => inferInstance) fun _ => rfl
  | observeRole => exact .bind fun _ => blind_modifyFiber_bind index fun _ => rfl
  | logFormat => exact .bind fun message => .modify_bind fun _ => rfl
  | _ =>
    unfold syncOp
    infer_instance

instance (request : Request) : Blind k (parkWith index request) :=
  .get_bind (fun _ => blind_modifyFiber_bind index fun _ => rfl) fun _ => rfl

instance : Blind k bufferText := .get_bind (fun _ => inferInstance) fun _ => rfl

instance (count : Nat) : Blind k (upload index count) := by
  refine .bind fun label => .bind fun values => ⟨fun m => ?_⟩
  have hdrawn : (m.renumber k).random.between (m.renumber k).config.backoffMin (m.renumber k).config.backoffMax =
      m.random.between m.config.backoffMin m.config.backoffMax := rfl
  simp only [get_bind_apply, hdrawn]
  generalize m.random.between m.config.backoffMin m.config.backoffMax = drawn
  have hparks : Blind k (do
      modifyFiber index ({ · with wakeAt := some (m.host.now + drawn.1) })
      return Flow.park) := blind_modifyFiber_bind index fun _ => rfl
  exact hparks.ends { m with host := m.host.upload label values, random := drawn.2 }

instance (roleIdx : Nat) (code : CommandCode) : Blind k (sendCommand index roleIdx code) := by
  have hsignal : Blind k (modify fun m => { m with signals := m.signals ++ [roleIdx] } : Stepping Unit) :=
    .modify fun _ => rfl
  have hdrop : Blind k (modify fun m =>
    { m with cache := m.cache.invalidate roleIdx (CommandCode.pairedGet code) } : Stepping Unit) := .modify fun _ => rfl
  have hparks : Blind k (get >>= fun m : Machine => parkWith index (.send roleIdx code m.packet.data)) :=
    .get_bind (fun _ => inferInstance) fun _ => rfl
  unfold sendCommand
  infer_instance

instance (roleIdx : Nat) (code : CommandCode) (validity : Nat) :
    Blind k (queryRegister index roleIdx code validity) := by
  refine .bind fun r => ⟨fun m => ?_⟩
  have hquery : Blind k (parkWith index (.query roleIdx code m.config.resendInitial)) := inferInstance
  cases hbinding : r.binding with
  | none => exact hquery.ends m
  | some b =>
    have hsame : (m.renumber k).cache = m.cache ∧ (m.renumber k).host = m.host ∧
        (m.renumber k).config = m.config := ⟨rfl, rfl, rfl⟩
    simp only [get_bind_apply, hsame]
    generalize m.cache.lookup roleIdx code none m.host.now (if validity = 0 then m.config.defaultValidity else validity) =
      found
    obtain ⟨hit, cache⟩ := found
    cases hit with
    | none => exact hquery.ends { m with cache }
    | some entry => rfl

instance (op : AsyncOp) (p : Operands) : Blind k (asyncOp index op p) := by
  refine .bind fun _ => ?_
  cases op with
  | pause => exact .get_bind (fun _ => blind_modifyFiber_bind index fun _ => rfl) fun _ => rfl
  | _ => infer_instance

instance (word : Word) (p : Operands) : Blind k (execute index word p) := by
  refine .bind fun cls => ?_
  cases cls <;> infer_instance

instance : Blind k (step index) := by
  refine blind_fiber index (fun f => .bind fun _ => ⟨fun m => ?_⟩) fun _ => rfl
  have himage : (m.renumber k).image = m.image := rfl
  have hoperands : (m.renumber k).operands = m.operands := rfl
  simp only [get_bind_apply, himage, hoperands]
  cases m.image.words[f.frame.pc]? with
  | none => rfl
  | some word =>
    dsimp only
    cases m.operands.absorb? word with
    | some operands => rfl
    | none => exact Blind.ends (x := execute index word _) { m with operands := {} }

/-! ### Fibers -/

instance : Blind k (serveRequest index) := by
  refine blind_fiber index (fun f => ?_) fun _ => rfl
  cases f.request with
  | none => infer_instance
  | some request =>
    constructor
    intro m
    have hsame : (m.renumber k).packet = m.packet ∧ (m.renumber k).host = m.host ∧
        (m.renumber k).config = m.config := ⟨rfl, rfl, rfl⟩
    have hrenumbered := Blind.ends (k := k) (x := role request.role) m
    have hserved : Blind k (do
        modifyFiber index ({ · with request := none })
        return false) := blind_modifyFiber_bind index fun _ => rfl
    cases hrole : m.roles[request.role]? with
    | none =>
      have hstops : role request.role m = .error (.invalid (.noRole request.role)) m := by
        simp only [role, get_bind_apply, hrole]
        rfl
      simp only [bind, EStateM.bind, get, getThe, MonadStateOf.get, EStateM.get, hrenumbered, hstops]
      rfl
    | some r =>
      have hfound : role request.role m = .ok r m := by
        simp only [role, get_bind_apply, hrole]
        rfl
      simp only [bind, EStateM.bind, get, getThe, MonadStateOf.get, EStateM.get, hrenumbered, hfound,
        renumberResult, hsame]
      cases r.binding with
      | none =>
        refine (blind_modifyFiber_bind index ?_ : Blind k _).ends m
        exact fun _ => rfl
      | some b =>
        cases request with
        | send role code payload => exact (Blind.bind fun _ => hserved).ends m
        | query role code resend =>
          dsimp only
          cases (if r.receives m.packet = true then
              CachedRegister.update? { role, code } role m.packet m.host.now else none) with
          | some entry => exact hserved.ends { m with cache := m.cache.add entry }
          | none =>
            dsimp only
            split
            · have hasks : Blind k (do
                  modifyFiber index ({ · with
                    request := some (.query role code (min (2 * resend) m.config.resendMax))
                    wakeAt := some (m.host.now + resend) })
                  send (.command b.device b.service code #[])
                  return true) := blind_modifyFiber_bind index fun _ => rfl
              exact hasks.ends m
            · rfl

instance : Blind k (resume index) := by
  have hgoes : Blind k (do
      modifyFiber index ({ · with wakeAt := none, observed := none })
      restoreRegs index
      return true) := blind_modifyFiber_bind index fun _ => rfl
  unfold resume
  infer_instance

instance : Blind k (finish index) := by
  refine blind_fiber index (fun f => ?_) fun _ => rfl
  split
  · exact blind_modifyFiber_bind index fun _ => rfl
  · refine .modify_bind fun m => ?_
    rw [renumber, renumber, List.eraseIdx_map]

instance (budget left : Nat) : Blind k (runWords index budget left) := by
  induction left with
  | zero => exact blind_fiber index (fun _ => inferInstance) fun _ => rfl
  | succ left ih =>
    refine .bind fun flow => ?_
    cases flow <;> infer_instance

instance : Blind k (runFiber index) := by
  have hruns : Blind k (do
      let budget := max (← get).config.stepBudget 1
      runWords index budget budget) :=
    .get_bind (fun _ => inferInstance) fun _ => rfl
  unfold runFiber
  infer_instance

end Stepping

namespace Scheduling

open Machine Stepping

variable {k : UInt32}

theorem fail_renumber (fault : Fault) (m : Machine) :
    fail fault (m.renumber k) = renumberResult k (fail fault m) := by
  cases fault <;> rfl

instance (index : Nat) : Blind k (run index) := by
  constructor
  intro m
  rw [run_eq, run_eq, Blind.ends (x := runFiber index) m]
  change (if m.panic.isSome then _ else _) = _
  split
  · rfl
  · cases runFiber index m with
    | ok u m' => rfl
    | error fault m' =>
      cases fault with
      | timeout function steps =>
        simp only [renumberResult, leave, betweenFibers, renumber, List.eraseIdx_map]
      | _ => rfl

theorem fiberIndex?_renumber (m : Machine) (id : UInt32) :
    fiberIndex? (m.renumber k) (id + k) = fiberIndex? m id := by
  rw [fiberIndex?, fiberIndex?, renumber, List.findIdx?_map]
  congr 1
  funext f
  exact Bool.eq_iff_iff.2 (by simp [Fiber.renumber])

theorem any_renumber {P : Fiber → Bool} (hP : ∀ f : Fiber, P (f.renumber k) = P f) (m : Machine) (index : Nat) :
    (m.renumber k).fibers[index]?.any P = m.fibers[index]?.any P := by
  rw [renumber, List.getElem?_map, Option.any_map]
  congr 1
  funext f
  exact hP f

theorem ids_renumber {P : Fiber → Bool} (hP : ∀ f : Fiber, P (f.renumber k) = P f) (m : Machine) :
    ((m.renumber k).fibers.filter P).map (·.id) = ((m.fibers.filter P).map (·.id)).map (· + k) := by
  have hsame : P ∘ Fiber.renumber k = P := funext hP
  rw [renumber, List.filter_map, hsame, List.map_map, List.map_map]
  rfl

theorem runDue_renumber (now : Nat) (ids : List UInt32) (m : Machine) :
    runDue now (ids.map (· + k)) (m.renumber k) = renumberResult k (runDue now ids m) := by
  induction ids generalizing m with
  | nil => rfl
  | cons id rest ih =>
    have hpanic : (m.renumber k).panic = m.panic := rfl
    simp only [List.map_cons, runDue, get_bind_apply, hpanic]
    cases hstopped : m.panic.isSome with
    | true => rfl
    | false =>
      simp only [Bool.false_eq_true, if_false, fiberIndex?_renumber]
      cases fiberIndex? m id with
      | none => exact ih m
      | some index =>
        have hdue : (m.renumber k).fibers[index]?.any (·.isDue now) = m.fibers[index]?.any (·.isDue now) :=
          any_renumber (fun _ => rfl) m index
        dsimp only
        rw [hdue]
        split
        · exact renumberResult_bind (Blind.ends m) fun _ => ih
        · exact ih m

instance (fuel : Nat) : Blind k (wakeDue fuel) := by
  induction fuel with
  | zero => exact ⟨fun _ => rfl⟩
  | succ fuel ih =>
    constructor
    intro m
    have hids : ((m.renumber k).fibers.filter (·.isDue m.host.now)).map (·.id) =
        ((m.fibers.filter (·.isDue m.host.now)).map (·.id)).map (· + k) := ids_renumber (fun _ => rfl) m
    have hempty : ((m.renumber k).fibers.filter (·.isDue m.host.now)).isEmpty =
        (m.fibers.filter (·.isDue m.host.now)).isEmpty := by
      rw [← List.isEmpty_map (f := (·.id)), hids, List.isEmpty_map, List.isEmpty_map]
    have hhost : (m.renumber k).host = m.host := rfl
    simp only [wakeDue, get_bind_apply, hhost, hempty, hids]
    split
    · exact renumberResult_bind (runDue_renumber ..) fun _ => ih.ends
    · rfl

instance (role : Nat) (p : Packet) (index : Nat) : Blind k (runWoken role p index) := by
  constructor
  intro m
  have hrun := Blind.ends (k := k) (x := run index) { m with packet := p, wokenBy := some role }
  rw [runWoken, runWoken, show run index { m.renumber k with packet := p, wokenBy := some role } = _ from hrun]
  cases run index { m with packet := p, wokenBy := some role } <;> rfl

theorem runObservers_renumber (role : Nat) (p : Packet) (ids : List UInt32) (m : Machine) :
    runObservers role p (ids.map (· + k)) (m.renumber k) = renumberResult k (runObservers role p ids m) := by
  induction ids generalizing m with
  | nil => rfl
  | cons id rest ih =>
    simp only [List.map_cons, runObservers, get_bind_apply, fiberIndex?_renumber]
    cases fiberIndex? m id with
    | none => exact ih m
    | some index =>
      have hobserves : (m.renumber k).fibers[index]?.any (·.observed == some role) =
          m.fibers[index]?.any (·.observed == some role) := any_renumber (fun _ => rfl) m index
      dsimp only
      rw [hobserves]
      split
      · exact renumberResult_bind (Blind.ends m) fun _ => ih
      · exact ih m

instance (role : Nat) (p : Packet) : Blind k (wakeRole role p) := by
  constructor
  intro m
  have hids : ((m.renumber k).fibers.filter (·.observed == some role)).map (·.id) =
      ((m.fibers.filter (·.observed == some role)).map (·.id)).map (· + k) := ids_renumber (fun _ => rfl) m
  change runObservers role p (((m.renumber k).fibers.filter (·.observed == some role)).map (·.id))
    (renumber k { m with packet := p }) = _
  rw [hids, runObservers_renumber]
  rfl

instance (roles : List Nat) : Blind k (wakeSignalled roles) := by
  induction roles with
  | nil => exact ⟨fun _ => rfl⟩
  | cons role rest ih => exact .bind fun _ => ih

instance (fuel : Nat) : Blind k (settle fuel) := by
  induction fuel with
  | zero => exact ⟨fun _ => rfl⟩
  | succ fuel ih =>
    have hagain : Blind k (do
        let m ← get
        if !m.signals.isEmpty && m.panic.isNone then settle fuel) :=
      .get_bind (fun _ => inferInstance) fun _ => rfl
    have hdue : Blind k (do
        modify ({ · with packet := {} })
        wakeDue fuel
        let m ← get
        if !m.signals.isEmpty && m.panic.isNone then settle fuel) := .modify_bind fun _ => rfl
    exact .get_bind (fun m => .modify_bind fun _ => rfl) fun _ => rfl

instance : Blind k startMain := by
  constructor
  intro m
  rw [startMain, startMain, Blind.ends (x := startFiber 0 [] .background) m]
  cases startFiber 0 [] .background m with
  | ok u m' => rfl
  | error fault m' => exact fail_renumber fault m'

instance (roles : List Nat) : Blind k (wakeBound roles) := by
  induction roles with
  | nil => exact ⟨fun _ => rfl⟩
  | cons role rest ih => exact .bind fun _ => ih

instance : Blind k autobind :=
  ⟨fun m => Blind.ends (x := wakeBound (Roles.autobind m.roles m.host.devices).bound)
    { m with roles := (Roles.autobind m.roles m.host.devices).roles }⟩

instance : Blind k autobindIfDue := by
  constructor
  intro m
  change (if m.nextAutobind ≤ m.host.now then _ else _ : Scheduling Unit) (m.renumber k) =
    renumberResult k ((if m.nextAutobind ≤ m.host.now then _ else _ : Scheduling Unit) m)
  split
  · exact Blind.ends (x := autobind) { m with nextAutobind := m.host.now + m.config.autobindInterval }
  · rfl

instance (p : Packet) (indices : List Nat) : Blind k (deliver p indices) := by
  induction indices with
  | nil => exact ⟨fun _ => rfl⟩
  | cons index rest ih =>
    constructor
    intro m
    have hroles : (m.renumber k).roles = m.roles := rfl
    simp only [deliver, get_bind_apply, hroles]
    split
    · exact (Blind.bind fun _ => ih : Blind k (wakeRole index p >>= _)).ends { m with cache := m.cache.update index p m.host.now }
    · exact ih.ends m

theorem foldl_detach_renumber (roles : List Nat) (m : Machine) :
    roles.foldl detach (m.renumber k) = (roles.foldl detach m).renumber k := by
  induction roles generalizing m with
  | nil => rfl
  | cons role rest ih => exact ih (detach m role)

instance (device : DeviceId) (roles : List Nat) : Blind k (wakeDropped device roles) := by
  induction roles with
  | nil => exact ⟨fun _ => rfl⟩
  | cons role rest ih =>
    constructor
    intro m
    have hwoken := Blind.ends (k := k) (x := wakeRole role { device }) (detach m role)
    simp only [wakeDropped, show wakeRole role { device } (detach (m.renumber k) role) = _ from hwoken]
    cases wakeRole role { device } (detach m role) with
    | ok u m' => exact ih.ends m'
    | error e m' => exact congrArg (EStateM.Result.error e) (foldl_detach_renumber rest m')

instance (device : DeviceId) : Blind k (dropDevice device) :=
  ⟨fun m => Blind.ends (x := wakeDropped device (Roles.unbind m.roles device).2)
    { m with roles := (Roles.unbind m.roles device).1 }⟩

end Scheduling

open Scheduling Machine

theorem Machine.call_renumber {k : UInt32} {act : Scheduling Unit} [hact : Blind k act] (m : Machine) :
    (m.renumber k).call act = (m.call act).map fun called => (called.1, called.2.renumber k) := by
  change (if m.panic.isSome then some (.ok (), m.renumber k) else conclude (act (m.renumber k))) =
    (if m.panic.isSome then some (.ok (), m) else conclude (act m)).map _
  split
  · rfl
  · rw [hact.ends m]
    cases act m with
    | ok u m' => rfl
    | error e m' => cases e <;> rfl

theorem HostCall.run_renumber (k : UInt32) (fuel : Nat) (call : HostCall) (m : Machine) :
    call.run fuel (m.renumber k) = (call.run fuel m).map fun called => (called.1, called.2.renumber k) := by
  cases call with
  | packet p =>
    have hdelivers : Blind k (do
        deliver p (List.range (← get).roles.length)
        settle fuel) := .get_bind (fun _ => inferInstance) fun _ => rfl
    exact call_renumber m
  | _ => exact call_renumber m

/-! ### What a run keeps -/

structure Machine.Lasts (m m' : Machine) : Prop where
  image : m'.image = m.image
  config : m'.config = m.config
  globals : m'.globals.size = m.globals.size
  roles : m'.roles.map ({ · with binding := none }) = m.roles.map ({ · with binding := none })

namespace Roles

theorem map_unbound_autobind (roles : List Role) (devices : List Device) :
    (autobind roles devices).roles.map ({ · with binding := none }) =
      roles.map ({ · with binding := none }) := by
  refine List.ext_getElem? fun i => ?_
  rw [List.getElem?_map, List.getElem?_map, autobind_turns, Option.map_map]
  congr 1
  funext r
  rw [Function.comp_apply, turn]
  split <;> rfl

theorem map_unbound_unbind (roles : List Role) (device : DeviceId) :
    (unbind roles device).1.map ({ · with binding := none }) = roles.map ({ · with binding := none }) := by
  rw [unbind, List.map_map]
  refine List.map_congr_left fun r _ => ?_
  rw [Function.comp_apply]
  split <;> rfl

end Roles

namespace Machine

variable {m m' m'' : Machine}

theorem Lasts.trans (h : m.Lasts m') (h' : m'.Lasts m'') : m.Lasts m'' :=
  ⟨h'.image.trans h.image, h'.config.trans h.config, h'.globals.trans h.globals, h'.roles.trans h.roles⟩

theorem Stays.lasts (h : m.Stays m') : m.Lasts m' := ⟨h.image, h.config, h.globals, congrArg _ h.roles⟩

theorem lasts_enter (pass : Pass) (m : Machine) : m.Lasts (pass.enter m) := by
  cases pass <;> exact ⟨rfl, rfl, rfl, rfl⟩

theorem lasts_reset (m : Machine) : m.Lasts m.reset := by
  refine ⟨rfl, rfl, Array.size_replicate, ?_⟩
  rw [reset, List.map_map]
  rfl

theorem lasts_of_outcome {ε α : Type} {Q : α → Machine → Prop} {E : ε → Machine → Prop}
    {r : EStateM.Result ε Machine α} (h : Outcome Q E r) (hok : ∀ a m', Q a m' → m.Lasts m')
    (herror : ∀ e m', E e m' → m.Lasts m') : m.Lasts (stateAfter r) :=
  (h.mono hok herror).stateAfter

theorem lasts_step (index : Nat) (m : Machine) : m.Lasts (stateAfter (Stepping.step index m)) :=
  lasts_of_outcome (Stepping.step_did index m) (fun _ _ h => h.stays.lasts) fun _ _ h => h.computed.stays.lasts

theorem lasts_resume (index : Nat) (m : Machine) : m.Lasts (stateAfter (Stepping.resume index m)) := by
  refine lasts_of_outcome (Stepping.resume_resumed index m) (fun _ _ h => h.stays.lasts) ?_
  rintro _ _ ⟨heq, -⟩
  rw [heq]
  exact ⟨rfl, rfl, rfl, rfl⟩

theorem lasts_finish (index : Nat) (m : Machine) : m.Lasts (stateAfter (Stepping.finish index m)) := by
  refine lasts_of_outcome (Stepping.finish_finished index m) (fun _ _ h => h.stays.lasts) ?_
  rintro _ _ ⟨rfl, -⟩
  exact ⟨rfl, rfl, rfl, rfl⟩

theorem lasts_startMain (m : Machine) : m.Lasts (stateAfter (startFiber 0 [] .background m)) := by
  refine lasts_of_outcome (Stepping.startFiber_requested 0 [] .background m) (fun _ _ h => h.started.stays.lasts) ?_
  rintro _ _ ⟨rfl, -⟩
  exact ⟨rfl, rfl, rfl, rfl⟩

theorem Moves.lasts {s s' : Phase} {notes : List Note} (h : Moves s m notes s' m') : m.Lasts m' := by
  cases h with
  | reset => exact lasts_reset m
  | startMain => exact lasts_startMain m
  | bind => exact ⟨rfl, rfl, rfl, Roles.map_unbound_autobind ..⟩
  | unbind => exact ⟨rfl, rfl, rfl, Roles.map_unbound_unbind ..⟩
  | enter => exact lasts_enter ..
  | resume index => exact (lasts_enter ..).trans (lasts_resume ..)
  | step index => exact lasts_step ..
  | finish index => exact lasts_finish ..
  | _ => exact ⟨rfl, rfl, rfl, rfl⟩

theorem Leads.lasts {s s' : Phase} {log : List Note} (h : Leads s m log s' m') : m.Lasts m' := by
  induction h with
  | refl => exact ⟨rfl, rfl, rfl, rfl⟩
  | move _ hmove ih => exact ih.trans hmove.lasts

theorem Recorded.lasts {record : List (Nat × Packet)} (h : m.Recorded record m') : m.Lasts m' := by
  obtain ⟨log, hleads, -⟩ := h.goes
  exact hleads.lasts

/-- A machine that ran and was reset is a new one whose fibers count on from where they had come. -/
theorem reset_eq_renumber {bytes : Bytes} {host : Host} {config : Config} {random : Random}
    (hnew : Machine.new bytes host config random = .ok m) (h : m.Lasts m') :
    ∃ fresh, Machine.new bytes m'.host config m'.random = .ok fresh ∧
      m'.reset = fresh.renumber m'.nextFiberId := by
  obtain ⟨image, hload, hverify, rfl⟩ := Machine.eq_of_new hnew
  refine ⟨{ m'.reset with nextFiberId := 0 }, ?_, ?_⟩
  · have hroles : m'.reset.roles = image.roles.toList.map Role.ofClass := by
      refine h.roles.trans ((List.map_map).trans ?_)
      rfl
    have hglobals : m'.reset.globals = Array.replicate image.numGlobals 0 :=
      congrArg (Array.replicate · 0) (h.globals.trans Array.size_replicate)
    simp only [Machine.new, Except.bind_ok_iff, pure, Except.pure, Except.ok.injEq]
    refine ⟨image, hload, (), hverify, ?_⟩
    rw [hroles, hglobals]
    simp only [reset, h.image, h.config]
  · simp only [reset, renumber, List.map_nil, UInt32.zero_add]

/-- What can be told of a machine from outside. -/
structure View where
  /-- With what was sent, logged and uploaded. -/
  host : Host
  globals : Array Number
  roles : List Role
  fibers : Nat
  cache : RegisterCache
  deadline : Option Nat
  panic : Option PanicCode

def view (m : Machine) : View :=
  ⟨m.host, m.globals, m.roles, m.fibers.length, m.cache, m.nextDeadline?, m.panic⟩

inductive Act where
  | call (fuel : Nat) (entry : HostCall)
  /-- The clock, the devices and the bus change. -/
  | host (change : Host → Host)
  | reset

def Act.run : Act → Machine → Option Called
  | .call fuel entry, m => entry.run fuel m
  | .host change, m => some (.ok (), { m with host := change m.host })
  | .reset, m => some (.ok (), m.reset)

def seen : List Act → Machine → List (Option (Except MachineError Unit × View))
  | [], _ => []
  | act :: acts, m =>
    match act.run m with
    | none => [none]
    | some (outcome, m') => some (outcome, m'.view) :: seen acts m'

theorem view_renumber (k : UInt32) (m : Machine) : (m.renumber k).view = m.view := by
  have hwakeAt : (m.renumber k).fibers.filterMap (·.wakeAt) = m.fibers.filterMap (·.wakeAt) :=
    List.filterMap_map
  have hdeadline : (m.renumber k).nextDeadline? = m.nextDeadline? := by
    rw [nextDeadline?, hwakeAt]
    rfl
  rw [view, hdeadline]
  exact congrArg (fun count => View.mk _ _ _ count _ _ _) (List.length_map _)

theorem Act.run_renumber (k : UInt32) (act : Act) (m : Machine) :
    act.run (m.renumber k) = (act.run m).map fun called => (called.1, called.2.renumber k) := by
  cases act with
  | call fuel entry => exact entry.run_renumber k fuel m
  | host change => rfl
  | reset => rfl

theorem seen_renumber (k : UInt32) (acts : List Act) (m : Machine) : seen acts (m.renumber k) = seen acts m := by
  induction acts generalizing m with
  | nil => rfl
  | cons act acts ih =>
    rw [seen, seen, act.run_renumber]
    cases act.run m with
    | none => rfl
    | some called => exact congrArg₂ _ (congrArg _ (congrArg _ (view_renumber k called.2))) (ih called.2)

/-- Reset is a fresh start. After any run, a machine that is reset gives and leaves what a new one does that gets the
same image, the same generator and the host as it is now, whatever the host does later on. -/
theorem reset_is_a_fresh_start {bytes : Bytes} {host : Host} {config : Config} {random : Random}
    {record : List (Nat × Packet)} (hnew : Machine.new bytes host config random = .ok m)
    (hrun : m.Recorded record m') :
    ∃ fresh, Machine.new bytes m'.host config m'.random = .ok fresh ∧ m'.reset.view = fresh.view ∧
      ∀ acts, seen acts m'.reset = seen acts fresh := by
  obtain ⟨fresh, hfresh, hreset⟩ := reset_eq_renumber hnew hrun.lasts
  rw [hreset]
  exact ⟨fresh, hfresh, view_renumber .., fun acts => seen_renumber _ acts fresh⟩

theorem reset_is_a_fresh_start_rereading :
    ∃ compiled m m', compile Catalog.builtin {} rereadingScript = .ok compiled ∧
      Machine.new compiled.image servoHost {} (.ofSeed 1) = .ok m ∧ m.Recorded [(0, angleReport 5)] m' ∧
      m'.nextFiberId = 1 ∧ m'.globals.size = 2 ∧ m'.cache.liveCount = 1 ∧
      ∃ fresh, Machine.new compiled.image m'.host {} m'.random = .ok fresh ∧
        ∀ acts, seen acts m'.reset = seen acts fresh := by
  have hplays : playsTo rereadingScript servoHost oneReport (fun record m =>
      record = [(0, angleReport 5)] ∧ m.nextFiberId = 1 ∧ m.globals.size = 2 ∧ m.cache.liveCount = 1) = true := by
    decide +kernel
  obtain ⟨compiled, m, record, m', hcompile, hnew, hrecorded, hcheck⟩ := exists_of_playsTo hplays
  obtain ⟨rfl, hnumber, hglobals, hcache⟩ := of_decide_eq_true hcheck
  obtain ⟨fresh, hfresh, -, hseen⟩ := reset_is_a_fresh_start hnew hrecorded
  exact ⟨compiled, m, m', hcompile, hnew, hrecorded, hnumber, hglobals, hcache, fresh, hfresh, hseen⟩

end Machine

end BusScript
