import BusScript.Proofs.CompiledImages
import BusScript.Proofs.PlainScripts

namespace BusScript

open CodeWriter Draft Item

def Machine.ended (m : Machine) (s : Store) : Machine :=
  { m with registers := s.registers, globals := s.globals, operands := {}, fibers := [] }

namespace Sketch

variable {x : Sketch} {body items : List Item} {meaning : Env → Progress}

theorem exists_patched {d : Draft} (hlays : x.writer.Lays items) (h : x.draft.finalize = .ok d) :
    ∃ w : CodeWriter, d = draft { x with writer := w } ∧
      w.code.toList = render (assigned x.writer.labels.toList) 0 (items ++ padding items) ∧
      ∀ p l t, (p, l) ∈ jumps 0 items → assigned x.writer.labels.toList p = some t → (ahead p t).natAbs ≤ maxJump := by
  have hout := finalize_outcome hlays x.draft.isClean
  have hprocedures : x.draft.procedures.toList = [{ name := "main", numParams := 0, writer := x.writer }] := rfl
  rw [Draft.finalize, hprocedures, List.mapM_cons, List.mapM_nil, Procedure.finalize] at h
  revert h hout
  dsimp only
  cases CodeWriter.finalize x.draft.isClean x.writer with
  | error stop w => exact fun h => by cases h
  | ok u w =>
    rintro h ⟨-, hcode, hnear, -⟩
    cases h
    exact ⟨w, rfl, hcode, hnear⟩

def program (x : Sketch) (body : List Item) (image : Image) (start : Nat) : Program :=
  ⟨image, start, body, x.writer.offset?, x.names⟩

theorem Finished.loaded (h : Finished x body meaning) {image : Image} {start : Nat}
    (hcarries : image.Carries start (render (assigned x.writer.labels.toList) 0
      (body ++ [.instr .ret] ++ padding (body ++ [.instr .ret]))))
    (hnear : ∀ p l t, (p, l) ∈ jumps 0 (body ++ [.instr .ret]) → assigned x.writer.labels.toList p = some t →
      (ahead p t).natAbs ≤ maxJump) : (x.program body image start).Loaded := by
  refine ⟨⟨assigned x.writer.labels.toList, padding (body ++ [.instr .ret]), ?_, fun p l hmem => ?_⟩, h.returns,
    h.nodup⟩
  · have hplaced : Placed image start (assigned x.writer.labels.toList)
        (body ++ [.instr .ret] ++ padding (body ++ [.instr .ret])) := by
      refine ⟨hcarries, fun i hi => ?_, conditions_padding h.lays.conditions, fun p l t hmem => ?_⟩
      · rcases mem_padded hi with hi | rfl
        · exact h.lays.encodable i hi
        · exact Instr.encodable_ret
      · rw [jumps_padding] at hmem
        exact hnear p l t hmem
    rwa [List.append_assoc, List.singleton_append] at hplaced
  · have hmem' : (p, l) ∈ jumps 0 (body ++ [.instr .ret]) := by
      rw [jumps_append]
      exact List.mem_append_left _ hmem
    obtain ⟨label, hlabel, hoffset⟩ := Draft.exists_label (h.lays.known p l hmem')
    exact (h.lays.assigned_eq hmem' hlabel).trans hoffset

theorem Finished.runs_main (h : Finished x body meaning) {image : Image} {start : Nat}
    (hloaded : (x.program body image start).Loaded) (hfloats : image.floats = x.floats) {m : Machine} {f : Fiber}
    {s : Store} {env : Env} (hm : m.image = image) (hs : s.Holds x.names env) (hcallers : f.callers = [])
    (hpending : f.isPending = false) (budget : Nat) {left : Nat} (hleft : extent body < left) :
    ∃ s', s'.Holds x.names (meaning env).env ∧ Stepping.runWords 0 budget left (m.standing f start s) =
      .ok () (m.ended s') := by
  have hincludes : (x.program body image start).Includes x body :=
    ⟨List.prefix_rfl, List.prefix_rfl, by rw [← hfloats]; exact fun _ _ => id, fun _ _ => id⟩
  obtain ⟨s', hs', n, hn, hrun⟩ := h.runs _ hloaded rfl hincludes m f env s hm hs
  obtain ⟨target, more, hplaced, -⟩ := hloaded.placed
  obtain ⟨k, rfl⟩ : ∃ k, left = k + 1 + n := ⟨left - n - 1, by omega⟩
  refine ⟨s', hs', (hrun budget (k + 1)).trans ?_⟩
  rw [← show m.image = (x.program body image start).image from hm] at hplaced
  exact hplaced.runs_ret hcallers hpending budget k

end Sketch

def Fiber.main (id : UInt32) (info : FunctionInfo) : Fiber :=
  { Fiber.start id (.enter 0 info []) 0 with wakeAt := none }

/-- The main function runs to its end without a pause. -/
def Machine.RunsMain (m : Machine) (id : UInt32) (info : FunctionInfo) (s : Store) : Prop :=
  Stepping.runWords 0 (max m.config.stepBudget 1) (max m.config.stepBudget 1) { m with fibers := [.main id info] } =
    .ok () (m.ended s)

section

variable {m : Machine} {info : FunctionInfo} {s : Store} {id : UInt32} {now : Nat}

theorem Stepping.resume_started (m : Machine) (id : UInt32) (info : FunctionInfo) (now : Nat) :
    resume 0 { m with fibers := [.start id (.enter 0 info []) now] } =
      .ok true { m with fibers := [.main id info] } := by
  have hregs : (Frame.enter 0 info []).restoredRegs m.registers = m.registers := by
    have hnone : RegSet.empty.toList = [] := by decide
    rw [Frame.restoredRegs, show (Frame.enter 0 info []).saved = .empty from rfl, hnone, Frame.fetch]
  change EStateM.Result.ok true
    { m with registers := (Frame.enter 0 info []).restoredRegs m.registers, fibers := [.main id info] } = _
  rw [hregs]

theorem Stepping.runFiber_started (h : m.RunsMain id info s) :
    runFiber 0 { m with fibers := [.start id (.enter 0 info []) now] } = .ok () (m.ended s) := by
  rw [runFiber, bind_of_ok (resume_started ..)]
  exact h

namespace Scheduling

theorem run_started (h : m.RunsMain id info s) (hpanic : m.panic = none) :
    run 0 { m with fibers := [.start id (.enter 0 info []) now] } = .ok () (m.ended s) := by
  have hnone : ¬ m.panic.isSome = true := by rw [hpanic]; exact Bool.false_ne_true
  rw [run, if_neg hnone, Stepping.runFiber_started h]
  rfl

theorem runDue_started (h : m.RunsMain id info s) (hpanic : m.panic = none) (hnow : now ≤ m.host.now) :
    runDue m.host.now [id] { m with fibers := [.start id (.enter 0 info []) now] } = .ok () (m.ended s) := by
  have hnone : ¬ m.panic.isSome = true := by rw [hpanic]; exact Bool.false_ne_true
  have hfound : fiberIndex? { m with fibers := [.start id (.enter 0 info []) now] } id = some 0 := by
    simp [fiberIndex?, Fiber.start]
  have hdue : (Fiber.start id (.enter 0 info []) now).isDue m.host.now = true := decide_eq_true hnow
  rw [runDue]
  simp only [get_bind_apply, if_neg hnone, hfound, List.getElem?_cons_zero, Option.any_some, hdue, if_pos,
    bind_of_ok (run_started h hpanic)]
  rfl

theorem wakeDue_started (h : m.RunsMain id info s) (hpanic : m.panic = none) (hnow : now ≤ m.host.now) (fuel : Nat) :
    wakeDue (fuel + 2) { m with fibers := [.start id (.enter 0 info []) now] } = .ok () (m.ended s) := by
  have hdue : (Fiber.start id (.enter 0 info []) now).isDue m.host.now = true := decide_eq_true hnow
  have hend : wakeDue (fuel + 1) (m.ended s) = .ok () (m.ended s) := by
    rw [wakeDue]
    rfl
  have hfilter : [Fiber.start id (.enter 0 info []) now].filter (fun f => f.isDue m.host.now) =
      [.start id (.enter 0 info []) now] := by
    rw [List.filter_cons, if_pos hdue]
    rfl
  have hrun : wakeDue (fuel + 2) { m with fibers := [.start id (.enter 0 info []) now] } =
      (runDue m.host.now [id] >>= fun _ => wakeDue (fuel + 1))
        { m with fibers := [.start id (.enter 0 info []) now] } := by
    rw [wakeDue]
    simp only [get_bind_apply, hfilter]
    rfl
  rw [hrun, bind_of_ok (runDue_started h hpanic hnow), hend]

theorem settle_started (h : Machine.RunsMain { m with packet := {} } id info s) (hpanic : m.panic = none)
    (hsignals : m.signals = []) (hnow : now ≤ m.host.now) (fuel : Nat) :
    Outcome (fun _ m' => m' = Machine.ended { m with packet := {} } s) (fun _ _ => False)
      (settle (fuel + 3) { m with fibers := [.start id (.enter 0 info []) now] }) := by
  have hwake := @wakeDue_started _ _ _ _ now h hpanic hnow fuel
  have hidle : { m with signals := [], packet := {}, fibers := [.start id (.enter 0 info []) now] } =
      { m with packet := {}, fibers := [.start id (.enter 0 info []) now] } := by rw [← hsignals]
  have hdone : ¬ (!m.signals.isEmpty && m.panic.isNone) = true := by rw [hsignals]; nofun
  rw [settle]
  simp only [Outcome.bind_iff, Outcome.get_iff, Outcome.modify_iff, hsignals, wakeSignalled, Outcome.pure_iff, hidle]
  rw [hwake, Outcome.ok_iff, Outcome.ite_iff]
  exact ⟨fun hmore => absurd hmore hdone, fun _ => by rw [Outcome.pure_iff, ← hsignals]⟩

end Scheduling

theorem Machine.start_of_runsMain (hfibers : m.fibers = []) (hsignals : m.signals = []) (hpanic : m.panic = none)
    (hoverrun : m.overrun = none) (hmain : m.image.functions[0]? = some info)
    (h : Machine.RunsMain { m with nextFiberId := m.nextFiberId + 1, packet := {} } m.nextFiberId info s) (fuel : Nat) :
    m.start (fuel + 3) = some (.ok (), Machine.ended { m with nextFiberId := m.nextFiberId + 1, packet := {} } s) := by
  have hstarted : startFiber 0 [] .background m = .ok () { m with
        nextFiberId := m.nextFiberId + 1
        fibers := [.start m.nextFiberId (.enter 0 info []) m.host.now] } := by
    simp only [startFiber, Stepping.function, bind, EStateM.bind, get, getThe, MonadStateOf.get, EStateM.get, hmain,
      pure, EStateM.pure, if_pos, hfibers, List.nil_append]
    rfl
  have hnone : ¬ m.panic.isSome = true := by rw [hpanic]; exact Bool.false_ne_true
  have hsettle := @Scheduling.settle_started { m with nextFiberId := m.nextFiberId + 1 } info s m.nextFiberId
    m.host.now h hpanic hsignals (Nat.le_refl _) fuel
  have hact : Outcome (fun _ m' => m' = Machine.ended { m with nextFiberId := m.nextFiberId + 1, packet := {} } s)
      (fun _ _ => False) ((do Scheduling.startMain; Scheduling.settle (fuel + 3) : Scheduling Unit) m) := by
    rw [Outcome.bind_iff, Scheduling.startMain, hstarted]
    exact hsettle
  rw [start, call, if_neg hnone]
  revert hact
  cases (do Scheduling.startMain; Scheduling.settle (fuel + 3) : Scheduling Unit) m with
  | error e m' => exact False.elim
  | ok u m' =>
    rintro rfl
    simp only [conclude, Machine.ended, hoverrun]

end

theorem Store.holds_zero (registers : Registers) (names : List String) :
    Store.Holds ⟨registers, Array.replicate names.length 0⟩ names .zero := by
  refine ⟨Array.size_replicate, fun i name hi => ⟨0, ?_, .refl _⟩⟩
  rw [Array.getElem?_replicate, if_pos (List.getElem?_eq_some_iff.1 hi).1]

theorem Store.Holds.forall₂ {s : Store} {names : List String} {env : Env} (h : s.Holds names env) :
    List.Forall₂ Number.Alike s.globals.toList (names.map env) := by
  refine List.forall₂_iff_get.2 ⟨?_, fun i hi hi' => ?_⟩
  · rw [Array.length_toList, List.length_map, h.size]
  · rw [List.length_map] at hi'
    obtain ⟨z, hz, hlike⟩ := h.values i _ (List.getElem?_eq_getElem hi')
    grind

theorem Sketch.names_globals (x : Sketch) : x.globals.names = x.names := by
  rw [globals, Variables.names, List.map_map]
  exact List.map_id x.names

theorem Sketch.size_globals (x : Sketch) : x.globals.size = x.names.length := by
  simp [globals, Variables.size]

theorem Sketch.exists_loaded_main (x : Sketch) : ∃ info, x.draft.tables.loaded.functions[0]? = some info ∧
      x.draft.tables.loaded.Carries info.startPc x.writer.code.toList := by
  refine @ImageTables.carries_of_body _ _ _ [] _ [] (@Draft.getElem?_tables x.draft 0 _ rfl) ?_
  rw [List.nil_append, List.append_nil]
  rfl

theorem exists_finished_of_compile {catalog : Catalog} {options : CompileOptions} {script : List Stmt}
    {compiled : Compiled} (hplain : isPlainScript script = true)
    (hcompile : compile catalog options script = .ok compiled) (hclean : compiled.numErrors = 0) :
    ∃ (x : Sketch) (w : CodeWriter) (body : List Item), x.Finished body (Stmt.execAll script) ∧
      x.names = scriptVariables script ∧
      w.code.toList = render (assigned x.writer.labels.toList) 0
        (body ++ [.instr .ret] ++ padding (body ++ [.instr .ret])) ∧
      (∀ p l t, (p, l) ∈ jumps 0 (body ++ [.instr .ret]) → assigned x.writer.labels.toList p = some t →
        (ahead p t).natAbs ≤ maxJump) ∧
      draftOf catalog options script = .ok (Sketch.draft { x with writer := w }) ∧
      compiled = (Sketch.draft { x with writer := w }).compiled (Sketch.draft { x with writer := w }).tables.image := by
  obtain ⟨d, hdraft, -, rfl⟩ := exists_draft_of_compile hcompile
  have hout : Outcome _ _ _ := Lowering.wholeScript_comes catalog options hplain
  change Outcome _ _ (Lowering.wholeScript script (Draft.new catalog options)) at hout
  revert hout
  cases hwhole : Lowering.wholeScript script (Draft.new catalog options) with
  | error stop d0 =>
    rw [Draft.draftOf_of_error hwhole] at hdraft
    cases hdraft
  | ok u d0 =>
    intro hout
    have hfinalize := hdraft
    rw [Draft.draftOf_of_ok hwhole] at hfinalize
    have hfindings : d.findings = d0.findings := by
      rw [Draft.finalize, Except.bind_ok_iff] at hfinalize
      obtain ⟨procedures, -, h⟩ := hfinalize
      cases h
      rfl
    obtain ⟨x, rfl, hnames, body, hfinished⟩ := hout (hfindings ▸ hclean)
    obtain ⟨w, rfl, hcode, hnear⟩ := Sketch.exists_patched hfinished.lays hfinalize
    exact ⟨x, w, body, hfinished, hnames, hcode, hnear, hdraft, rfl⟩

theorem checkImage_of_compile {catalog : Catalog} {options : CompileOptions} {script : List Stmt} {compiled : Compiled}
    {d : Draft} (hdraft : draftOf catalog options script = .ok d) (hcompile : compile catalog options script = .ok compiled)
    (hclean : d.findings.count = 0) (hverify : options.verify = true) : checkImage d.tables.image = .ok () := by
  rcases compile_of_draft hdraft with ⟨-, himage⟩ | ⟨-, e, -, herror⟩
  · exact himage ⟨hverify, hclean⟩
  · cases hcompile.symm.trans herror

def Machine.fresh (image : Image) (host : Host) (config : Config) (random : Random) : Machine where
  image
  config
  host
  registers := .zero
  operands := {}
  globals := Array.replicate image.numGlobals 0
  roles := image.roles.toList.map Role.ofClass
  packet := {}
  wokenBy := none
  fibers := []
  nextFiberId := 0
  cache := .new config.cacheCapacity
  random
  panic := none
  nextAutobind := host.now + config.autobindInterval
  signals := []
  overrun := none

theorem Machine.new_of_checkImage {bytes : Bytes} {image : Image} (hload : Image.load bytes = .ok image)
    (hcheck : checkImage bytes = .ok ()) (host : Host) (config : Config) (random : Random) :
    Machine.new bytes host config random = .ok (.fresh image host config random) := by
  rw [checkImage, hload] at hcheck
  have hverify : image.verify = .ok () := hcheck
  rw [Machine.new, hload]
  change (image.verify >>= fun _ => _) = _
  rw [hverify]
  rfl

theorem Sketch.Finished.start_fresh {x : Sketch} {body : List Item} {meaning : Env → Progress} {image : Image}
    {info : FunctionInfo} {config : Config} (h : x.Finished body meaning)
    (hloaded : (x.program body image info.startPc).Loaded) (hfloats : image.floats = x.floats)
    (hcount : image.numGlobals = x.names.length) (hmain : image.functions[0]? = some info)
    (hbudget : extent body < config.stepBudget) (host : Host) (random : Random) (fuel : Nat) :
    ∃ m', (Machine.fresh image host config random).start (fuel + 3) = some (.ok (), m') ∧ m'.fibers = [] ∧
      m'.panic = none ∧ List.Forall₂ Number.Alike m'.globals.toList (x.names.map (meaning .zero).env) := by
  have hs : Store.Holds ⟨.zero, Array.replicate image.numGlobals 0⟩ x.names .zero := by
    rw [hcount]
    exact Store.holds_zero _ _
  obtain ⟨s', hs', hruns⟩ := @runs_main x body meaning h image info.startPc hloaded hfloats
    { Machine.fresh image host config random with nextFiberId := 1 } (.main 0 info) _ .zero rfl hs rfl rfl
    (max config.stepBudget 1) (max config.stepBudget 1) (Nat.lt_of_lt_of_le hbudget (Nat.le_max_left ..))
  have hstart := @Machine.start_of_runsMain (.fresh image host config random) info s' rfl rfl rfl rfl hmain hruns fuel
  exact ⟨_, hstart, rfl, rfl, hs'.forall₂⟩

/-- A plain script without problems, whatever else its machine is told: it is loaded, its main function runs to its
end, and in the end every global is what the script makes of its variable. The limits are those of the image: counts of
variables are numbers of 16 bits, and offsets are numbers of 32 bits. -/
theorem plain_scripts_run_as_they_mean {catalog : Catalog} {options : CompileOptions} {script : List Stmt}
    {compiled : Compiled} {main : CompiledFunction} (hplain : isPlainScript script = true)
    (hcompile : compile catalog options script = .ok compiled) (hclean : compiled.numErrors = 0)
    (hchecked : options.verify = true ∨ catalog.Fits) (hglobals : compiled.numGlobals ≤ 65535)
    (hsize : compiled.image.size < 2 ^ 32) (host : Host) (config : Config) (random : Random)
    (hmain : compiled.functions[0]? = some main) (hbudget : main.code.size < config.stepBudget) :
    (∀ debug ∈ compiled.debug, debug.globals = scriptVariables script) ∧
      ∃ m, Machine.new compiled.image host config random = .ok m ∧ ∀ fuel, ∃ m',
        m.start (fuel + 3) = some (.ok (), m') ∧ m'.fibers = [] ∧ m'.panic = none ∧
          List.Forall₂ Number.Alike m'.globals.toList ((scriptVariables script).map (scriptMeaning script)) := by
  obtain ⟨x, w, body, hfinished, hnames, hcode, hnear, hdraft, rfl⟩ := exists_finished_of_compile hplain hcompile hclean
  obtain ⟨hcomplete, hcatalog, -⟩ := Draft.complete_of_draftOf hdraft
  have hcheck : checkImage (Sketch.draft { x with writer := w }).tables.image = .ok () := by
    rcases hchecked with hverify | hfits
    · exact checkImage_of_compile hdraft hcompile hclean hverify
    · refine hcomplete.checkImage hclean (hcatalog ▸ hfits) hglobals (fun p hp => ?_) hsize
      cases Array.mem_singleton.1 hp
      exact Nat.zero_le _
  have hload := ImageTables.load_image hcomplete.aligned hsize
  refine ⟨fun debug hdebug => ?_, _, Machine.new_of_checkImage hload hcheck host config random, fun fuel => ?_⟩
  · rw [Draft.compiled, Option.mem_def, Option.ite_none_right_eq_some] at hdebug
    cases hdebug.2
    exact (Sketch.names_globals x).trans hnames
  · obtain ⟨info, hinfo, hcarries⟩ := Sketch.exists_loaded_main { x with writer := w }
    rw [show ({ x with writer := w } : Sketch).writer = w from rfl, hcode] at hcarries
    have hcount : (Sketch.draft { x with writer := w }).tables.loaded.numGlobals = x.names.length :=
      (Nat.mod_eq_of_lt (Nat.lt_succ_of_le hglobals)).trans (Sketch.size_globals x)
    have hextent : extent body < config.stepBudget := by
      cases hmain
      refine Nat.lt_of_le_of_lt ?_ hbudget
      change _ ≤ w.code.size
      rw [← Array.length_toList, hcode, length_render, List.append_assoc, extent_append]
      exact Nat.le_add_right ..
    rw [← hnames]
    have hloaded := hfinished.loaded hcarries hnear
    exact hfinished.start_fresh hloaded Array.toArray_toList hcount hinfo hextent host random fuel

/-- Branches, a variable declared inside of one, and code behind a return:
`var x = 3; var y; if (x > 2) { var z = Math.max(x, 0.5) * 2; y = -z } else { return } if (false) { x = 7 }
y = y / 0; return; x = 100` -/
def dividingScript : List Stmt :=
  let name (text : String) : Expr := .ident ⟨text, {}⟩
  let number (x : Number) : Expr := .literal {} (.number x)
  let set (text : String) (value : Expr) : Stmt := .expr {} (.assign {} (name text) value)
  [.var {} .var [.mk ⟨"x", {}⟩ (some (number 3)) {}],
    .var {} .var [.mk ⟨"y", {}⟩ none {}],
    .ifElse {} (.binary {} .greater (name "x") (number 2))
      (.block {} [.var {} .var [.mk ⟨"z", {}⟩ (some (.binary {} .mul
          (.call {} (.member {} (name "Math") ⟨"max", {}⟩) [name "x", number 0.5]) (number 2))) {}],
        set "y" (.unary {} .neg (name "z"))])
      (some (.block {} [.ret {} none])),
    .ifElse {} (.literal {} (.bool false)) (.block {} [set "x" (number 7)]) none,
    set "y" (.binary {} .div (name "y") (number 0)),
    .ret {} none,
    set "x" (number 100)]

def compilesWithin (script : List Stmt) (budget : Nat) : Bool :=
  match compile Catalog.builtin {} script with
  | .error _ => false
  | .ok compiled => compiled.numErrors = 0 ∧ compiled.numGlobals ≤ 65535 ∧ compiled.image.size < 2 ^ 32 ∧
      compiled.functions[0]?.any (·.code.size < budget)

theorem exists_of_compilesWithin {script : List Stmt} {budget : Nat} (h : compilesWithin script budget = true) :
    ∃ compiled main, compile Catalog.builtin {} script = .ok compiled ∧ compiled.numErrors = 0 ∧
      compiled.numGlobals ≤ 65535 ∧ compiled.image.size < 2 ^ 32 ∧ compiled.functions[0]? = some main ∧
      main.code.size < budget := by
  rw [compilesWithin] at h
  split at h
  · cases h
  · next compiled hcompile =>
    obtain ⟨hclean, hglobals, hsize, hmain⟩ := of_decide_eq_true h
    obtain ⟨main, hmain, hcode⟩ := (Option.any_eq_true _ _).1 hmain
    exact ⟨compiled, main, hcompile, hclean, hglobals, hsize, hmain, of_decide_eq_true hcode⟩

theorem plain_scripts_run_as_they_mean_dividing :
    ∃ compiled m, compile Catalog.builtin {} dividingScript = .ok compiled ∧ compiled.numErrors = 0 ∧
      Machine.new compiled.image {} { stepBudget := 64 } (.ofSeed 1) = .ok m ∧ ∃ m',
        m.start 3 = some (.ok (), m') ∧ m'.fibers = [] ∧ m'.panic = none ∧
          List.Forall₂ Number.Alike m'.globals.toList [3, -Number.infinity, 6] := by
  have hcompiles : compilesWithin dividingScript 64 = true := by decide +kernel
  have hmeaning : (scriptVariables dividingScript).map (scriptMeaning dividingScript) =
      [3, -Number.infinity, 6] := by decide +kernel
  obtain ⟨compiled, main, hcompile, hclean, hglobals, hsize, hmain, hcode⟩ := exists_of_compilesWithin hcompiles
  obtain ⟨-, m, hnew, hstart⟩ := plain_scripts_run_as_they_mean (by decide +kernel) hcompile hclean
    (.inl rfl) hglobals hsize
    {} { stepBudget := 64 } (.ofSeed 1) hmain hcode
  obtain ⟨m', hm', hfibers, hpanic, hvalues⟩ := hstart 0
  exact ⟨compiled, m, hcompile, hclean, hnew, m', hm', hfibers, hpanic, hmeaning ▸ hvalues⟩

end BusScript
