import BusScript.Catalog.Builtin
import BusScript.Proofs.Containment
import BusScript.Proofs.FinishedBodies

namespace BusScript

theorem Body.Sound.back {fits : Prop} {b : Bounds} {code : Array Word} (h : Body.Sound fits b code) :
    code.back?.any (fun w => w.isSync .panic) = false := by
  obtain ⟨target, items, cs, hfills, rfl⟩ := h
  have hlast := hfills.last
  rw [List.getLast?_eq_getElem?] at hlast
  obtain ⟨last, hc, -, hword, -⟩ := hfills.rows.exists_chunk hlast
  have hgetLast : cs.getLast? = some last := by
    rw [List.getLast?_eq_getElem?, hfills.rows.length]
    exact hc
  rw [Body.back?_body hgetLast, hword]
  decide

namespace Draft

variable {d : Draft}

/-- A frame that stopped behind an instruction of a compiled function stands at the next one. -/
theorem Complete.rests_of_stopped (h : d.Complete) (hclean : d.findings.count = 0) {frame : Frame}
    (hframe : frame.Stopped d.tables.loaded) : frame.Rests d.tables.loaded := by
  obtain ⟨f, n, hat, hstart, hlt | hpanic⟩ := hframe
  · exact ⟨f, n, hat, hlt, hstart⟩
  · obtain ⟨p, s, hp, -, hbody⟩ := exists_of_loaded hat.function
    rw [hbody, (h.bodies hclean p (Array.mem_of_getElem? hp)).1.back] at hpanic
    cases hpanic

theorem Complete.frames_rest (h : d.Complete) (hclean : d.findings.count = 0) {m : Machine}
    (hm : m.Confined d.tables.loaded) {fiber : Fiber} (hfiber : fiber ∈ m.fibers) :
    ∀ frame ∈ fiber.frame :: fiber.callers, frame.Rests d.tables.loaded := by
  have hstopped : m.Stopped d.tables.loaded := by
    rcases hm with hrests | ⟨code, -, -, hstopped⟩
    · exact hrests.stopped
    · exact hstopped
  obtain ⟨hsound, hframe⟩ := hstopped.fibers fiber hfiber
  exact List.forall_mem_cons.2 ⟨h.rests_of_stopped hclean hframe, hsound.callers⟩

end Draft

def PanicCode.IsUser (code : PanicCode) : Prop := code = .restart ∨ ∃ n, 1 ≤ n ∧ n ≤ 9999 ∧ code = .user n

theorem PanicCode.isUser_ofOperand {a : Nat} (ha : a ≤ 9999) : (ofOperand a).IsUser := by
  rw [ofOperand, restartCode, internalCode]
  split
  · exact .inl rfl
  · rw [if_neg (by omega)]
    exact .inr ⟨a, by omega, ha, rfl⟩

/-- A script without problems, whatever its catalog and its host: panics are those that it asks for, and
between calls all frames stand at instructions of their functions. Offsets in an image are numbers of 32
bits, and no image is longer than they can tell. -/
theorem compiled_scripts_panic_only_as_asked {catalog : Catalog} {options : CompileOptions}
    {script : List Stmt} {compiled : Compiled} {host : Host} {config : Config} {random : Random}
    {m m' : Machine} (hcompile : compile catalog options script = .ok compiled)
    (hclean : compiled.numErrors = 0) (hsize : compiled.image.size < 2 ^ 32)
    (hnew : Machine.new compiled.image host config random = .ok m)
    (hlimit : maxPayload ≤ config.payloadLimit) (hsends : host.sendsLeft = none) (hreach : m.Reaches m') :
    (∀ code, m'.panic = some code → code.IsUser) ∧ (∀ (fuel : Nat) (call : HostCall) (m'' : Machine) (code : PanicCode),
        call.run fuel m' = some (.error (.panicked code), m'') → code.IsUser) ∧
      ∀ fiber ∈ m'.fibers, ∀ frame ∈ fiber.frame :: fiber.callers, frame.Rests m.image := by
  obtain ⟨d, -, hcomplete, rfl⟩ := exists_draft_of_compile hcompile
  have himage : m.image = d.tables.loaded := Machine.image_of_new hnew (ImageTables.load_image hcomplete.aligned hsize)
  have hsafe : d.tables.loaded.Safe := Image.safe_of_isClosed (himage ▸ Machine.verify_of_new hnew)
    (hcomplete.isClosed hclean)
  have hrests : m.Rests d.tables.loaded := himage ▸ Machine.rests_of_new hnew hlimit hsends
  have hconfined : m'.Confined d.tables.loaded := Machine.Confined.reaches hsafe (.inl hrests) hreach
  have huser : ∀ code ∈ d.tables.loaded.panicCodes, code.IsUser := by
    intro code hcode
    obtain ⟨a, ha, rfl⟩ := hcomplete.panicCodes hclean hcode
    exact PanicCode.isUser_ofOperand ha
  refine ⟨fun code hpanic => huser code (hconfined.mem_panicCodes hpanic), fun fuel call m'' code hcall => ?_,
    fun fiber hfiber => ?_⟩
  · exact huser code ((hconfined.run hsafe hcall).2 code rfl)
  · rw [himage]
    exact hcomplete.frames_rest hclean hconfined hfiber

/-- If a script compiles without problems and its image is accepted: how its main function stops. -/
def trialRun (script : List Stmt) : Option (Option PanicCode) :=
  match compile Catalog.builtin {} script with
  | .error _ => none
  | .ok compiled =>
    if compiled.numErrors = 0 ∧ compiled.image.size < 2 ^ 32 then
      match Machine.new compiled.image {} {} (.ofSeed 1) with
      | .error _ => none
      | .ok m => (m.start 64).map (·.2.panic)
    else none

theorem trialRun_eq_some {script : List Stmt} {panic : Option PanicCode} (h : trialRun script = some panic) :
    ∃ compiled m m', compile Catalog.builtin {} script = .ok compiled ∧ compiled.numErrors = 0 ∧
      compiled.image.size < 2 ^ 32 ∧ Machine.new compiled.image {} {} (.ofSeed 1) = .ok m ∧ m.Reaches m' ∧
      m'.panic = panic := by
  rw [trialRun] at h
  split at h
  · cases h
  · next compiled hcompile =>
    split at h
    · next hfine =>
      split at h
      · cases h
      · next m hnew =>
        obtain ⟨⟨outcome, m'⟩, hstart, rfl⟩ := Option.map_eq_some_iff.1 h
        exact ⟨compiled, m, m', hcompile, hfine.1, hfine.2, hnew, .call 64 .start .refl hstart, rfl⟩
    · cases h

/-- `var x = 3; check(x); function check(a) { if (a > 2) { panic(7) } }` -/
def panickingScript : List Stmt :=
  [.var {} .var [.mk ⟨"x", {}⟩ (some (.literal {} (.number (.ofNat 3)))) {}],
    .expr {} (.call {} (.ident ⟨"check", {}⟩) [.ident ⟨"x", {}⟩]),
    .function {} { name := ⟨"check", {}⟩, params := [.ident ⟨"a", {}⟩] }
      [.ifElse {} (.binary {} .greater (.ident ⟨"a", {}⟩) (.literal {} (.number (.ofNat 2))))
        (.block {} [.expr {} (.call {} (.ident ⟨"panic", {}⟩) [.literal {} (.number (.ofNat 7))])]) none]]

theorem compiled_scripts_panic_only_as_asked_seven :
    ∃ compiled m m', compile Catalog.builtin {} panickingScript = .ok compiled ∧ compiled.numErrors = 0 ∧
      Machine.new compiled.image {} {} (.ofSeed 1) = .ok m ∧ m.Reaches m' ∧ m'.panic = some (.user 7) ∧
      (PanicCode.user 7).IsUser ∧
      ∀ fiber ∈ m'.fibers, ∀ frame ∈ fiber.frame :: fiber.callers, frame.Rests m.image := by
  have htrial : trialRun panickingScript = some (some (.user 7)) := by decide +kernel
  obtain ⟨compiled, m, m', hcompile, hclean, hsize, hnew, hreach, hpanic⟩ := trialRun_eq_some htrial
  obtain ⟨huser, -, hrests⟩ := compiled_scripts_panic_only_as_asked hcompile hclean hsize hnew (by decide) rfl hreach
  exact ⟨compiled, m, m', hcompile, hclean, hnew, hreach, hpanic, huser _ hpanic, hrests⟩

end BusScript
