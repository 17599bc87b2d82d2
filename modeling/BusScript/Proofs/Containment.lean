import BusScript.Image.Layout
import BusScript.Proofs.CallSafety

namespace BusScript

/-- The machines that calls lead to. Between two calls the clock, the devices and what was handed over may
change in any way, but the bus is never down. -/
inductive Machine.Reaches (m : Machine) : Machine → Prop
  | refl : m.Reaches m
  | host {m' : Machine} (host : Host) : m.Reaches m' → host.sendsLeft = none → m.Reaches { m' with host }
  | call {m' m'' : Machine} {outcome : Except MachineError Unit} (fuel : Nat) (call : HostCall) :
      m.Reaches m' → call.run fuel m' = some (outcome, m'') → m.Reaches m''

namespace Machine

variable {image : Image} {m m' : Machine} {outcome : Except MachineError Unit}

/-- All fibers are at rest, or the program has stopped for a panic that its code asks for. -/
def Confined (image : Image) (m : Machine) : Prop :=
  m.Rests image ∨ ∃ code ∈ image.panicCodes, m.panic = some code ∧ m.Stopped image

theorem Confined.mem_panicCodes (h : m.Confined image) {code : PanicCode}
    (hpanic : m.panic = some code) : code ∈ image.panicCodes := by
  rcases h with h | ⟨code', hmem, hpanic', -⟩
  · rw [h.panic] at hpanic
    cases hpanic
  · simp_all

theorem Confined.host (h : m.Confined image) {host : Host} (hsends : host.sendsLeft = none) :
    Confined image { m with host } := by
  rcases h with h | ⟨code, hmem, hpanic, h⟩
  · exact .inl ⟨⟨⟨h.image_eq, h.globals, h.roles, h.limit, hsends⟩, h.panic⟩, h.operands, h.fibers⟩
  · exact .inr ⟨code, hmem, hpanic, ⟨h.image_eq, h.globals, h.roles, h.limit, hsends⟩, h.fibers⟩

theorem Confined.run (hsafe : image.Safe) (h : m.Confined image) {fuel : Nat} {call : HostCall}
    (hcall : call.run fuel m = some (outcome, m')) :
    m'.Confined image ∧ ∀ code, outcome = .error (.panicked code) → code ∈ image.panicCodes := by
  rcases h with h | ⟨code, hmem, hpanic, h⟩
  · obtain ⟨a, hcomes, hover, hresult⟩ := HostCall.comesTo_of_run h.panic hcall
    have hstands : a.Stands := Moment.Stands.comesTo (.live h.panic rfl) hcomes
    obtain ⟨n, rfl⟩ := hcomes
    have hkept := Moment.Kept.after hsafe (a := call.first m) (.rests rfl h) n
    generalize (call.first m).after n = a at hover hresult hstands hkept
    cases hkept with
    | runs hturn =>
      rw [Moment.isOver, Moment.next?, hturn] at hover
      cases hover
    | rests _ hrests =>
      cases hstands with
      | live _ hstage =>
        rw [Moment.isOver_of_isOpen hstage] at hover
        cases hover
      | failed _ hpanic =>
        rw [hrests.panic] at hpanic
        cases hpanic
      | done _ hrest =>
        rw [hrest] at hresult
        cases hresult
        refine ⟨.inl (hrests.congr rfl rfl rfl), fun code hcode => ?_⟩
        cases hoverrun : a.machine.overrun <;> simp [Moment.rest, hoverrun] at hcode
    | stopped hmem hpanic hstopped hfailed =>
      rw [hfailed] at hresult
      cases hresult
      refine ⟨.inr ⟨_, hmem, hpanic, ⟨hstopped.image_eq, hstopped.globals, hstopped.roles,
        hstopped.limit, hstopped.sends⟩, hstopped.fibers⟩, fun other hother => ?_⟩
      cases hother
      exact hmem
  · rw [HostCall.run_of_panic (by rw [hpanic]; rfl)] at hcall
    cases hcall
    exact ⟨.inr ⟨code, hmem, hpanic, h⟩, fun _ hother => by cases hother⟩

theorem Confined.reaches (hsafe : image.Safe) (h : m.Confined image) (hreach : m.Reaches m') :
    m'.Confined image := by
  induction hreach with
  | refl => exact h
  | host host _ hsends ih => exact ih.host hsends
  | call fuel call _ hcall ih => exact (ih.run hsafe hcall).1

variable {bytes : Bytes} {host : Host} {config : Config} {random : Random}

theorem verify_of_new (h : Machine.new bytes host config random = .ok m) : m.image.verify = .ok () := by
  obtain ⟨image, -, hverify, rfl⟩ := Machine.eq_of_new h
  exact hverify

theorem image_of_new {image : Image} (h : Machine.new bytes host config random = .ok m)
    (hload : Image.load bytes = .ok image) : m.image = image := by
  simp only [Machine.new, Except.bind_ok_iff, pure, Except.pure, Except.ok.injEq] at h
  grind

theorem rests_of_new (h : Machine.new bytes host config random = .ok m)
    (hlimit : maxPayload ≤ config.payloadLimit) (hsends : host.sendsLeft = none) :
    m.Rests m.image := by
  obtain ⟨image, -, -, rfl⟩ := Machine.eq_of_new h
  exact ⟨⟨⟨rfl, by simp, by simp, hlimit, hsends⟩, rfl⟩, rfl, by simp⟩

end Machine

theorem Image.safe_of_isClosed {image : Image} (hverify : image.verify = .ok ())
    (hclosed : image.isClosed = true) : image.Safe := by
  rw [isClosed, Bool.and_eq_true, decide_eq_true_iff] at hclosed
  refine ⟨fun hf => checked_of_verify hverify hf, fun {index f} hf => ?_, hclosed.1⟩
  grind

namespace ImageTables

/-- The image of a main function with one global and one local. -/
def ofMain (body : List UInt16) : ImageTables where
  numGlobals := 1
  functions := [{ body := (body.map Word.mk).toArray, numLocals := 1, numRegs := 0, numParams := 0 }]
  floats := []
  roles := []
  strings := []

def trial (t : ImageTables) : Option (Bool × List PanicCode × Option PanicCode) :=
  match Machine.new t.image {} {} (.ofSeed 1) with
  | .error _ => none
  | .ok m =>
    (m.start 2).map fun called => (m.image.isClosed, m.image.panicCodes, called.2.panic)

theorem trial_eq_some {t : ImageTables} {closed : Bool} {codes : List PanicCode}
    {panic : Option PanicCode} (h : t.trial = some (closed, codes, panic)) :
    ∃ m outcome m', Machine.new t.image {} {} (.ofSeed 1) = .ok m ∧ m.image.isClosed = closed ∧
      m.image.panicCodes = codes ∧ m.start 2 = some (outcome, m') ∧ m'.panic = panic := by
  rw [trial] at h
  cases hnew : Machine.new t.image {} {} (.ofSeed 1) with
  | error e => simp [hnew] at h
  | ok m =>
    rw [hnew] at h
    obtain ⟨⟨outcome, m'⟩, hstart, heq⟩ := Option.map_eq_some_iff.1 h
    grind

end ImageTables

namespace Machine

/-- A machine whose image passes the checks and is closed stops only for panics that its code asks for, and
calls report no others. So it reports an internal error only if its code asks for just that. -/
theorem panics_only_as_asked {bytes : Bytes} {host : Host} {config : Config} {random : Random}
    {m m' : Machine} (hnew : Machine.new bytes host config random = .ok m)
    (hlimit : maxPayload ≤ config.payloadLimit) (hsends : host.sendsLeft = none)
    (hclosed : m.image.isClosed = true) (hreach : m.Reaches m') :
    (∀ code, m'.panic = some code → code ∈ m.image.panicCodes) ∧
      ∀ (fuel : Nat) (call : HostCall) (m'' : Machine) (code : PanicCode),
        call.run fuel m' = some (.error (.panicked code), m'') → code ∈ m.image.panicCodes := by
  have hsafe := Image.safe_of_isClosed (verify_of_new hnew) hclosed
  have hconfined : m'.Confined m.image :=
    Confined.reaches hsafe (.inl (rests_of_new hnew hlimit hsends)) hreach
  exact ⟨fun code => hconfined.mem_panicCodes, fun fuel call m'' code hcall => (hconfined.run hsafe hcall).2 code rfl⟩

/-- A main function that stores 5 in its global and panics with code 7 because that is not zero. -/
theorem panics_only_as_asked_seven : ∃ m m', Machine.new (ImageTables.ofMain
        [0x70c5, 0x8040, 0x9041, 0xb708, 0xb000, 0xb000]).image {} {} (.ofSeed 1) = .ok m ∧
      m.image.isClosed = true ∧ m.Reaches m' ∧ m'.panic = some (.user 7) ∧
      PanicCode.user 7 ∈ m.image.panicCodes := by
  have htrial : (ImageTables.ofMain [0x70c5, 0x8040, 0x9041, 0xb708, 0xb000, 0xb000]).trial =
      some (true, [.user 7], some (.user 7)) := by decide +kernel
  obtain ⟨m, outcome, m', hnew, hclosed, -, hstart, hpanic⟩ := ImageTables.trial_eq_some htrial
  have hreach : m.Reaches m' := .call 2 .start .refl hstart
  exact ⟨m, m', hnew, hclosed, hreach, hpanic, (panics_only_as_asked hnew (by decide) rfl hclosed hreach).1 _ hpanic⟩

end Machine

open ImageTables in
/-- Every part of the condition is needed. The first image loads from a cell of kind 256, which the checks
take for kind 0. The second has nothing behind its last word. The third jumps behind a prefix word, and
then loads a global that does not exist. The fourth has no main function. The last one is closed, and
asks for an internal error. -/
theorem accepted_images_panic : trial (ofMain [0x0040, 0x7000, 0x8040, 0xb000]) = some (false, [], some .internal) ∧
    trial (ofMain [0x70c5, 0x8040]) = some (false, [], some .internal) ∧
    trial (ofMain [0x9001, 0x0001, 0x7041, 0xb000]) = some (false, [], some .internal) ∧
    trial ⟨0, [], [], [], []⟩ = some (false, [], some .internal) ∧
    trial (ofMain [0x4010, 0xb108]) = some (true, [.internal], some .internal) := by
  refine ⟨?_, ?_, ?_, ?_, ?_⟩ <;> decide +kernel

end BusScript
