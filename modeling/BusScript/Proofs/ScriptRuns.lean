import BusScript.Catalog.Builtin
import BusScript.Draft.Compiled
import BusScript.Proofs.Moves

namespace BusScript

/-- What a host does with a machine: a call, or another time on the clock. -/
inductive Deed where
  | call (call : HostCall)
  | clock (now : Nat)

/-- Does one thing after another, and keeps a record of the packets that are delivered. -/
def Machine.play : List Deed → List (Nat × Packet) → Machine → Option (List (Nat × Packet) × Machine)
  | [], record, m => some (record, m)
  | .clock now :: rest, record, m => play rest record { m with host := { m.host with now } }
  | .call call :: rest, record, m =>
    match call.run 64 m with
    | none => none
    | some (_, m') => play rest (record ++ call.delivers m.host.now) m'

theorem Machine.Recorded.play {m m' m'' : Machine} {record record' : List (Nat × Packet)}
    {deeds : List Deed} (h : m.Recorded record m')
    (hplay : m'.play deeds record = some (record', m'')) : m.Recorded record' m'' := by
  induction deeds generalizing m' record with
  | nil =>
    cases hplay
    exact h
  | cons deed rest ih =>
    cases deed with
    | clock now => exact ih (h.host _) hplay
    | call call =>
      rw [Machine.play] at hplay
      split at hplay
      · cases hplay
      · next hrun => exact ih (h.call 64 call hrun) hplay

/-- Whether a script runs to where `check` is true. -/
def playsTo (script : List Stmt) (host : Host) (deeds : List Deed)
    (check : List (Nat × Packet) → Machine → Bool) : Bool :=
  match compile Catalog.builtin {} script with
  | .error _ => false
  | .ok compiled =>
    match Machine.new compiled.image host {} (.ofSeed 1) with
    | .error _ => false
    | .ok m =>
      match m.play deeds [] with
      | none => false
      | some (record, m') => check record m'

variable {script : List Stmt} {host : Host} {deeds : List Deed}
  {check : List (Nat × Packet) → Machine → Bool}

theorem exists_play_of_playsTo (h : playsTo script host deeds check = true) :
    ∃ compiled m record m', compile Catalog.builtin {} script = .ok compiled ∧
      Machine.new compiled.image host {} (.ofSeed 1) = .ok m ∧
      m.play deeds [] = some (record, m') ∧ check record m' = true := by
  rw [playsTo] at h
  split at h
  · cases h
  · next compiled hcompile =>
    split at h
    · cases h
    · next m hnew =>
      split at h
      · cases h
      · next record m' hplay => exact ⟨compiled, m, record, m', hcompile, hnew, hplay, h⟩

theorem exists_of_playsTo (h : playsTo script host deeds check = true) :
    ∃ compiled m record m', compile Catalog.builtin {} script = .ok compiled ∧
      Machine.new compiled.image host {} (.ofSeed 1) = .ok m ∧ m.Recorded record m' ∧
      check record m' = true := by
  obtain ⟨compiled, m, record, m', hcompile, hnew, hplay, hcheck⟩ := exists_play_of_playsTo h
  exact ⟨compiled, m, record, m', hcompile, hnew, Machine.Recorded.refl.play hplay, hcheck⟩

def servoHost : Host := { devices := [⟨⟨1⟩, [0, Builtin.servoClass]⟩] }

/-- The servo reports its angle, with two bytes in front of the whole degrees. -/
def angleReport (degrees : UInt8) : Packet := .report ⟨1⟩ 1 0x1002 #[0, 0, degrees, 0]

namespace Script

def name (text : String) : Expr := .ident ⟨text, {}⟩

def member (object : Expr) (text : String) : Expr := .member {} object ⟨text, {}⟩

/-- `text.angle.method(args)` -/
def onAngle (text method : String) (args : List Expr) : Expr :=
  .call {} (member (member (name text) "angle") method) args

def declare (text : String) (init : Option Expr) : Stmt := .var {} .var [.mk ⟨text, {}⟩ init {}]

def set (text : String) (value : Expr) : Stmt := .expr {} (.assign {} (name text) value)

end Script

open Script in
/-- Reads the angle of a servo, waits for a quarter of a second, reads it once more, writes seven degrees and
reads again. -/
def rereadingScript : List Stmt :=
  [declare "s" (some (.call {} (member (name "roles") "servo") [])),
    declare "x" (some (onAngle "s" "read" [])),
    .expr {} (.call {} (name "wait") [.literal {} (.number 0.25)]),
    set "x" (onAngle "s" "read" []),
    .expr {} (onAngle "s" "write" [.literal {} (.number 7)]),
    declare "y" (some (onAngle "s" "read" []))]

/-- The servo is connected, the script starts and gets a report of five degrees; it goes on 300 milliseconds
later. -/
def oneReport : List Deed :=
  [.call .connected, .call .start, .call (.packet (angleReport 5)), .clock 300, .call .tick]

end BusScript
