import BusScript.Bus.Packet

namespace BusScript

structure CachedRegister where
  role : Nat
  code : CommandCode
  /-- What a report has in front of the value, with a zero behind it. -/
  argument : Option Bytes := none
  lastAccess : Nat := 0
  lastRefresh : Nat := 0
  value : Bytes := #[]
  isDead : Bool := false
  deriving DecidableEq, Repr

namespace CachedRegister

def isExpired (r : CachedRegister) (now validity : Nat) : Bool := validity < now - r.lastRefresh

/-- The value in a payload that answers for `argument`. -/
def answer? (argument : Option Bytes) (data : Bytes) : Option Bytes :=
  match argument with
  | none => some data
  | some argument =>
    let n := argument.size
    if n < data.size && data[n]? == some 0 && data.extract 0 n == argument then
      some (data.extract (n + 1) data.size)
    else none

def update? (r : CachedRegister) (role : Nat) (p : Packet) (now : Nat) : Option CachedRegister :=
  if r.isDead || r.role != role || r.code != p.code || !p.isReport then none
  else (answer? r.argument p.data).map fun value => { r with value, lastRefresh := now }

def kill (r : CachedRegister) : CachedRegister := { r with isDead := true }

end CachedRegister

structure RegisterCache where
  entries : List CachedRegister
  accesses : Nat
  capacity : Nat
  deriving DecidableEq, Repr

namespace RegisterCache

def new (capacity : Nat) : RegisterCache := ⟨[], 0, max capacity 1⟩

def isLive (r : CachedRegister) : Bool := !r.isDead

def liveCount (c : RegisterCache) : Nat := c.entries.countP isLive

def isFor (role : Nat) (code : CommandCode) (argument : Option Bytes) (r : CachedRegister) : Bool :=
  isLive r && r.role == role && r.code == code && r.argument == argument

def findIdx? (c : RegisterCache) (role : Nat) (code : CommandCode) (argument : Option Bytes) :
    Option Nat :=
  c.entries.findIdx? (isFor role code argument)

def modify (c : RegisterCache) (index : Nat) (f : CachedRegister → CachedRegister) :
    RegisterCache :=
  { c with entries := c.entries.modify index f }

/-- A fresh entry, which counts as an access. An entry that is too old is dropped on the way. -/
def lookup (c : RegisterCache) (role : Nat) (code : CommandCode) (argument : Option Bytes)
    (now validity : Nat) : Option CachedRegister × RegisterCache :=
  match c.findIdx? role code argument with
  | none => (none, c)
  | some index =>
    match c.entries[index]? with
    | none => (none, c)
    | some r =>
      if r.isExpired now validity then (none, c.modify index CachedRegister.kill)
      else
        let hit := { r with lastAccess := c.accesses }
        (some hit, { c.modify index fun _ => hit with accesses := c.accesses + 1 })

def invalidate (c : RegisterCache) (role : Nat) (code : CommandCode) : RegisterCache :=
  match c.findIdx? role code none with
  | some index => c.modify index CachedRegister.kill
  | none => c

def detach (c : RegisterCache) (role : Nat) : RegisterCache :=
  { c with entries := c.entries.map fun r => if r.role == role then r.kill else r }

def update (c : RegisterCache) (role : Nat) (p : Packet) (now : Nat) : RegisterCache :=
  { c with entries := c.entries.map fun r => (r.update? role p now).getD r }

def oldest? (entries : List CachedRegister) : Option Nat :=
  ((entries.filter isLive).map (·.lastAccess)).min?

/-- Kills the oldest live entries, in at most `rounds` rounds, until at most `target` are left. -/
def killOldest (target : Nat) : (rounds : Nat) → List CachedRegister → List CachedRegister
  | 0, entries => entries
  | rounds + 1, entries =>
    if entries.countP isLive ≤ target then entries
    else
      match oldest? entries with
      | none => entries
      | some stamp =>
        killOldest target rounds
          (entries.map fun r => if r.lastAccess ≤ stamp then r.kill else r)

/-- Gives up the oldest entries until half of the capacity is free, and forgets dead ones. Every round
kills at least one entry, so there are enough rounds. -/
def evict (c : RegisterCache) : RegisterCache :=
  { c with
    entries := (killOldest (c.capacity / 2) c.entries.length c.entries).filter isLive }

def add (c : RegisterCache) (r : CachedRegister) : RegisterCache :=
  let c := if c.capacity ≤ c.entries.length then c.evict else c
  { c with
    entries := c.entries ++ [{ r with lastAccess := c.accesses }]
    accesses := c.accesses + 1 }

end RegisterCache

end BusScript
