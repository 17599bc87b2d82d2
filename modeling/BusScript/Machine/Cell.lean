import BusScript.Machine.Basic

namespace BusScript

namespace Stepping

def ofOption (cell : Option Number) (kind index : Nat) : Stepping Number :=
  match cell with
  | some x => return x
  | none => invalid (.noCell kind index)

def loadSpecial (special : SpecialValue) : Stepping Number := do
  let m ← get
  let p := m.packet
  let orNan (n : Option Nat) : Number := (n.map Number.ofNat).getD Number.nan
  match special with
  | .nan => return Number.nan
  | .size => return Number.ofNat p.data.size
  | .eventCode => return orNan p.eventNumber?
  | .registerGetCode =>
    return orNan (if CommandCode.isGet p.code then some (CommandCode.register p.code) else none)
  | .roleId => return orNan m.wokenBy

def loadCell (fiberIdx kind index c : Nat) : Stepping Number := do
  let m ← get
  match ← known kind (CellKind.ofCode? kind) with
  | .local => ofOption (← fiber fiberIdx).frame.slots[index]? kind index
  | .global => ofOption m.globals[index]? kind index
  | .floatConst => ofOption m.image.floats[index]? kind index
  | .identity => return Number.ofNat index
  | .buffer =>
    let format ← known (index % 16) (FieldFormat.ofCode? (index % 16))
    return format.load m.packet.data c (index / 16)
  | .special => loadSpecial (← known index (SpecialValue.ofCode? index))
  | .roleProperty =>
    match m.roles[index]? with
    | none => invalid (.noCell kind index)
    | some role =>
      match ← known c (RoleProperty.ofCode? c) with
      | .isConnected => return Number.ofBool role.isConnected

def storeLocal (fiberIdx kind index : Nat) (x : Number) : Stepping Unit := do
  if index < (← fiber fiberIdx).frame.slots.size then
    modifyFrame fiberIdx fun f => { f with slots := f.slots.setIfInBounds index x }
  else invalid (.noCell kind index)

def storeCell (fiberIdx kind index c : Nat) (x : Number) : Stepping Unit := do
  match ← known kind (CellKind.ofCode? kind) with
  | .local => storeLocal fiberIdx kind index x
  | .global =>
    if index < (← get).globals.size then
      modify fun m => { m with globals := m.globals.setIfInBounds index x }
    else invalid (.noCell kind index)
  | .buffer =>
    let format ← known (index % 16) (FieldFormat.ofCode? (index % 16))
    modify fun m =>
      { m with packet.data := format.store m.packet.data c (index / 16) x }
  | other => invalid (.readOnlyCell other)

/-- Copies bytes into the packet buffer, which grows as needed up to the payload limit. What goes past
the limit is left out. -/
def fillBuffer (bytes : Bytes) (offset : Nat) : Stepping Unit := do
  let limit := (← get).config.payloadLimit
  if offset ≤ limit then
    let part := bytes.extract 0 (limit - offset)
    modify fun m =>
      { m with packet.data := (m.packet.data.growTo (offset + part.size)).overwrite offset part }

end Stepping

end BusScript
