import BusScript.Catalog.Spec
import BusScript.Text.Hex

namespace BusScript

inductive CatalogError where
  | duplicateService (name : String)
  | duplicateClass (classId : UInt32)
  deriving DecidableEq, Repr

namespace CatalogError

def name : CatalogError → String
  | .duplicateService .. => "DuplicateService"
  | .duplicateClass .. => "DuplicateClass"

def message : CatalogError → String
  | .duplicateService name => s!"service '{name}' already registered"
  | .duplicateClass classId =>
    "service class " ++ Text.hexMarkedPadded 10 classId.toNat ++ " already registered"

end CatalogError

structure Catalog where
  /-- In the order of registration. -/
  services : List ServiceSpec
  /-- The packets that every service may have. -/
  system : ServiceSpec

namespace Catalog

def byName? (c : Catalog) (name : String) : Option ServiceSpec :=
  let key := Text.lower name
  c.services.find? fun s => Text.lower s.name == key

def byClass? (c : Catalog) (classId : UInt32) : Option ServiceSpec :=
  c.services.find? (·.classId == classId)

def register (c : Catalog) (spec : ServiceSpec) : Except CatalogError Catalog :=
  if (c.byName? spec.name).isSome then .error (.duplicateService spec.name)
  else if (c.byClass? spec.classId).isSome then .error (.duplicateClass spec.classId)
  else .ok { c with services := c.services ++ [spec] }

/-- Adds the services that clash with no earlier one. -/
def registerAll (c : Catalog) (specs : List ServiceSpec) : Catalog :=
  specs.foldl (fun c spec => (c.register spec).toOption.getD c) c

/-- The first packet of a service that `id` names: by its own name, or through a system packet of the
same identifier and kind. Of several system packets so named the last one counts. -/
def member? (c : Catalog) (service : ServiceSpec) (id : String) : Option PacketSpec :=
  let generic := c.system.packets.reverse.find? (·.isNamed id)
  service.packets.find? fun p =>
    p.kind.isMember
      && (p.isNamed id || generic.any fun g => g.identifier == p.identifier && g.kind == p.kind)

end Catalog

end BusScript
