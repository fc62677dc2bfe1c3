import WebModules.Package.Layout
import WebModules.Registry.Backend

/-!
Modules of packages that are to be installed, each with its places in the project.
-/

namespace WebModules

structure PackageModule where
  name : String
  target : Option String
  version : String
  /-- The path that a registry serves the module for. -/
  entrypoint : String
  storage : Storage
  deriving DecidableEq, Repr, Inhabited

namespace PackageModule

/-- The module of a package that is served for an entrypoint. -/
def of (l : Layout) (name : String) (target : Option String) (version entrypoint : String) :
    PackageModule :=
  ⟨name, target, version, entrypoint, l.storage name target version⟩

/-- The module that a registry has identified. -/
def identified (l : Layout) (m : ModuleIdentity) (entrypoint : String) : PackageModule :=
  of l m.name m.target m.version entrypoint

/-- The name that other modules import the module by. -/
def importName (m : PackageModule) : String := WebModules.importName m.name m.target

end PackageModule

/-- A module in the place where it is imported: in the modules of another one's directory, or, if it
has no importer, everywhere. -/
structure MappedModule where
  module : PackageModule
  importer : Option PackageModule
  deriving DecidableEq, Repr, Inhabited

namespace MappedModule

def isRoot (m : MappedModule) : Bool := m.importer.isNone

end MappedModule

end WebModules
