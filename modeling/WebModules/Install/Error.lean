import WebModules.Graph
import WebModules.ImportMap.File
import WebModules.Registry.Basic
import WebModules.Rewrite
import WebModules.Store

/-!
Why a package could not be installed or removed.
-/

namespace WebModules

inductive InstallError
  | registry (error : RegistryError)
  /-- The module that was asked for could not be resolved. -/
  | resolve (entrypoint : String) (error : ResolveError RegistryError)
  /-- A module that was fetched could not be rewritten. -/
  | rewrite (entrypoint : String) (error : RewriteError Empty)
  /-- A module could not be written. -/
  | file (path : String) (error : FileError)
  | importMap (error : ImportMapError)
  | store (error : StoreError)
  deriving DecidableEq, Repr

namespace InstallError

/-- A failure that says no more than its cause. -/
def passing (cause : Explanation) : Explanation := .causedBy cause.message cause

/-- A failure that says what was tried, and then its cause. -/
def telling (tried : String) (cause : Explanation) : Explanation :=
  .causedBy (tried ++ ": " ++ cause.message) cause

def explain : InstallError → Explanation
  | registry e => passing e.explain
  | resolve entrypoint e =>
    telling ("cannot resolve " ++ entrypoint) (e.explain RegistryError.explain)
  | rewrite entrypoint e => telling ("cannot rewrite " ++ entrypoint) (e.explain Empty.elim)
  | file path e => telling path ⟨e.message, []⟩
  | importMap e => passing e.explain
  | store e => passing e.explain

end InstallError

end WebModules
