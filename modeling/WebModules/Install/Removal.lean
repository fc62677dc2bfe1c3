import WebModules.Install.Basic

/-!
Removing packages.  With a package goes everything that only it needs: its entries in the import map,
the files that these lead to, and the directories that are left empty.
-/

namespace WebModules

/-- A package that has been removed. -/
structure RemovedPackage where
  /-- The request, with the version that was removed. -/
  request : PackageRequest
  removal : ImportMap.Removal
  /-- The files and directories that have been removed. -/
  paths : List String
  deriving DecidableEq, Repr, Inhabited

namespace Installer

variable (i : Installer)

/-- Removes files one after the other, up to the first that cannot be removed. -/
def removeFiles : List String → StateM FileTree (Except StoreError (List String))
  | [] => return .ok []
  | file :: files => do
    match ← i.store.removeFile (i.layout.pathFor file) with
    | .error e => return .error e
    | .ok removed =>
      match ← removeFiles files with
      | .error e => return .error e
      | .ok more => return .ok (removed ++ more)

/-- The files that are not needed after a removal, as paths of URLs. -/
def unneeded (removal : ImportMap.Removal) (storage : Storage) : List String :=
  sortedSet (removal.orphaned
    ++ if removal.retained.contains storage.relativePath then [] else [storage.relativePath])

/-- The version that is to be removed: the one that is asked for, or else the only one. -/
def versionToRemove (request : PackageRequest) (t : FileTree) : Except StoreError String :=
  match request.version with
  | some version => .ok version
  | none => i.store.localVersion request.name t

def remove (request : PackageRequest) : StateM FileTree (Except InstallError RemovedPackage) := do
  match i.versionToRemove request (← get) with
  | .error e => return .error (.store e)
  | .ok version =>
    let storage := i.layout.storage request.name request.target version
    let name := importName request.name request.target
    match ← ImportMap.removeDependency i.importMapPath name storage.relativeDir with
    | .error e => return .error (.importMap e)
    | .ok removal =>
      match ← i.removeFiles (unneeded removal storage) with
      | .error e => return .error (.store e)
      | .ok paths => return .ok ⟨{ request with version := some version }, removal, paths⟩

end Installer

end WebModules
