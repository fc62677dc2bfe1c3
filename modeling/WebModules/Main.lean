import WebModules.CommandLine.Run

/-!
The program: reads the files of a project, runs a command on them, and makes the changes that the
command asks for.  It has no connection to a network, so that no registry can be reached.
-/

namespace WebModules.Program

open CommandLine

def pathOf (names : List String) : String := "/" ++ String.intercalate "/" names

/-- Adds a directory and everything in it to a tree, or a file with its text.  What cannot be read is
left out. -/
partial def readInto (t : FileTree) (path : String) : IO FileTree := do
  let place := (← IO.currentDir) / path
  if ← place.isDir then
    let mut t := (t.makeDirectories path).2
    for entry in ← place.readDir do
      t ← readInto t (Path.push path entry.fileName)
    return t
  else
    try
      let text ← IO.FS.readFile place
      let t := match Path.parent? path with
        | some parent => (t.makeDirectories parent).2
        | none => t
      return (t.write path text).toOption.getD t
    catch _ => return t

/-- Makes the changes that lead from one tree to another one. -/
def apply (before after : FileTree) : IO Unit := do
  let deepest (a b : List String × FileNode) : Bool := b.1.length ≤ a.1.length
  for (names, node) in before.nodes.mergeSort deepest do
    if (after.node? names).isNone then
      match node with
      | .file _ => IO.FS.removeFile (pathOf names)
      | .directory => IO.FS.removeDir (pathOf names)
  for (names, node) in (after.nodes.mergeSort deepest).reverse do
    if before.node? names ≠ some node then
      match node with
      | .file text => IO.FS.writeFile (pathOf names) text
      | .directory => IO.FS.createDir (pathOf names)

/-- The settings in the home directory of the user. -/
def readConfig : IO Config := do
  match ← IO.getEnv "HOME" with
  | none => return .unset
  | some home =>
    try return .parse (← IO.FS.readFile (Path.pushAll home [".webdeps", "config.toml"]))
    catch _ => return .unset

end WebModules.Program

open WebModules

def main (args : List String) : IO UInt32 := do
  let config ← Program.readConfig
  let root := (← IO.currentDir).toString
  let options := match CommandLine.parse args with
    | .run options _ => options
    | _ => .none
  let setting : CommandLine.Setting := ⟨.unreachable, config, root, options⟩
  let mut before := (FileTree.empty.makeDirectories root).2
  for path in [setting.manifestPath, setting.layout.outputDir] do
    before ← Program.readInto before path
  let (output, after) := (CommandLine.run .unreachable config root args).run before
  Program.apply before after
  IO.print output.outText
  IO.eprint output.errText
  return output.status.toUInt32
