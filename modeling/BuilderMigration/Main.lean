import BuilderMigration.Command.Arguments
import BuilderMigration.Command.Help
import BuilderMigration.Command.Run
import BuilderMigration.Command.Terminal

/-! The program: takes the files that a request can reach into a tree, runs the request on the tree
and writes the files that it changed. -/

namespace BuilderMigration.Command

/-- How deep directories may lie in each other. -/
def depthLimit : Nat := 4096

/-- The path of some names as the system takes it. -/
def systemPath (names : List String) : String := "/" ++ String.intercalate "/" names

/-- Enters the file of some names, if there is one. -/
def takeFile (t : FileTree) (names : List String) : IO FileTree := do
  let path := (← IO.currentDir) / systemPath names
  if (← path.pathExists) && !(← path.isDir) then
    return t.enter names (.file (← IO.FS.readBinFile path).data.toList)
  else return t

/-- Whether the bytes of a file in a directory are of use: those of source files, of configuration
files, and of the file that a request for a single one may write. -/
def isOfUse (r : Request) (names : List String) : Bool :=
  FileTree.isSourceName names || names.getLast? == some Settings.fileName
    || names.getLast? == some r.path.name

/-- Enters a directory with all that lies in it. A link to a directory is not followed. -/
def takeDirectory (r : Request) (t : FileTree) (names : List String) : Nat → IO FileTree
  | 0 => return t
  | depth + 1 => do
    let path := (← IO.currentDir) / systemPath names
    let mut tree := t.enter names .directory
    for entry in ← path.readDir do
      let inner := names ++ [entry.fileName]
      if ← entry.path.isDir then
        if (← entry.path.symlinkMetadata).type == .symlink then
          tree := tree.enter inner .directory
        else
          tree ← takeDirectory r tree inner depth
      else if isOfUse r inner then
        tree ← takeFile tree inner
      else
        tree := tree.enter inner (.file [])
    return tree

/-- Enters what a path leads to, the directories on the way and the configuration files in them. -/
def takePath (r : Request) (t : FileTree) (p : Path) : IO FileTree := do
  let mut tree := t
  let here ← IO.currentDir
  for n in List.range p.parts.length do
    let way := t.plain { p with parts := p.parts.take n }
    if ← (here / systemPath way).isDir then
      tree := tree.enter way .directory
    else
      tree ← takeFile tree way
  for way in Settings.outward (t.plain p) do
    tree ← takeFile tree (way ++ [Settings.fileName])
  let names := t.plain p
  if ← (here / systemPath names).isDir then takeDirectory r tree names depthLimit
  else takeFile tree names

/-- The files that a request can reach. -/
def takeFiles (r : Request) : IO FileTree := do
  let here := ((← IO.currentDir).components).filter (!·.isEmpty)
  let tree ← takePath r { here, entries := [] } r.path
  match r.task with
  | .fix (.path out) _ => takePath r tree out
  | _ => return tree

/-- Creates the directories that are new and writes the files that differ. -/
def putFiles (before after : FileTree) : IO Unit := do
  let here ← IO.currentDir
  for (names, entry) in after.entries do
    if entry == .directory && !before.isDirectoryAt names then
      IO.FS.createDirAll (here / systemPath names)
  for (names, bytes) in before.changesTo after do
    IO.FS.writeBinFile (here / systemPath names) ⟨bytes.toArray⟩

/-- Runs a request on the files of the system. -/
def Request.perform (r : Request) : IO UInt32 := do
  let before ← takeFiles r
  let outcome := r.run before
  putFiles before outcome.tree
  let out ← IO.getStdout
  for event in outcome.events do
    out.putStr event.text
  out.flush
  match outcome.status with
  | .ok code => return code.toUInt32
  | .error e =>
    (← IO.getStderr).putStrLn e.message
    return 1

end BuilderMigration.Command

open BuilderMigration.Command in
/-- Reads the command line and does what it asks for. -/
def main (args : List String) : IO UInt32 := do
  match Request.ofArguments args with
  | .ok request => request.perform
  | .error halt =>
    (← IO.getStdout).putStr halt.stdout
    (← IO.getStderr).putStr halt.stderr
    return halt.exitCode.toUInt32
