import BuilderMigration.Command.Analysis

/-! Running a request: the analysis of all files, the writes that follow from it, and the report. -/

namespace BuilderMigration.Command

/-- How the text of a file is put in place: the files behind it, and whether the text is there. -/
abbrev Writer := FileTree → Path → String → FileTree × Except FileError Unit

/-- A text to be written: where it comes from and where it goes. -/
structure Write where
  source : Path
  target : Path
  code : String
  deriving DecidableEq

/-- The path of a file that has some name in the report. -/
def sourcePath (t : FileTree) (path : Path) (name : String) : Path :=
  if t.isFile path then path else path.join (Path.ofString name)

/-- Where the text of a file goes: into the file itself, or to the place given for it. A single file
keeps its name in a directory that is there. -/
def targetPath (t : FileTree) (path : Path) (place : Destination) (name : String) : Path :=
  match place with
  | .inPlace | .nowhere => sourcePath t path name
  | .path out =>
    if t.isFile path then
      if t.isDirectory out then out.join (Path.ofString path.name) else out
    else out.join (Path.ofString name)

/-- The write for one file, if there is one: a file whose text would go into itself unchanged is
passed over, as is one without a text. -/
def write? (t : FileTree) (path : Path) (place : Destination) (name : String)
    (r : MigrationResult) : Option Write :=
  let source := sourcePath t path name
  let target := targetPath t path place name
  if !r.success || (target == source && r.suggestions.isEmpty) then none
  else some ⟨source, target, r.code⟩

/-- All writes of a run, in the order of its files. -/
def writes (t : FileTree) (path : Path) (place : Destination) (results : Results) : List Write :=
  results.filterMap fun (name, r) => write? t path place name r

/-- Why there is no place for a text. Of the destination of a single file it is asked whether it is
a directory. -/
def destinationFault? (t : FileTree) (path : Path) : Destination → Option Abort
  | .inPlace => none
  | .nowhere => some (.noDestination (t.isFile path))
  | .path out => if t.isFile path && t.isOverlong out then some (.file (.tooLong out)) else none

/-- What a run does to the files and says about it, whether every write was done, and why it ends
early. -/
structure Written where
  tree : FileTree
  events : List Event := []
  complete : Bool := true
  fault : Option Abort := none

/-- Does some writes one after another. One that fails leaves the others to be done, unless its
target names nothing. -/
def carryOut (write : Writer) (t : FileTree) : List Write → Written
  | [] => { tree := t }
  | w :: ws =>
    match write t w.target w.code with
    | (later, .error .nullCharacter) => { tree := later, fault := some (.file .nullCharacter) }
    | (later, .error e) =>
      let rest := carryOut write later ws
      { rest with
        events := .logged .error ("Failed to write " ++ w.target.text ++ ": " ++ e.message)
          :: rest.events
        complete := false }
    | (later, .ok ()) =>
      let rest := carryOut write later ws
      { rest with
        events := .logged .success
          ("Migrated: " ++ styled "path" w.source.text ++ " -> " ++ styled "path" w.target.text)
          :: rest.events }

/-- The texts that a dry run prints. -/
def printed (results : Results) : List Event :=
  results.filterMap fun (_, r) =>
    if r.success && !r.suggestions.isEmpty then some (.print r.code) else none

/-- What a run shows, the files behind it, and its exit code unless it ends early. -/
structure Outcome where
  events : List Event
  tree : FileTree
  status : Except Abort Nat

/-- The exit code of a check: whether every file is clean. -/
def checkStatus (results : Results) : Nat := if results.all (·.2.isClean) then 0 else 1

/-- The exit code of a fix: whether every file could be read and written. -/
def fixStatus (complete : Bool) (results : Results) : Nat :=
  if complete && results.all (·.2.success) then 0 else 1

/-- The part of a fix that comes before its report. -/
def fixFiles (write : Writer) (t : FileTree) (r : Request) (results : Results) (place : Destination)
    (dryRun : Bool) : Written :=
  match if results.any (·.2.success) then destinationFault? t r.path place else none with
  | some fault => { tree := t, fault }
  | none =>
    if dryRun then { tree := t, events := if r.json then [] else printed results }
    else carryOut write t (writes t r.path place results)

/-- What is done with the outcomes of all files. -/
def conclude (write : Writer) (t : FileTree) (r : Request) (results : Results) : Outcome :=
  match r.task with
  | .check => ⟨report r.json "Check Report" results, t, .ok (checkStatus results)⟩
  | .fix place dryRun =>
    let done := fixFiles write t r results place dryRun
    match done.fault with
    | some fault => ⟨done.events, done.tree, .error fault⟩
    | none =>
      ⟨done.events ++ report r.json "Fix Report" results, done.tree,
        .ok (fixStatus done.complete results)⟩

/-- Runs a request with some way of writing. -/
def Request.runWith (write : Writer) (t : FileTree) (r : Request) : Outcome :=
  match analyse t r with
  | (events, .error e) => ⟨events, t, .error e⟩
  | (events, .ok none) => ⟨events, t, .ok 1⟩
  | (events, .ok (some results)) =>
    let outcome := conclude write t r results
    { outcome with events := events ++ outcome.events }

/-- Runs a request. -/
def Request.run (t : FileTree) (r : Request) : Outcome := r.runWith FileTree.writeText t

end BuilderMigration.Command
