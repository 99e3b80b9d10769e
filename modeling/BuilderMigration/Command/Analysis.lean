import BuilderMigration.Command.Report
import BuilderMigration.Command.Request
import BuilderMigration.Files.Sources
import BuilderMigration.Migration.Run
import BuilderMigration.Settings.Load

/-! The first half of a run: the settings, the files that a path stands for and the outcome of each
of them. Nothing is written here. -/

namespace BuilderMigration.Command

/-- Why a run ends without a report. -/
inductive Abort where
  | settings (e : Settings.LoadError)
  | sources (e : SourcesError)
  | failure (f : Failure)
  | file (e : FileError)
  /-- There is no place for the text of a single file, or for those of a directory. -/
  | noDestination (single : Bool)
  deriving DecidableEq

/-- The outcome of one file, by the path that leads to it. A file that cannot be read is an error in
its outcome. -/
def migrateFile (settings : Settings) (t : FileTree) (path : Path) :
    List Event × Except Failure MigrationResult :=
  match t.readText path with
  | .error e =>
    ([.logged .error ("Failed to read " ++ path.text ++ ": " ++ e.message)],
      .ok { code := "", errors := [e.message], success := false })
  | .ok code =>
    match migrate settings {} path.text code with
    | .error f => ([], .error f)
    | .ok m => (m.logs.map .log, .ok m.result)

/-- The outcomes of some files, each with its name in the report; the first one that has no outcome
ends the run. -/
def migrateFiles (settings : Settings) (t : FileTree) :
    List (String × Path) → List Event × Except Failure Results
  | [] => ([], .ok [])
  | (name, path) :: files =>
    match migrateFile settings t path with
    | (events, .error f) => (events, .error f)
    | (events, .ok result) =>
      let (later, rest) := migrateFiles settings t files
      (events ++ later, rest.map ((name, result) :: ·))

/-- The files that a path stands for, by their names in the report, with what is said about them. -/
def inputFiles (settings : Settings) (t : FileTree) (path : Path) :
    List Event × Except SourcesError (List (String × Path)) :=
  if t.isFile path then ([], .ok [(path.name, path)])
  else
    match t.sources path settings.exclude with
    | .error e => ([], .error e)
    | .ok [] => ([.logged .warning ("No .rs files found in " ++ path.text)], .ok [])
    | .ok found =>
      let files := found.map fun names =>
        (String.intercalate "/" names, path.join { parts := names })
      ([.logged .info
          ("Processing " ++ toString found.length ++ " files from " ++ path.text ++ "...")],
        .ok files)

/-- Where the search for a configuration file begins. -/
def searchPath (t : FileTree) (path : Path) : Path :=
  if t.isDirectory path then path else path.parent

/-- The outcomes of all files of a request; none if its path leads nowhere. -/
def analyse (t : FileTree) (r : Request) : List Event × Except Abort (Option Results) :=
  if t.isOverlong r.path then ([], .error (.file (.tooLong r.path)))
  else if !t.exists? r.path then
    ([.logged .error ("Input not found: " ++ r.path.text)], .ok none)
  else
    match Settings.load t (searchPath t r.path) r.strict r.multiline with
    | .error e => ([], .error (.settings e))
    | .ok (settings, logs) =>
      match inputFiles settings t r.path with
      | (said, .error e) => (logs.map .log ++ said, .error (.sources e))
      | (said, .ok files) =>
        match migrateFiles settings t files with
        | (events, .error f) => (logs.map .log ++ said ++ events, .error (.failure f))
        | (events, .ok results) => (logs.map .log ++ said ++ events, .ok (some results))

end BuilderMigration.Command
