import BuilderMigration.Grammar.Reading
import BuilderMigration.Migration.Diagnostic
import BuilderMigration.Migration.Site
import BuilderMigration.Text.Markup
import BuilderMigration.Typing.Resolve

/-! The migration of a file: reading, types, sites, diagnostics and the edited text. -/

namespace BuilderMigration

/-- What every diagnostic says. -/
def breakingMessage : String :=
  "closure-style builders will break in the next version of serenity"

namespace Site

/-- The diagnostic of a site: where its text stands, and what became of it. Text that cannot be
recovered is not replaced. -/
def diagnostic (sources : SourceMap) (site : Site) : Diagnostic :=
  let walked := sources.expansions.walk site.span 0
  let (file, line, column) := sources.locate walked.lo
  let (start, stop) := match sources.file? walked.lo with
    | some f => (walked.lo - f.start, walked.hi - f.start)
    | none => (0, 0)
  match site.outcome with
  | .error v =>
    { level := .note, message := breakingMessage, file, line, column, start, stop
      notes := ["not rewritten: " ++ v.reason], suggestion := none }
  | .ok text =>
    let notes := site.notes.map (·.message)
    match sources.snippet? walked with
    | none =>
      { level := .warning, message := breakingMessage, file, line, column, start, stop
        notes := notes ++ ["the builder is in generated code; no fix is offered"]
        suggestion := none }
    | some _ =>
      { level := .warning, message := breakingMessage, file, line, column, start, stop, notes
        suggestion := some
          { edit := ⟨start, stop, text⟩
            applicability := if notes.isEmpty then .machineApplicable else .maybeIncorrect } }

/-- What a site that is left as it is puts into the log. -/
def log (sources : SourceMap) (site : Site) : List LogEntry :=
  match site.outcome with
  | .ok _ => []
  | .error v =>
    let d := site.diagnostic sources
    [LogEntry.signed .warning
      (d.file ++ ":" ++ toString d.line ++ ":" ++ toString d.column ++ ": "
        ++ Markup.escape v.reason)]

end Site

/-- The diagnostics of a file, with what goes into the log and whether the table of rewrite rules
was looked into. -/
structure Findings where
  diagnostics : List Diagnostic
  logs : List LogEntry
  consulted : Bool
  deriving DecidableEq

/-- What is found in a file whose types are known. -/
def Module.findings (p : Plan) (m : Module) : Findings :=
  let sources := p.workshop.sources
  let walk := m.walk p
  ⟨walk.sites.map (·.diagnostic sources), walk.sites.flatMap (·.log sources),
    walk.context.consulted⟩

/-- The text of a file after all suggestions. -/
def Findings.edited (f : Findings) (code : String) : String :=
  applyEdits code ((f.diagnostics.filterMap (·.suggestion)).map (·.edit))

/-- Registers a file and reads it. The file keeps its positions when it cannot be read. -/
def SourceMap.read (m : SourceMap) (name code : String) : Except Failure Module × SourceMap :=
  let (file, m) := m.add name code
  (readModule code file.start name, m)

/-- What is found in a file that has just been read. -/
def Module.migrate (settings : Settings) (rules : Rules) (sources : SourceMap) (m : Module) :
    Findings :=
  (m.resolved settings).findings { workshop := ⟨sources, settings⟩, rules }

/-- The outcome for one text, the log and whether the table of rewrite rules was looked into. -/
structure Migrated where
  result : MigrationResult
  logs : List LogEntry := []
  consulted : Bool := false
  deriving DecidableEq

/-- Migrates one text. One that the grammar rejects comes back as it is, with an error; only other
failures have no outcome. -/
def migrate (settings : Settings) (rules : Rules) (path code : String) : Except Failure Migrated :=
  let (read, sources) := SourceMap.read {} path code
  match read with
  | .error (.rejected e) =>
    .ok { result := { code, errors := [path ++ ": " ++ e.message], success := false } }
  | .error failure => .error failure
  | .ok m =>
    let f := m.migrate settings rules sources
    .ok { result := { code := f.edited code, diagnostics := f.diagnostics }
          logs := f.logs, consulted := f.consulted }

/-- The name of a text that is no file. -/
def noFile : String := "<input>"

/-- Why a text as a whole is not migrated. -/
inductive MigrateError where
  | failed (failure : Failure)
  | notMigrated (errors : List String)
  deriving DecidableEq

def MigrateError.message? : MigrateError → Option String
  | failed _ => none
  | notMigrated errors => some ("Migration failed:\n" ++ String.intercalate "\n" errors)

/-- Migrates one text to another. -/
def migrateText (settings : Settings) (code : String) : Except MigrateError String :=
  match migrate settings {} noFile code with
  | .error failure => .error (.failed failure)
  | .ok m => if m.result.success then .ok m.result.code else .error (.notMigrated m.result.errors)

end BuilderMigration
