import BuilderMigration.Source.Edit

/-! What a migration reports. -/

namespace BuilderMigration

/-- A warning stands at a builder that was rewritten, a note at one that was not. -/
inductive Level where
  | warning | note
  deriving DecidableEq

def Level.name : Level → String
  | warning => "warning"
  | note => "note"

/-- How safe it is to apply a suggestion without review. -/
inductive Applicability where
  | machineApplicable | maybeIncorrect
  deriving DecidableEq

def Applicability.name : Applicability → String
  | machineApplicable => "machine-applicable"
  | maybeIncorrect => "maybe-incorrect"

/-- An edit of the file that is offered. -/
structure Suggestion where
  edit : Edit
  label : String := "replace with"
  applicability : Applicability
  deriving DecidableEq

/-- One report about one builder; `start` and `stop` count from the start of the file. -/
structure Diagnostic where
  level : Level
  message : String
  file : String
  line : Nat
  column : Nat
  start : Int
  stop : Int
  notes : List String
  suggestion : Option Suggestion
  deriving DecidableEq

inductive LogLevel where
  | info | success | warning | error
  deriving DecidableEq

/-- A line of the log. -/
structure LogEntry where
  level : LogLevel
  message : String
  deriving DecidableEq

namespace LogEntry

/-- A line of the log with the sign of its level. -/
def signed (level : LogLevel) (text : String) : LogEntry :=
  let sign := match level with
    | .info => "ℹ️  "
    | .success => "✅ "
    | .warning => "⚠️  "
    | .error => "❌ "
  ⟨level, sign ++ text⟩

end LogEntry

/-- The outcome for one file. -/
structure MigrationResult where
  code : String
  diagnostics : List Diagnostic := []
  errors : List String := []
  success : Bool := true
  deriving DecidableEq

namespace MigrationResult

def suggestions (r : MigrationResult) : List Suggestion := r.diagnostics.filterMap (·.suggestion)

/-- How many builders are still written as closures. -/
def pending (r : MigrationResult) : Nat := r.diagnostics.length

end MigrationResult

end BuilderMigration
