import BuilderMigration.Migration.Diagnostic

/-! What a command shows, in the order in which it shows it. -/

namespace BuilderMigration.Command

/-- A table: a title, the heads of its columns and its rows. -/
structure Table where
  title : String
  columns : List String
  rows : List (List String)
  deriving DecidableEq

/-- One thing that a command shows: a text on the standard output, a line or a table on the console
(with markup), or a line of the log. -/
inductive Event where
  | print (text : String)
  | line (markup : String)
  | table (table : Table)
  | log (entry : LogEntry)
  deriving DecidableEq

namespace Event

/-- A line of the log with the sign of its level. -/
def logged (level : LogLevel) (text : String) : Event := .log (.signed level text)

/-- What reaches the standard output; each text ends its line. -/
def printed? : Event → Option String
  | print text => some (text ++ "\n")
  | _ => none

def logLine? : Event → Option LogEntry
  | log entry => some entry
  | _ => none

end Event

end BuilderMigration.Command
