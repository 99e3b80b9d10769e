import BuilderMigration.Command.Console
import BuilderMigration.Command.Run
import BuilderMigration.Text.Markup

/-! Plain text of what a command shows, for a terminal without styles. -/

namespace BuilderMigration

def LogLevel.name : LogLevel → String
  | info => "INFO"
  | success => "SUCCESS"
  | warning => "WARNING"
  | error => "ERROR"

namespace Command

/-- A text filled up with blanks. -/
def padded (width : Nat) (s : String) : String :=
  s ++ String.ofList (List.replicate (width - s.length) ' ')

namespace Table

/-- The widths of the columns: those of their longest cells. -/
def widths (t : Table) : List Nat :=
  t.rows.foldl (fun ws row => List.zipWith max ws (row.map fun cell => (Markup.shown cell).length))
    (t.columns.map (·.length))

/-- Cells side by side. -/
def rowText (widths : List Nat) (cells : List String) : String :=
  String.intercalate "  " (List.zipWith padded widths cells)

/-- The title, the heads of the columns and the rows. -/
def lines (t : Table) : List String :=
  t.title :: rowText t.widths t.columns
    :: t.rows.map fun row => rowText t.widths (row.map Markup.shown)

end Table

/-- The text of one thing that is shown. -/
def Event.text : Event → String
  | .print text => text ++ "\n"
  | .line markup => Markup.shown markup ++ "\n"
  | .table t => String.join (t.lines.map (· ++ "\n"))
  | .log entry => padded 8 entry.level.name ++ " " ++ Markup.shown entry.message ++ "\n"

/-- A fault of the settings with the way to it. -/
def settingsErrorText (e : Settings.Error) : String :=
  String.intercalate "." (e.path.map fun
    | .key name => name
    | .index i => toString i) ++ ": " ++ e.fault.message

def kindText : RawKind → String
  | .null => "nothing"
  | .bool => "a truth value"
  | .integer => "an integer"
  | .decimal => "a decimal number"
  | .moment .date => "a date"
  | .moment .time => "a time"
  | .moment .dateTime => "a date with a time"
  | .string => "a string"
  | .list => "a list"
  | .table => "a table"

/-- Why the section of a configuration file gives no settings. -/
def sectionFaultText : Section.Fault → String
  | .notTable kind => "a table was expected around the settings, not " ++ kindText kind
  | .notList kind => "the settings are " ++ kindText kind ++ ", not a table"
  | .itemNotList i => "item " ++ toString i ++ " of the settings is no pair"
  | .itemNotPair i n => "item " ++ toString i ++ " of the settings has " ++ toString n ++ " parts"
  | .badKey kind => kindText kind ++ " is no key of the settings"

def Abort.message : Abort → String
  | settings (.invalid errors) => String.intercalate "\n" (errors.map settingsErrorText)
  | settings (.decoding e) => e.message
  | settings (.hugeInteger digits) => "an integer has " ++ toString digits ++ " digits"
  | settings (.unusable fault) => sectionFaultText fault
  | settings (.file e) => e.message
  | sources e => e.message
  | file e => e.message
  | noDestination _ => "no destination is given"
  | failure (.rejected e) => e.message
  | failure .cutStatement => "the text ends behind an expression in a block"
  | failure .endless => "an expression begins with a mark that begins no attribute"

end Command

end BuilderMigration
