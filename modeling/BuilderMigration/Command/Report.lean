import BuilderMigration.Command.Console
import BuilderMigration.Text.Json
import BuilderMigration.Text.Lines
import BuilderMigration.Text.Markup

/-! The report on a run: a block of lines for every diagnostic and a table of the files that are not
clean, or everything as one value of the interchange format. -/

namespace BuilderMigration

/-- A file is clean if it could be read and no builder in it is pending. -/
def MigrationResult.isClean (r : MigrationResult) : Bool := r.success && r.pending == 0

namespace Command

/-- The outcomes of the files of a run, by the names that the report gives them. -/
abbrev Results := List (String × MigrationResult)

/-! ### As a value -/

def suggestionJson (s : Suggestion) : Json :=
  .obj [("start", .int s.edit.start), ("end", .int s.edit.stop),
    ("replacement", .str s.edit.replacement), ("label", .str s.label),
    ("applicability", .str s.applicability.name)]

def diagnosticJson (d : Diagnostic) : Json :=
  .obj [("level", .str d.level.name), ("message", .str d.message), ("file", .str d.file),
    ("line", .int d.line), ("column", .int d.column), ("start", .int d.start), ("end", .int d.stop),
    ("notes", .arr (d.notes.map .str)),
    ("suggestion", (d.suggestion.map suggestionJson).getD .null)]

/-- An outcome without its text. -/
def resultJson (r : MigrationResult) : Json :=
  .obj [("diagnostics", .arr (r.diagnostics.map diagnosticJson)),
    ("errors", .arr (r.errors.map .str)), ("success", .bool r.success)]

def resultsJson (results : Results) : Json :=
  .obj (results.map fun (name, r) => (name, resultJson r))

/-! ### As lines -/

/-- A text in a style. -/
def styled (style text : String) : String := "[" ++ style ++ "]" ++ text ++ "[/" ++ style ++ "]"

/-- The lines on the change that a diagnostic offers. -/
def suggestionLines (s : Suggestion) : List String :=
  ("   = help: " ++ s.label ++ " (" ++ s.applicability.name ++ "):")
    :: (Text.lines s.edit.replacement).map fun line => "     " ++ styled "code" (Markup.escape line)

/-- The lines on a diagnostic: what it says, where, its notes and what it offers. -/
def diagnosticLines (d : Diagnostic) : List String :=
  (styled d.level.name d.level.name ++ ": " ++ Markup.escape d.message)
    :: ("  --> " ++ styled "path"
        (Markup.escape d.file ++ ":" ++ toString d.line ++ ":" ++ toString d.column))
    :: (d.notes.map fun note => "   = " ++ styled "note" "note" ++ ": " ++ Markup.escape note)
    ++ (d.suggestion.map suggestionLines).getD []

def resultLines (r : MigrationResult) : List String :=
  (r.errors.map fun e => styled "error" "error" ++ ": " ++ Markup.escape e)
    ++ r.diagnostics.flatMap diagnosticLines

/-! ### The summary -/

def statusText (r : MigrationResult) : String := if r.success then "⚠️ Pending" else "❌ Failed"

/-- The errors of a file, or how many notes its diagnostics carry. -/
def issuesText (r : MigrationResult) : String :=
  let notes := r.diagnostics.foldl (fun n d => n + d.notes.length) 0
  if !r.errors.isEmpty then String.intercalate "; " r.errors
  else if notes > 0 then toString notes ++ " note(s)"
  else ""

def summaryRow (name : String) (r : MigrationResult) : List String :=
  [Markup.escape name, statusText r, toString r.pending, toString r.suggestions.length,
   Markup.escape (issuesText r)]

def summaryTable (title : String) (results : Results) : Table where
  title
  columns := ["File", "Status", "Builders", "Fixable", "Issues"]
  rows := (results.filter (!·.2.isClean)).map fun (name, r) => summaryRow name r

def summary (title : String) (results : Results) : List Event :=
  let total := results.length
  let clean := (results.filter (·.2.isClean)).length
  if clean = total then
    [.logged .success (toString total ++ " file(s) checked, no closure-style builders found.")]
  else
    [.table (summaryTable title results),
     .line ("\n" ++ styled "bold" "Summary:" ++ " " ++ toString clean ++ " clean, "
       ++ toString (total - clean) ++ " with builders to migrate or errors.")]

/-- The whole report. -/
def report (json : Bool) (title : String) (results : Results) : List Event :=
  if json then [.print (resultsJson results).text]
  else (results.flatMap fun (_, r) => (resultLines r).map .line) ++ summary title results

end Command

end BuilderMigration
