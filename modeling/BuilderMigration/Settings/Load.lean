import BuilderMigration.Files.FileTree
import BuilderMigration.Migration.Diagnostic
import BuilderMigration.Settings.Check
import BuilderMigration.Settings.Section
import BuilderMigration.Settings.Toml

/-! Loading settings from the nearest configuration file. -/

namespace BuilderMigration.Settings

/-- Why no settings can be loaded. -/
inductive LoadError where
  | invalid (errors : List Settings.Error)
  | decoding (e : Utf8Error)
  | hugeInteger (digits : Nat)
  | unusable (fault : Section.Fault)
  | file (e : FileError)
  deriving DecidableEq

def fileName : String := "pyproject.toml"

/-- The section of a configuration file that holds the settings. -/
def sectionPath : List String := ["tool", "builder_switcheroo"]

/-- A directory and those it lies in, the innermost first. -/
def outward (names : List String) : List (List String) :=
  (List.range (names.length + 1)).reverse.map names.take

/-- The nearest configuration file, seen from a directory that need not exist. -/
def nearest (t : FileTree) (search : Path) : Except FileError (Option (List String)) :=
  if search.text.toList.contains (Char.ofNat 0) then .error .nullCharacter
  else
    let candidates := (outward (t.plain search)).map (· ++ [fileName])
    match candidates.find? fun names =>
        t.isFileAt names || t.isOverlong { start := .slash, parts := names } with
    | some names =>
      if t.isFileAt names then .ok (some names)
      else .error (.tooLong { start := .slash, parts := names })
    | none => .ok none

/-- The raw settings in the nearest configuration file. One that is not well formed is passed over
with a warning. -/
def readRaw (t : FileTree) (search : Path) :
    Except LoadError (List (String × RawValue) × List LogEntry) :=
  match nearest t search with
  | .error e => .error (.file e)
  | .ok none => .ok ([], [])
  | .ok (some names) =>
    match Utf8.decode ((t.bytesAt? names).getD []) with
    | .error e => .error (.decoding e)
    | .ok text =>
      match Toml.read text with
      | .ok entries =>
        match Section.find (.table entries) sectionPath with
        | .ok fields => .ok (fields, [])
        | .error fault => .error (.unusable fault)
      | .error (.hugeInteger digits) => .error (.hugeInteger digits)
      | .error .malformed =>
        let path : Path := { start := .slash, parts := names }
        .ok ([], [⟨.warning, "Ignoring unreadable " ++ path.text⟩])

/-- Puts a value in place of a raw one, if there is a value. -/
def override (key : String) (value : Option Bool) (raw : List (String × RawValue)) :
    List (String × RawValue) :=
  match value with
  | some b => Assoc.put key (.bool b) raw
  | none => raw

/-- The settings for a directory, where some values given by the caller come first. -/
def load (t : FileTree) (search : Path) (strict multiline : Option Bool) :
    Except LoadError (Settings × List LogEntry) :=
  match readRaw t search with
  | .error e => .error e
  | .ok (raw, logs) =>
    match check (override "multiline" multiline (override "strict_receiver_types" strict raw)) with
    | .ok settings => .ok (settings, logs)
    | .error errors => .error (.invalid errors)

end BuilderMigration.Settings
