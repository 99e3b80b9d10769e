import BuilderMigration.Files.Path
import BuilderMigration.Text.Quoted

/-! What a command line asks for, and the ways in which it asks for nothing to be run. -/

namespace BuilderMigration.Command

/-- The two commands: reporting builders and rewriting them. -/
inductive Verb where
  | check | fix
  deriving DecidableEq

def Verb.name : Verb → String
  | check => "check"
  | fix => "fix"

def Verb.all : List Verb := [.check, .fix]

/-- Where words of a command line are read: before the command, or behind it. -/
inductive Level where
  | program
  | command (verb : Verb)
  deriving DecidableEq

def programName : String := "builder-switcheroo"

def programVersion : String := "0.1.0"

def Level.name : Level → String
  | program => programName
  | command verb => programName ++ " " ++ verb.name

/-- What the options stand for. -/
inductive Flag where
  | help | version | strict | noStrict | multiline | json | out | dryRun
  deriving DecidableEq

/-- The spellings of an option. -/
def Flag.spellings : Flag → List String
  | help => ["-h", "--help"]
  | version => ["--version"]
  | strict => ["--strict"]
  | noStrict => ["--no-strict"]
  | multiline => ["--multiline"]
  | json => ["--json"]
  | out => ["--out"]
  | dryRun => ["--dry-run"]

/-- The options of a level, in the order in which they are listed. -/
def Level.flags : Level → List Flag
  | program => [.help, .version]
  | command .check => [.help, .strict, .noStrict, .multiline, .json]
  | command .fix => [.help, .strict, .noStrict, .multiline, .json, .out, .dryRun]

/-- The spellings of a level with what they stand for. -/
def Level.options (level : Level) : List (String × Flag) :=
  level.flags.flatMap fun flag => flag.spellings.map (·, flag)

/-- Why a command line makes no sense. -/
inductive Misuse where
  | ambiguous (word : String) (options : List String)
  | needlessValue (flag : Flag) (value : String)
  | missingValue (flag : Flag)
  | missing (what : String)
  | unknownCommand (word : String)
  | unrecognized (words : List String)
  deriving DecidableEq

def Misuse.message : Misuse → String
  | ambiguous word options =>
    "ambiguous option: " ++ word ++ " could match " ++ String.intercalate ", " options
  | needlessValue flag value =>
    "argument " ++ String.intercalate "/" flag.spellings ++ ": ignored explicit argument "
      ++ Text.quoted value
  | missingValue flag =>
    "argument " ++ String.intercalate "/" flag.spellings ++ ": expected one argument"
  | missing what => "the following arguments are required: " ++ what
  | unknownCommand word =>
    "argument command: invalid choice: " ++ Text.quoted word ++ " (choose from "
      ++ String.intercalate ", " (Verb.all.map fun v => Text.quoted v.name) ++ ")"
  | unrecognized words => "unrecognized arguments: " ++ String.intercalate " " words

/-- What is done instead of running a command. -/
inductive Halt where
  | help (level : Level)
  | version
  | misuse (level : Level) (cause : Misuse)
  deriving DecidableEq

/-- Where texts go: into their own files or to a place of their own. -/
inductive Destination where
  | inPlace
  | path (p : Path)
  /-- A double dash given as the place is taken away, and nothing is left to name one. -/
  | nowhere
  deriving DecidableEq

/-- The destination that a word stands for. -/
def Destination.ofString (word : String) : Destination :=
  if word = "--" then nowhere else path (Path.ofString word)

/-- Whether files are only looked at or rewritten, and whether their texts are printed instead. -/
inductive Task where
  | check
  | fix (place : Destination) (dryRun : Bool)
  deriving DecidableEq

/-- A command to run. Settings that are not given come from the configuration file. -/
structure Request where
  task : Task
  path : Path
  strict : Option Bool := none
  multiline : Option Bool := none
  json : Bool := false
  deriving DecidableEq

end BuilderMigration.Command
