import BuilderMigration.Command.Request

/-! The texts that explain the command line. -/

namespace BuilderMigration.Command

/-- Lines of a text, each with its end. -/
def linesText (lines : List String) : String := String.join (lines.map (· ++ "\n"))

/-- How a level is used. -/
def Level.usage : Level → List String
  | program => ["usage: builder-switcheroo [-h] [--version] \x7bcheck,fix\x7d ..."]
  | command .check =>
    ["usage: builder-switcheroo check [-h] [--strict] [--no-strict] [--multiline]",
     "                                [--json]",
     "                                path"]
  | command .fix =>
    ["usage: builder-switcheroo fix [-h] [--strict] [--no-strict] [--multiline]",
     "                              [--json] [--out OUT] [--dry-run]",
     "                              path"]

/-- The arguments that both commands take. -/
def sharedHelp : List String :=
  ["",
   "positional arguments:",
   "  path         Input .rs file or directory",
   "",
   "options:",
   "  -h, --help   show this help message and exit",
   "  --strict     Only unravel chains whose receiver is known to be a builder",
   "               (Overrides config)",
   "  --no-strict  Also unravel chains on receivers of unknown type (Overrides",
   "               config)",
   "  --multiline  Put each setter of a rewritten builder on its own line",
   "  --json       Print results as JSON"]

/-- What is shown to who asks for help. -/
def Level.help (level : Level) : String :=
  linesText <| level.usage ++
    match level with
    | program =>
      ["",
       "builder-switcheroo: serenity 0.11 -> 0.12 builder migration",
       "",
       "positional arguments:",
       "  \x7bcheck,fix\x7d",
       "    check      Report closure-style builders without changing files",
       "    fix        Rewrite closure-style builders",
       "",
       "options:",
       "  -h, --help   show this help message and exit",
       "  --version    show program's version number and exit"]
    | command .check => sharedHelp
    | command .fix =>
      sharedHelp ++
        ["  --out OUT    Output destination (file or dir). Default: in place",
         "  --dry-run    Print migrated code without writing to disk"]

namespace Halt

/-- What goes to the standard output. -/
def stdout : Halt → String
  | help level => level.help
  | version => programName ++ " " ++ programVersion ++ "\n"
  | misuse _ _ => ""

/-- What goes to the error output. -/
def stderr : Halt → String
  | misuse level cause =>
    linesText (level.usage ++ [level.name ++ ": error: " ++ cause.message])
  | _ => ""

/-- Only misuse is a failure. -/
def exitCode : Halt → Nat
  | misuse _ _ => 2
  | _ => 0

end Halt

end BuilderMigration.Command
