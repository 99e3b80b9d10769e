import BuilderMigration.Assoc
import BuilderMigration.Idiom.Basic
import BuilderMigration.Rewrite.Draft

/-! The parts that replacement text is made of: arguments, setters, constructors with their required
fields, statements, and the general form of a closure. -/

namespace BuilderMigration

/-- An argument that is ready to be written: a nested closure comes with the rewrite of it. -/
inductive Ready where
  | literal (span : Span) (path : Option (List String))
  | closure (c : Closure Ready) (rewritten : Rewrite String)

abbrev ReadyCall := Call Ready
abbrev ReadyClosure := Closure Ready

/-! ### Required fields -/

/-- The fields that a builder's constructor takes, in order. -/
def builtinRequired : List (String × List String) :=
  [("AddMember", ["access_token"]),
   ("CreateApplicationCommand", ["name"]),
   ("CreateChannel", ["name"]),
   ("CreateButton", ["custom_id"]),
   ("CreateSelectMenu", ["custom_id", "kind"]),
   ("CreateSelectMenuOption", ["label", "value"]),
   ("CreateEmbedAuthor", ["name"]),
   ("CreateEmbedFooter", ["text"]),
   ("CreateModal", ["custom_id", "title"]),
   ("CreateStageInstance", ["channel_id", "topic"]),
   ("CreateThread", ["name"]),
   ("CreateWebhook", ["name"]),
   ("CreateQuickModal", ["title"]),
   ("CreateCommandOption", ["kind", "name", "description"]),
   ("CreateInputText", ["style", "label", "custom_id"]),
   ("CreateScheduledEvent", ["kind", "name", "scheduled_start_time"]),
   ("CreateSticker", ["name", "tags", "description", "file"])]

/-- The fields that a builder requires where the settings say nothing. -/
def defaultRequired (builder : String) : List String :=
  (Assoc.get? builder builtinRequired).getD []

/-- The fields that a builder requires; the settings have the first word. -/
def Settings.required (settings : Settings) (builder : String) : List String :=
  (Assoc.get? builder settings.requiredFields).getD (defaultRequired builder)

namespace Workshop

/-! ### Arguments and calls -/

/-- The text of an argument. A nested closure that cannot be rewritten is kept as written. -/
def arg (w : Workshop) : Ready → Rewrite String
  | .literal span _ => w.snippet span
  | .closure c rewritten =>
    tryCatch rewritten fun v => do
      Rewrite.note ("left unrewritten: " ++ v.reason) (some (v.span.getD c.span))
      w.snippet c.span

/-- Arguments separated by commas. -/
def argList (w : Workshop) (args : List Ready) : Rewrite String :=
  return String.intercalate ", " (← args.mapM w.arg)

/-- A call with its dot. -/
def dotCall (w : Workshop) (call : ReadyCall) : Rewrite String :=
  return "." ++ call.field ++ "(" ++ (← w.argList call.args) ++ ")"

/-- Calls one behind the other, on lines of their own if the settings ask for it. -/
def setters (w : Workshop) (calls : List ReadyCall) : Rewrite String := do
  let texts ← calls.mapM w.dotCall
  return String.join (if w.settings.multiline then texts.map ("\n" ++ ·) else texts)

/-- A vector of items. -/
def vector (w : Workshop) (items : List String) : String :=
  "vec![" ++ String.intercalate (if w.settings.multiline then ",\n" else ", ") items ++ "]"

/-- A constructor call. -/
def construct (builder : String) (args : List String) : String :=
  builder ++ "::new(" ++ String.intercalate ", " args ++ ")"

/-- The note on a field that a constructor needs. -/
def missingField (builder field : String) : String :=
  "`" ++ builder ++ "::new` needs `" ++ field ++ "`, which the closure never sets"

/-! ### Required fields and setters -/

/-- Writes the arguments of the calls that set required fields, and keeps the other calls. -/
def divide (w : Workshop) (required : List String) :
    List ReadyCall → Rewrite (List (String × String) × List ReadyCall)
  | [] => return ([], [])
  | call :: calls => do
    if required.contains call.field then
      let text ← w.argList call.args
      let (found, rest) ← divide w required calls
      return ((call.field, text) :: found, rest)
    else
      let (found, rest) ← divide w required calls
      return (found, call :: rest)

/-- The values of required fields, each from the last call that sets it; a field that is never set
is noted. -/
def pick (builder : String) (span : Option Span) (found : List (String × String)) :
    List String → Rewrite (List String)
  | [] => return []
  | field :: fields =>
    match Assoc.get? field found.reverse with
    | some text => return text :: (← pick builder span found fields)
    | none => do
      Rewrite.note (missingField builder field) span
      pick builder span found fields

/-- The arguments of a builder's constructor and the calls that remain. -/
def splitRequired (w : Workshop) (builder : String) (calls : List ReadyCall) (span : Option Span) :
    Rewrite (List String × List ReadyCall) := do
  let required := w.settings.required builder
  let (found, rest) ← w.divide required calls
  return (← pick builder span found required, rest)

/-! ### Statements and closures -/

/-- A chain as a statement that keeps its result in the name it begins with. -/
def chainStmt (w : Workshop) (c : Chain Ready) : Rewrite String :=
  return c.receiver ++ " = " ++ c.receiver ++ String.join (← c.calls.mapM w.dotCall) ++ ";"

/-- A statement of a closure. -/
def prelude (w : Workshop) : Prelude Ready → Rewrite String
  | .verbatim span => do
    match w.resolve? span (← get).ctxt with
    | some text => return Text.trim text
    | none =>
      Rewrite.note "statement text is unavailable; a placeholder was emitted" (some span)
      return w.settings.placeholder ++ ";"
  | .assignment c _ => w.chainStmt c

/-- The general form of a closure: the constructor and the setters, or, where there are statements,
a block that binds the builder, repeats the statements and ends in the setters. -/
def general (w : Workshop) (c : ReadyClosure) : Rewrite String := do
  let (args, rest) ← w.splitRequired c.builder c.chain.calls (some c.span)
  let head := construct c.builder args
  match c.stmts with
  | [] => return head ++ (← w.setters rest)
  | stmts =>
    let lines ← stmts.mapM w.prelude
    let final := c.binding ++ (← w.setters rest)
    return String.intercalate "\n"
      (["\x7b", "let mut " ++ c.binding ++ " = " ++ head ++ ";"] ++ lines ++ [final, "\x7d"])

/-! ### Shapes -/

/-- Gives up on a closure with statements. -/
def refuseStmts (c : ReadyClosure) : Rewrite Unit :=
  if c.stmts.isEmpty then return ()
  else Rewrite.refuse ("statements inside a " ++ c.builder ++ " closure are not supported")
    (some c.span)

/-- The single closure that a call is given, with its rewrite. -/
def closureArg (call : ReadyCall) (span : Span) : Rewrite (ReadyClosure × Rewrite String) :=
  match call.args with
  | [.closure c rewritten] => return (c, rewritten)
  | _ => Rewrite.refuse ("`" ++ call.field ++ "` must be given a builder closure") (some span)

/-- The single value that a call is given. -/
def literalArg (call : ReadyCall) (span : Span) : Rewrite Ready :=
  match call.args with
  | [.literal s path] => return .literal s path
  | _ => Rewrite.refuse ("`" ++ call.field ++ "` must be given exactly one value") (some span)

end Workshop

end BuilderMigration
