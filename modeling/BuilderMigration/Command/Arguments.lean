import BuilderMigration.Command.Request
import BuilderMigration.Text.Alphanumeric

/-! Reading a command line. Every word is classed before any option takes effect: options may be cut
short as long as one spelling fits, and behind a double dash no word is an option. -/

namespace BuilderMigration.Command

/-- A word of the command line at some level. -/
inductive Word where
  | plain (text : String)
  | separator
  | option (flag : Flag) (value : Option String)
  | unknown (text : String)
  deriving DecidableEq

namespace Word

/-- A number below zero is no option. A newline may follow it. -/
def isNegativeNumber (digits : List Char) : Bool :=
  let digits := if digits.getLast? = some '\n' then digits.dropLast else digits
  let rest := digits.dropWhile Text.isDecimalDigit
  if rest.isEmpty then !digits.isEmpty
  else rest.head? = some '.' && !(rest.drop 1).isEmpty && (rest.drop 1).all Text.isDecimalDigit

/-- What is left of more letters that follow the letter for help in one word: of them only the same
one counts, and what begins with another is a value that it does not take. -/
def clustered : List Char → Option String
  | [] => none
  | c :: cs => if c = 'h' then clustered cs else some (String.ofList (c :: cs))

/-- What follows the letter for help in one word: nothing, or letters, before which a sign of
equality may stand. -/
def behindHelp : List Char → Option String
  | ['='] => some ""
  | '=' :: cs => clustered cs
  | cs => clustered cs

/-- A word that begins with a dash and is no option. -/
def dashed (word : String) (digits : List Char) : Word :=
  if isNegativeNumber digits || word.toList.contains ' ' then .plain word else .unknown word

/-- The name and the value of a long option. -/
def split (cs : List Char) : List Char × Option String :=
  let name := cs.takeWhile (· ≠ '=')
  match cs.drop name.length with
  | [] => (name, none)
  | _ :: value => (name, some (String.ofList value))

/-- A word that begins with two dashes. -/
def long (level : Level) (word : String) : Except Misuse Word :=
  let (name, value) := split word.toList
  match level.options.lookup (String.ofList name) with
  | some flag => .ok (.option flag value)
  | none =>
    match level.options.filter fun o => name.isPrefixOf o.1.toList with
    | [] => .ok (dashed word (word.toList.drop 1))
    | [(_, flag)] => .ok (.option flag value)
    | options => .error (.ambiguous word (options.map (·.1)))

/-- The class of a word that is not a double dash. -/
def ofText (level : Level) (word : String) : Except Misuse Word :=
  match word.toList with
  | '-' :: '-' :: _ => long level word
  | '-' :: 'h' :: cs => .ok (.option .help (behindHelp cs))
  | '-' :: c :: cs => .ok (dashed word (c :: cs))
  | _ => .ok (.plain word)

/-- The classes of the words of a command line. -/
def classify (level : Level) : List String → Except Misuse (List Word)
  | [] => .ok []
  | "--" :: words => .ok (.separator :: words.map .plain)
  | word :: words => do
    let first ← ofText level word
    let rest ← classify level words
    return first :: rest

end Word

/-- The values that the words behind a command give. -/
structure Values where
  path : Option String := none
  strict : Option Bool := none
  multiline : Option Bool := none
  json : Bool := false
  out : Option String := none
  dryRun : Bool := false
  /-- Words that stand for nothing. -/
  spare : List String := []
  deriving DecidableEq

namespace Values

/-- The effect of an option that takes no value. -/
def set (v : Values) : Flag → Values
  | .strict => { v with strict := some true }
  | .noStrict => { v with strict := some false }
  | .multiline => { v with multiline := some true }
  | .json => { v with json := true }
  | .dryRun => { v with dryRun := true }
  | .help | .version | .out => v

/-- A word that is no option: the first one is the path. -/
def setPath (v : Values) (word : String) : Values :=
  match v.path with
  | none => { v with path := some word }
  | some _ => { v with spare := v.spare ++ [word] }

/-- Takes the words in their order. A double dash belongs to the path right before or behind it. -/
def read (level : Level) (v : Values) : List Word → Except Halt Values
  | [] => .ok v
  | .plain word :: .separator :: words =>
    let w := v.setPath word
    read level (if v.path.isNone then w else { w with spare := w.spare ++ ["--"] }) words
  | .plain word :: words => read level (v.setPath word) words
  | .separator :: words =>
    read level
      (if v.path.isNone && !words.isEmpty then v else { v with spare := v.spare ++ ["--"] }) words
  | .unknown word :: words => read level { v with spare := v.spare ++ [word] } words
  | .option .out (some value) :: words => read level { v with out := some value } words
  | .option .out none :: .plain value :: words => read level { v with out := some value } words
  | .option .out none :: _ => .error (.misuse level (.missingValue .out))
  | .option flag (some value) :: _ => .error (.misuse level (.needlessValue flag value))
  | .option .help none :: _ => .error (.help level)
  | .option flag none :: words => read level (v.set flag) words

end Values

/-- Puts the misuse of a level in front. -/
def atLevel {α : Type} (level : Level) : Except Misuse α → Except Halt α
  | .ok a => .ok a
  | .error cause => .error (.misuse level cause)

/-- The request of a command, given the words that stand for nothing before it. -/
def requestOf (verb : Verb) (spare : List String) (words : List String) : Except Halt Request := do
  let level := Level.command verb
  let classes ← atLevel level (Word.classify level words)
  let v ← Values.read level {} classes
  match v.path with
  | none => .error (.misuse level (.missing "path"))
  | some path =>
    match spare ++ v.spare with
    | [] =>
      let task : Task := match verb with
        | .check => .check
        | .fix => .fix ((v.out.map Destination.ofString).getD .inPlace) v.dryRun
      .ok { task, path := Path.ofString path, strict := v.strict, multiline := v.multiline
            json := v.json }
    | rest => .error (.misuse .program (.unrecognized rest))

/-- Finds the command: the first word that is no option. -/
def findCommand (spare : List String) : List (String × Word) → Except Halt Request
  | [] => .error (.misuse .program (.missing "command"))
  | (_, .option flag (some value)) :: _ => .error (.misuse .program (.needlessValue flag value))
  | (_, .option .help none) :: _ => .error (.help .program)
  | (_, .option _ none) :: _ => .error .version
  | (word, .unknown _) :: rest => findCommand (spare ++ [word]) rest
  | (word, .plain _) :: rest =>
    match Verb.all.find? (·.name == word) with
    | some verb => requestOf verb spare (rest.map (·.1))
    | none => .error (.misuse .program (.unknownCommand word))
  | (_, .separator) :: [] => .error (.misuse .program (.missing "command"))
  | (word, .separator) :: _ => .error (.misuse .program (.unknownCommand word))

/-- The request that a command line makes. -/
def Request.ofArguments (words : List String) : Except Halt Request := do
  let classes ← atLevel .program (Word.classify .program words)
  findCommand [] (words.zip classes)

end BuilderMigration.Command
