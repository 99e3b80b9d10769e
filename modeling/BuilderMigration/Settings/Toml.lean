import BuilderMigration.Settings.Decimal
import BuilderMigration.Settings.Moment
import BuilderMigration.Settings.Raw

/-! Reading configuration files: tables, dotted and quoted keys, strings, numbers, truth values,
dates, lists and inline tables. Newlines are those of `Text.unifyNewlines`, save that a lone
carriage return is no newline here. -/

namespace BuilderMigration.Toml

abbrev Entries := List (String × RawValue)

/-- What is read, and the text that follows it. -/
abbrev Read (α : Type) := Option (α × List Char)

/-- Why a file is not read. A decimal integer of too many digits is no fault of form. -/
inductive Fault where
  | malformed
  | hugeInteger (digits : Nat)
  deriving DecidableEq

/-- What is missing is a fault of form. -/
def require {α : Type} : Option α → Except Fault α
  | some a => .ok a
  | none => .error .malformed

/-! ### Characters -/

def isSpace (c : Char) : Bool := c = ' ' || c = '\t'

def isBare (c : Char) : Bool := c.isAlphanum || c = '_' || c = '-'

/-- The control characters that text cannot hold, the tab apart. -/
def isControl (c : Char) : Bool := (c.toNat < 0x20 && c ≠ '\t') || c.toNat = 0x7F

def skipSpace (cs : List Char) : List Char := cs.dropWhile isSpace

/-- Passes over a comment, up to its newline. -/
def skipComment : List Char → Option (List Char)
  | '#' :: cs =>
    let text := cs.takeWhile (· ≠ '\n')
    if text.any isControl then none else some (cs.drop text.length)
  | cs => some cs

/-- Passes over spaces, newlines and comments, of which there are at most `fuel`. -/
def skipGap : Nat → List Char → Option (List Char)
  | 0, cs => some cs
  | fuel + 1, cs =>
    match cs.dropWhile (fun c => isSpace c || c = '\n') with
    | '#' :: cs =>
      match skipComment ('#' :: cs) with
      | some cs => skipGap fuel cs
      | none => none
    | cs => some cs

/-! ### Strings -/

def hexValue? (c : Char) : Option Nat :=
  if c.isDigit then some (c.toNat - 48)
  else if 'a' ≤ c ∧ c ≤ 'f' then some (c.toNat - 87)
  else if 'A' ≤ c ∧ c ≤ 'F' then some (c.toNat - 55)
  else none

/-- The character with a code point in hexadecimal digits. -/
def scalar? (digits : List Char) : Option Char := do
  let values ← digits.mapM hexValue?
  let n := values.foldl (fun n d => n * 16 + d) 0
  if n < 0xD800 ∨ (0xE000 ≤ n ∧ n < 0x110000) then some (Char.ofNat n) else none

/-- The character that an escape stands for and how many characters the escape has behind its
backslash. -/
def escape? : List Char → Option (Char × Nat)
  | 'b' :: _ => some (Char.ofNat 8, 1)
  | 't' :: _ => some ('\t', 1)
  | 'n' :: _ => some ('\n', 1)
  | 'f' :: _ => some (Char.ofNat 12, 1)
  | 'r' :: _ => some ('\r', 1)
  | '"' :: _ => some ('"', 1)
  | '\\' :: _ => some ('\\', 1)
  | 'u' :: cs => if cs.length < 4 then none else (scalar? (cs.take 4)).map (·, 5)
  | 'U' :: cs => if cs.length < 8 then none else (scalar? (cs.take 8)).map (·, 9)
  | _ => none

/-- The blanks behind a backslash at the end of a line, if there is nothing else up to the
newline. -/
def lineBreak? (cs : List Char) : Option Nat :=
  let spaces := (cs.takeWhile isSpace).length
  match cs.drop spaces with
  | '\n' :: _ => some (cs.takeWhile fun c => isSpace c || c = '\n').length
  | _ => none

/-- The rest of a string in double quotes, of which the first `pending` characters are done with. -/
def basicFrom : Nat → List Char → Read (List Char)
  | pending + 1, _ :: cs => basicFrom pending cs
  | 0, '"' :: cs => some ([], cs)
  | 0, '\\' :: cs =>
    match escape? cs with
    | some (c, n) => (basicFrom n cs).map fun (text, rest) => (c :: text, rest)
    | none => none
  | 0, c :: cs =>
    if isControl c then none else (basicFrom 0 cs).map fun (text, rest) => (c :: text, rest)
  | _, [] => none

/-- The rest of a string in single quotes. -/
def literalFrom : List Char → Read (List Char)
  | '\'' :: cs => some ([], cs)
  | c :: cs =>
    if isControl c then none else (literalFrom cs).map fun (text, rest) => (c :: text, rest)
  | [] => none

/-- How many more quotes belong to a text of several lines behind its closing three: at most two. -/
def extraQuotes (quote : Char) (cs : List Char) : Nat := min 2 (cs.takeWhile (· = quote)).length

/-- The rest of a text of several lines in double quotes. -/
def basicTextFrom : Nat → List Char → Read (List Char)
  | pending + 1, _ :: cs => basicTextFrom pending cs
  | 0, '"' :: '"' :: '"' :: cs =>
    let extra := extraQuotes '"' cs
    some (List.replicate extra '"', cs.drop extra)
  | 0, '\\' :: cs =>
    match lineBreak? cs with
    | some n => basicTextFrom n cs
    | none =>
      match escape? cs with
      | some (c, n) => (basicTextFrom n cs).map fun (text, rest) => (c :: text, rest)
      | none => none
  | 0, c :: cs =>
    if isControl c && c ≠ '\n' then none
    else (basicTextFrom 0 cs).map fun (text, rest) => (c :: text, rest)
  | _, [] => none

/-- The rest of a text of several lines in single quotes. -/
def literalTextFrom : List Char → Read (List Char)
  | '\'' :: '\'' :: '\'' :: cs =>
    let extra := extraQuotes '\'' cs
    some (List.replicate extra '\'', cs.drop extra)
  | c :: cs =>
    if isControl c && c ≠ '\n' then none
    else (literalTextFrom cs).map fun (text, rest) => (c :: text, rest)
  | [] => none

/-- A newline right behind the opening quotes is not part of the text. -/
def dropNewline : List Char → List Char
  | '\n' :: cs => cs
  | cs => cs

/-- A string of any form. -/
def string : List Char → Read String
  | '"' :: '"' :: '"' :: cs => pack (basicTextFrom 0 (dropNewline cs))
  | '\'' :: '\'' :: '\'' :: cs => pack (literalTextFrom (dropNewline cs))
  | '"' :: cs => pack (basicFrom 0 cs)
  | '\'' :: cs => pack (literalFrom cs)
  | _ => none
where
  pack (r : Read (List Char)) : Read String := r.map fun (text, rest) => (String.ofList text, rest)

/-! ### Numbers -/

/-- Digits with single underscores between them: at least one. -/
def digits (p : Char → Bool) : List Char → Read (List Char)
  | c :: cs => if p c then some (more c cs) else none
  | [] => none
where
  more (c : Char) : List Char → List Char × List Char
    | '_' :: d :: cs =>
      if p d then let (ds, rest) := more d cs; (c :: ds, rest) else ([c], '_' :: d :: cs)
    | d :: cs => if p d then let (ds, rest) := more d cs; (c :: ds, rest) else ([c], d :: cs)
    | [] => ([c], [])

/-- The number that some digits make. -/
def toNat (base : Nat) (ds : List Char) : Nat :=
  ds.foldl (fun n d => n * base + (hexValue? d).getD 0) 0

/-- The part of a number behind its dot. -/
def fractionPart (cs : List Char) : List Char × List Char :=
  match cs with
  | '.' :: rest => (digits Char.isDigit rest).getD ([], cs)
  | _ => ([], cs)

/-- The exponent of a number, if it has one. -/
def exponentPart (cs : List Char) : Option Int × List Char :=
  match cs with
  | mark :: rest =>
    if mark = 'e' || mark = 'E' then
      let (sign, rest) : Int × List Char := match rest with
        | '-' :: rest => (-1, rest)
        | '+' :: rest => (1, rest)
        | rest => (1, rest)
      match digits Char.isDigit rest with
      | some (ds, rest) => (some (sign * toNat 10 ds), rest)
      | none => (none, cs)
    else (none, cs)
  | [] => (none, cs)

/-- The most digits that a decimal integer can have. -/
def digitLimit : Nat := 4300

/-- A decimal integer. -/
def integerValue (negative : Bool) (whole : List Char) : Except Fault RawValue :=
  if digitLimit < whole.length then .error (.hugeInteger whole.length)
  else .ok (.integer (if negative then -(toNat 10 whole : Int) else toNat 10 whole))

/-- A decimal number behind its sign: no zero before other digits. -/
def decimal (negative : Bool) (cs : List Char) : Except Fault (RawValue × List Char) := do
  let (whole, rest) ← require <| match cs with
    | '0' :: rest => some (['0'], rest)
    | _ => digits Char.isDigit cs
  let (part, rest) := fractionPart rest
  match part, exponentPart rest with
  | [], (none, rest) => return (← integerValue negative whole, rest)
  | part, (exponent, rest) =>
    return (.decimal (Decimal.whole? negative (whole ++ part) (exponent.getD 0 - part.length)),
      rest)

def based (base : Nat) (p : Char → Bool) (cs : List Char) :
    Except Fault (RawValue × List Char) := do
  let (ds, rest) ← require (digits p cs)
  return (.integer (toNat base ds), rest)

/-- A decimal number, or one that is not finite. -/
def signed (negative : Bool) : List Char → Except Fault (RawValue × List Char)
  | 'i' :: 'n' :: 'f' :: cs => .ok (.decimal none, cs)
  | 'n' :: 'a' :: 'n' :: cs => .ok (.decimal none, cs)
  | cs => decimal negative cs

/-- A number. -/
def number : List Char → Except Fault (RawValue × List Char)
  | '0' :: 'x' :: cs => based 16 (fun c => (hexValue? c).isSome) cs
  | '0' :: 'o' :: cs => based 8 (fun c => '0' ≤ c && c ≤ '7') cs
  | '0' :: 'b' :: cs => based 2 (fun c => c = '0' || c = '1') cs
  | '+' :: cs => signed false cs
  | '-' :: cs => signed true cs
  | cs => signed false cs

/-! ### Keys -/

/-- One part of a key. -/
def keyPart (cs : List Char) : Read String :=
  match cs with
  | '"' :: rest => (basicFrom 0 rest).map fun (text, rest) => (String.ofList text, rest)
  | '\'' :: rest => (literalFrom rest).map fun (text, rest) => (String.ofList text, rest)
  | _ =>
    match cs.takeWhile isBare with
    | [] => none
    | name => some (String.ofList name, cs.drop name.length)

/-- A key of at most `fuel` parts. -/
def keyFrom : Nat → List Char → Read (List String)
  | 0, _ => none
  | fuel + 1, cs =>
    match keyPart cs with
    | none => none
    | some (part, rest) =>
      match skipSpace rest with
      | '.' :: rest => (keyFrom fuel (skipSpace rest)).map fun (ps, rest) => (part :: ps, rest)
      | rest => some ([part], rest)

def key (cs : List Char) : Read (List String) := keyFrom (cs.length + 1) cs

/-! ### Tables -/

/-- Changes the table under a path, where tables that are missing are created and in a list the last
item counts; not where another value is in the way. -/
def changeAt (f : Entries → Option Entries) : List String → Entries → Option Entries
  | [], t => f t
  | k :: ks, t =>
    match Assoc.get? k t with
    | none => (changeAt f ks []).map fun inner => Assoc.put k (.table inner) t
    | some (.table inner) =>
      (changeAt f ks inner).map fun inner => Assoc.put k (.table inner) t
    | some (.list items) =>
      match items.getLast? with
      | some (.table inner) =>
        (changeAt f ks inner).map fun inner =>
          Assoc.put k (.list (items.dropLast ++ [.table inner])) t
      | _ => none
    | some _ => none

/-- Enters a value under a path that has none. -/
def enter (path : List String) (value : RawValue) (t : Entries) : Option Entries :=
  match path.getLast? with
  | none => none
  | some last =>
    changeAt (fun inner =>
      if (Assoc.get? last inner).isSome then none else some (Assoc.put last value inner))
      path.dropLast t

/-- Lists and tables cannot be added to once they are written out. -/
def isClosed : RawValue → Bool
  | .list _ | .table _ => true
  | _ => false

/-- Whether a path leads into a value that is written out. -/
def isFrozen (frozen : List (List String)) (path : List String) : Bool :=
  frozen.any (·.isPrefixOf path)

/-! ### Values -/

mutual

/-- A value, with lists and tables in it; `fuel` bounds the values and items in all. -/
def value : Nat → List Char → Except Fault (RawValue × List Char)
  | 0, _ => .error .malformed
  | fuel + 1, cs =>
    match cs with
    | '"' :: _ | '\'' :: _ => do
      let (s, rest) ← require (string cs)
      return (.string s, rest)
    | 't' :: 'r' :: 'u' :: 'e' :: rest => .ok (.bool true, rest)
    | 'f' :: 'a' :: 'l' :: 's' :: 'e' :: rest => .ok (.bool false, rest)
    | '[' :: rest => do
      let (vs, rest) ← items fuel rest
      return (.list vs, rest)
    | '\x7b' :: rest =>
      match skipSpace rest with
      | '\x7d' :: rest => .ok (.table [], rest)
      | rest => do
        let (t, rest) ← inlineFields fuel [] [] rest
        return (.table t, rest)
    | _ =>
      match Moment.moment cs with
      | some (kind, rest) => .ok (.moment kind, rest)
      | none => number cs

/-- The items of a list up to its bracket; a comma may stand behind the last. -/
def items : Nat → List Char → Except Fault (List RawValue × List Char)
  | 0, _ => .error .malformed
  | fuel + 1, cs => do
    match ← require (skipGap cs.length cs) with
    | ']' :: rest => return ([], rest)
    | cs =>
      let (v, rest) ← value fuel cs
      match ← require (skipGap rest.length rest) with
      | ']' :: rest => return ([v], rest)
      | ',' :: rest =>
        let (vs, rest) ← items fuel rest
        return (v :: vs, rest)
      | _ => throw .malformed

/-- The fields of an inline table up to its brace; at least one. -/
def inlineFields :
    Nat → Entries → List (List String) → List Char → Except Fault (Entries × List Char)
  | 0, _, _, _ => .error .malformed
  | fuel + 1, t, frozen, cs => do
    match ← require (key cs) with
    | (path, '=' :: rest) =>
      let (v, rest) ← value fuel (skipSpace rest)
      if isFrozen frozen path then throw .malformed
      let t ← require (enter path v t)
      match skipSpace rest with
      | '\x7d' :: rest => return (t, rest)
      | ',' :: rest =>
        inlineFields fuel t (if isClosed v then path :: frozen else frozen) (skipSpace rest)
      | _ => throw .malformed
    | _ => throw .malformed

end

/-! ### Files -/

/-- A file so far: its tables, the table that is open, the tables that are declared, those that
dotted keys of the open table declare, and the values that are written out. -/
structure Document where
  root : Entries := []
  header : List String := []
  declared : List (List String) := []
  pending : List (List String) := []
  frozen : List (List String) := []

namespace Document

/-- The proper beginnings of a key under a header. -/
def beginnings (header path : List String) : List (List String) :=
  (List.range (path.length - 1)).map fun n => header ++ path.take (n + 1)

/-- Enters a value under a key of the open table. -/
def set (d : Document) (path : List String) (v : RawValue) : Option Document :=
  let nests := beginnings d.header path
  let full := d.header ++ path
  if nests.any d.declared.contains || isFrozen d.frozen full.dropLast then none
  else
    (enter full v d.root).map fun root =>
      { d with root, pending := d.pending ++ nests
               frozen := if isClosed v then full :: d.frozen else d.frozen }

/-- Opens a table. -/
def openTable (d : Document) (path : List String) : Option Document :=
  let declared := d.declared ++ d.pending
  if declared.contains path || isFrozen d.frozen path then none
  else
    (changeAt some path d.root).map fun root =>
      { d with root, header := path, declared := path :: declared, pending := [] }

/-- Opens a new last table of a list of tables. -/
def openItem (d : Document) (path : List String) : Option Document :=
  if isFrozen d.frozen path then none
  else
    match path.getLast? with
    | none => none
    | some last =>
      let append (t : Entries) : Option Entries :=
        match Assoc.get? last t with
        | none => some (Assoc.put last (.list [.table []]) t)
        | some (.list items) => some (Assoc.put last (.list (items ++ [.table []])) t)
        | some _ => none
      let clear (paths : List (List String)) := paths.filter fun p => !path.isPrefixOf p
      (changeAt append path.dropLast d.root).map fun root =>
        { d with root, header := path, declared := path :: clear (d.declared ++ d.pending)
                 pending := [], frozen := clear d.frozen }

/-- One statement: a header or a key with its value. -/
def statement (d : Document) (cs : List Char) : Except Fault (Document × List Char) := do
  match cs with
  | '[' :: '[' :: rest =>
    match ← require (key (skipSpace rest)) with
    | (path, ']' :: ']' :: rest) => return (← require (d.openItem path), rest)
    | _ => throw .malformed
  | '[' :: rest =>
    match ← require (key (skipSpace rest)) with
    | (path, ']' :: rest) => return (← require (d.openTable path), rest)
    | _ => throw .malformed
  | _ =>
    match ← require (key cs) with
    | (path, '=' :: rest) =>
      let rest := skipSpace rest
      let (v, rest) ← value (2 * rest.length + 2) rest
      return (← require (d.set path v), skipSpace rest)
    | _ => throw .malformed

/-- Reads the lines of a file, of which there are at most `fuel`. -/
def readFrom : Nat → Document → List Char → Except Fault Document
  | 0, _, _ => .error .malformed
  | fuel + 1, d, cs =>
    match skipSpace cs with
    | [] => .ok d
    | '\n' :: rest => readFrom fuel d rest
    | c :: rest => do
      let (d, rest) ← if c = '#' then pure (d, c :: rest) else d.statement (c :: rest)
      match ← require (skipComment (skipSpace rest)) with
      | [] => return d
      | '\n' :: rest => readFrom fuel d rest
      | _ => throw .malformed

end Document

/-- The pairs of carriage return and newline as newlines. -/
def plainNewlines : List Char → List Char
  | '\r' :: '\n' :: cs => '\n' :: plainNewlines cs
  | c :: cs => c :: plainNewlines cs
  | [] => []

/-- The tables of a file. -/
def read (text : String) : Except Fault Entries :=
  let cs := plainNewlines text.toList
  (Document.readFrom (cs.length + 1) {} cs).map (·.root)

end BuilderMigration.Toml
