import BuilderMigration.SyntaxError
import BuilderMigration.Token.Basic
import BuilderMigration.Text.Blank

/-! The piece of text at the head of a list of characters: a blank, a comment or a token, with its
length. Each class is given by the length of its longest match at the head, if there is one. -/

namespace BuilderMigration.Lexeme

/-- How many characters at the head have a property. -/
def run (p : Char → Bool) (cs : List Char) : Nat := (cs.takeWhile p).length

/-- Letters, digits and underscores of identifiers are those of ASCII. -/
def isNameStart (c : Char) : Bool := c.isAlpha || c == '_'

def isNameChar (c : Char) : Bool := c.isAlphanum || c == '_'

def isDecimal (c : Char) : Bool := c.isDigit || c == '_'

def isHexDigit (c : Char) : Bool :=
  c.isDigit || ('a' ≤ c && c ≤ 'f') || ('A' ≤ c && c ≤ 'F')

def isHex (c : Char) : Bool := isHexDigit c || c == '_'

def isOctal (c : Char) : Bool := ('0' ≤ c && c ≤ '7') || c == '_'

def isBinary (c : Char) : Bool := c == '0' || c == '1' || c == '_'

/-! ### Comments -/

/-- Up to the newline, which does not belong to the comment. -/
def lineComment (cs : List Char) : Nat := run (· != '\n') cs

/-- Up to the end of the comment that encloses the head, `depth` comments deep: `none` if the text
ends first. -/
def blockComment : Nat → List Char → Option Nat
  | depth, '/' :: '*' :: cs => (blockComment (depth + 1) cs).map (· + 2)
  | depth, '*' :: '/' :: cs =>
    if depth ≤ 1 then some 2 else (blockComment (depth - 1) cs).map (· + 2)
  | depth, _ :: cs => (blockComment depth cs).map (· + 1)
  | _, [] => none

/-! ### Strings and characters -/

/-- The length of the head of a raw string, up to its quote, and the number of its hashes. -/
def rawStart? : List Char → Option (Nat × Nat)
  | 'b' :: 'r' :: cs => start 2 cs
  | 'r' :: cs => start 1 cs
  | _ => none
where
  start (before : Nat) (cs : List Char) : Option (Nat × Nat) :=
    let hashes := run (· == '#') cs
    match cs.drop hashes with
    | '"' :: _ => some (before + hashes + 1, hashes)
    | _ => none

/-- Up to and with the first quote that as many hashes follow. -/
def rawRest (hashes : Nat) : List Char → Option Nat
  | [] => none
  | c :: cs =>
    if c = '"' ∧ (List.replicate hashes '#').isPrefixOf cs then some (hashes + 1)
    else (rawRest hashes cs).map (· + 1)

/-- Up to and with the closing quote; a backslash takes the character behind it along. -/
def quotedRest : List Char → Option Nat
  | '\\' :: _ :: cs => (quotedRest cs).map (· + 2)
  | ['\\'] => none
  | c :: cs => if c = '"' then some 1 else (quotedRest cs).map (· + 1)
  | [] => none

def string : List Char → Option Nat
  | '"' :: cs => (quotedRest cs).map (· + 1)
  | 'b' :: '"' :: cs => (quotedRest cs).map (· + 2)
  | _ => none

/-- What may stand between a backslash and the closing quote of a character, that quote included:
a byte in hex, a code point in braces, or any character but a newline. -/
def escapeRest : List Char → Option Nat
  | 'x' :: '\'' :: _ => some 2
  | 'x' :: a :: b :: '\'' :: _ => if isHexDigit a && isHexDigit b then some 4 else none
  | 'u' :: '\x7b' :: cs =>
    let digits := run isHex cs
    match cs.drop digits with
    | '\x7d' :: '\'' :: _ => some (digits + 4)
    | _ => none
  | c :: '\'' :: _ => if c = '\n' then none else some 2
  | _ => none

/-- One character or escape and the closing quote. -/
def charRest : List Char → Option Nat
  | '\\' :: cs => (escapeRest cs).map (· + 1)
  | c :: '\'' :: _ => if c = '\'' || c = '\n' then none else some 2
  | _ => none

def char : List Char → Option Nat
  | '\'' :: cs => (charRest cs).map (· + 1)
  | 'b' :: '\'' :: cs => (charRest cs).map (· + 2)
  | _ => none

/-! ### Names and numbers -/

def name : List Char → Option Nat
  | c :: cs => if isNameStart c then some (1 + run isNameChar cs) else none
  | [] => none

def rawName : List Char → Option Nat
  | 'r' :: '#' :: cs => (name cs).map (· + 2)
  | _ => none

def lifetime : List Char → Option Nat
  | '\'' :: cs => (name cs).map (· + 1)
  | _ => none

/-- A fraction: a dot that neither a dot, a letter nor an underscore follows, and digits. -/
def fraction : List Char → Nat
  | '.' :: cs =>
    match cs with
    | c :: _ => if c = '.' || isNameStart c then 0 else 1 + run isDecimal cs
    | [] => 1
  | _ => 0

/-- An exponent: its mark, at most one sign and at least one digit. -/
def exponent : List Char → Nat
  | mark :: cs =>
    if mark = 'e' || mark = 'E' then
      let signs := match cs with
        | '+' :: _ | '-' :: _ => 1
        | _ => 0
      match run isDecimal (cs.drop signs) with
      | 0 => 0
      | digits => 1 + signs + digits
    else 0
  | [] => 0

/-- Digits with an optional fraction and exponent. -/
def decimal (cs : List Char) : Nat :=
  let digits := run isDecimal cs
  let part := fraction (cs.drop digits)
  digits + part + exponent (cs.drop (digits + part))

/-- The digits of a number in another base, if it has any. -/
def radix? : List Char → Option Nat
  | '0' :: 'x' :: cs => digits isHex cs
  | '0' :: 'o' :: cs => digits isOctal cs
  | '0' :: 'b' :: cs => digits isBinary cs
  | _ => none
where
  digits (p : Char → Bool) (cs : List Char) : Option Nat :=
    match run p cs with
    | 0 => none
    | n => some (n + 2)

/-- A number and the type name that may follow it at once. -/
def number : List Char → Option Nat
  | c :: cs =>
    if c.isDigit then
      let digits := (radix? (c :: cs)).getD (decimal (c :: cs))
      some (digits + (name ((c :: cs).drop digits)).getD 0)
    else none
  | [] => none

/-! ### Punctuation -/

/-- The marks of several characters; a mark comes before those it begins with. -/
def longMarks : List String :=
  ["...", "..=", "::", "->", "=>", "==", "!=", "<=", ">=", "&&", "||",
   "+=", "-=", "*=", "/=", "%=", "^=", "&=", "|=", ".."]

def shortMarks : List Char := "\x7b\x7d()[];,.:#!?@$~<>=+-*/%^&|".toList

def punct (cs : List Char) : Option Nat :=
  match longMarks.find? (fun m => m.toList.isPrefixOf cs) with
  | some m => some m.length
  | none =>
    match cs with
    | c :: _ => if shortMarks.contains c then some 1 else none
    | [] => none

/-! ### The head of a text -/

/-- What stands at the head of a text that is not empty. -/
inductive Piece where
  | skip (length : Nat)
  | token (kind : TokenKind) (length : Nat)
  | fault (cause : SyntaxError.Cause)
  deriving DecidableEq

/-- The classes of tokens in the order in which they are tried. -/
def token? (cs : List Char) : Option (TokenKind × Nat) :=
  ((string cs).map (TokenKind.string, ·))
    <|> ((char cs).map (TokenKind.char, ·))
    <|> ((lifetime cs).map (TokenKind.lifetime, ·))
    <|> ((number cs).map (TokenKind.number, ·))
    <|> ((rawName cs).map (TokenKind.ident, ·))
    <|> ((name cs).map (TokenKind.ident, ·))
    <|> ((punct cs).map (TokenKind.punct, ·))

/-- A raw string or another token. -/
def tokenPiece (cs : List Char) : Piece :=
  match rawStart? cs with
  | some (opened, hashes) =>
    match rawRest hashes (cs.drop opened) with
    | some rest => .token .string (opened + rest)
    | none => .fault .openRawString
  | none =>
    match token? cs with
    | some (kind, length) => .token kind length
    | none => .fault (.strayText (String.ofList (cs.take 10)))

/-- Blanks and comments come before tokens. -/
def piece : List Char → Piece
  | [] => .skip 0
  | '/' :: '/' :: cs => .skip (lineComment ('/' :: '/' :: cs))
  | '/' :: '*' :: cs =>
    match blockComment 0 ('/' :: '*' :: cs) with
    | some n => .skip n
    | none => .fault .openComment
  | c :: cs => if Text.isBlank c then .skip 1 else tokenPiece (c :: cs)

end BuilderMigration.Lexeme
