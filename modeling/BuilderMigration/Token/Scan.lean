import BuilderMigration.Token.Lexeme

/-! From text to tokens. The scan walks the text one character at a time and is structural in it:
when a piece begins it counts how many further characters belong to it. -/

namespace BuilderMigration

/-- An offset into a text with its line and column. -/
structure Place where
  offset : Nat := 0
  line : Nat := 1
  column : Nat := 1
  deriving DecidableEq

/-- The place behind a character. -/
def Place.after (p : Place) (c : Char) : Place :=
  if c = '\n' then ⟨p.offset + 1, p.line + 1, 1⟩ else ⟨p.offset + 1, p.line, p.column + 1⟩

/-- The tokens of a text up to its end or to the first fault. -/
structure Scan where
  tokens : List Token
  fault : Option SyntaxError
  deriving DecidableEq

namespace Scan

/-- The text of a token: a raw identifier loses its marker. -/
def tokenText : TokenKind → List Char → String
  | .ident, 'r' :: '#' :: cs => String.ofList cs
  | _, cs => String.ofList cs

/-- A fault at a place; an open comment has a line only. -/
def faultAt (p : Place) : SyntaxError.Cause → SyntaxError
  | .openComment => ⟨.openComment, p.line, 0⟩
  | cause => ⟨cause, p.line, p.column⟩

/-- Scans on from a place, where `pending` characters belong to the piece that has begun. -/
def scanFrom (start : Int) (p : Place) : Nat → List Char → Scan
  | _, [] => ⟨[], none⟩
  | pending + 1, c :: cs => scanFrom start (p.after c) pending cs
  | 0, c :: cs =>
    match Lexeme.piece (c :: cs) with
    | .skip length => scanFrom start (p.after c) (length - 1) cs
    | .fault cause => ⟨[], some (faultAt p cause)⟩
    | .token kind length =>
      let lo := start + p.offset
      let token : Token :=
        ⟨kind, tokenText kind ((c :: cs).take length), lo, lo + length, p.line, p.column⟩
      let rest := scanFrom start (p.after c) (length - 1) cs
      ⟨token :: rest.tokens, rest.fault⟩

end Scan

/-- The tokens of a text whose first character stands at position `start`. -/
def tokenize (code : String) (start : Int) : Scan := Scan.scanFrom start {} 0 code.toList

end BuilderMigration
