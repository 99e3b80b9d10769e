/-! Tokens of the source language. -/

namespace BuilderMigration

inductive TokenKind where
  | ident | lifetime | string | char | number | punct
  deriving DecidableEq

/-- A token with its text, its global range `[lo, hi)` and the line and column of its start.
The text of a raw identifier comes without the marker in front of it. -/
structure Token where
  kind : TokenKind
  value : String
  lo : Int
  hi : Int
  line : Nat
  column : Nat
  deriving DecidableEq

/-- The brackets that group tokens. -/
inductive Delimiter where
  | paren | bracket | brace
  deriving DecidableEq

def Delimiter.opening : Delimiter → String
  | paren => "("
  | bracket => "["
  | brace => "\x7b"

def Delimiter.closing : Delimiter → String
  | paren => ")"
  | bracket => "]"
  | brace => "\x7d"

namespace Token

def isPunct (t : Token) (v : String) : Bool := t.kind == .punct && t.value == v

def isKeyword (t : Token) (v : String) : Bool := t.kind == .ident && t.value == v

/-- Whether a token is the punctuation or the keyword `v`. -/
def is (t : Token) (v : String) : Bool := (t.kind == .punct || t.kind == .ident) && t.value == v

/-- Whether a token is one of some punctuation marks and keywords. -/
def isOneOf (t : Token) (vs : List String) : Bool :=
  (t.kind == .punct || t.kind == .ident) && vs.contains t.value

/-- The group that a token opens. -/
def opens? (t : Token) : Option Delimiter :=
  if t.isPunct "(" then some .paren
  else if t.isPunct "[" then some .bracket
  else if t.isPunct "\x7b" then some .brace
  else none

/-- The group that a token closes. -/
def closes? (t : Token) : Option Delimiter :=
  if t.isPunct ")" then some .paren
  else if t.isPunct "]" then some .bracket
  else if t.isPunct "\x7d" then some .brace
  else none

/-- Whether no text lies between two tokens. -/
def touches (t u : Token) : Bool := t.hi == u.lo

end Token

end BuilderMigration
