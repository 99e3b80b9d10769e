/-! Paths: names between slashes, from the root or from the working directory. Empty names and
single dots are dropped; double dots stay. -/

namespace BuilderMigration

/-- Where a path starts: in the working directory, or at the root. Two slashes at the start of a
path stay two, while any other number of them counts as one. -/
inductive PathStart where
  | here | slash | slashes
  deriving DecidableEq

structure Path where
  start : PathStart := .here
  parts : List String
  deriving DecidableEq

namespace PathStart

def text : PathStart → String
  | here => ""
  | slash => "/"
  | slashes => "//"

/-- The start that the head of a text gives. -/
def ofChars : List Char → PathStart
  | '/' :: '/' :: '/' :: _ => slash
  | '/' :: '/' :: _ => slashes
  | '/' :: _ => slash
  | _ => here

end PathStart

namespace Path

/-- The pieces of a text between slashes. -/
def pieces : List Char → List (List Char)
  | [] => [[]]
  | c :: cs =>
    if c = '/' then [] :: pieces cs
    else match pieces cs with
      | [] => [[c]]
      | piece :: rest => (c :: piece) :: rest

/-- The path that a text names. -/
def ofString (s : String) : Path where
  start := .ofChars s.toList
  parts := ((pieces s.toList).map String.ofList).filter fun p => p ≠ "" ∧ p ≠ "."

/-- Whether a path starts at the root. -/
def absolute (p : Path) : Bool := p.start != .here

/-- The path as text; the working directory is a dot. -/
def text (p : Path) : String :=
  if !p.absolute && p.parts.isEmpty then "."
  else p.start.text ++ String.intercalate "/" p.parts

/-- The last name, empty if there is none. -/
def name (p : Path) : String := p.parts.getLastD ""

/-- The path up to the first `n` names. -/
def take (p : Path) (n : Nat) : Path := { p with parts := p.parts.take n }

/-- The path without its last name. -/
def parent (p : Path) : Path := { p with parts := p.parts.dropLast }

/-- A path seen from another one. -/
def join (p q : Path) : Path := if q.absolute then q else { p with parts := p.parts ++ q.parts }

end Path

end BuilderMigration
