/-! Patterns of file names. In a pattern `*` stands for any characters, `?` for any one and a class
in brackets for one of its members; nothing else is special, and a slash is like any other
character. -/

namespace BuilderMigration.Glob

/-! ### Classes -/

/-- A part of a class: a character, or the dash of a range. -/
inductive Mark where
  | char (c : Char)
  | dash
  deriving DecidableEq

/-- The marks of a class. A dash between two characters makes a range, unless it stands behind the
end of another range; a range that runs backwards is dropped. -/
def marks : List Char → List Mark
  | x :: '-' :: y :: cs =>
    if y < x then marks cs else .char x :: .dash :: .char y :: marks cs
  | c :: cs => .char c :: marks cs
  | [] => []

/-- The marks of the inside of a class: an exclamation mark at its start does not start a range. -/
def classMarks : List Char → List Mark
  | '!' :: cs => .char '!' :: marks cs
  | cs => marks cs

/-- Whether a character is a member of some marks. -/
def member (c : Char) : List Mark → Bool
  | .char x :: .dash :: .char y :: ms => (x ≤ c && c ≤ y) || member c ms
  | .char x :: ms => c == x || member c ms
  | .dash :: ms => c == '-' || member c ms
  | [] => false

/-- Whether a character is in a class: a class that begins with an exclamation mark holds all but
its members. -/
def inClass (c : Char) : List Mark → Bool
  | .char '!' :: ms => !member c ms
  | ms => member c ms

/-- The inside of a class that has been opened, if it is closed: a closing bracket at its start,
also behind an exclamation mark, is a member. -/
def classInside (cs : List Char) : Option (List Char) :=
  let start := match cs with
    | '!' :: ']' :: _ => 2
    | '!' :: _ => 1
    | ']' :: _ => 1
    | _ => 0
  let more := (cs.drop start).takeWhile (· ≠ ']')
  if start + more.length < cs.length then some (cs.take start ++ more) else none

/-! ### Patterns -/

/-- A part of a pattern. -/
inductive Part where
  | star
  | any
  | char (c : Char)
  | oneOf (marks : List Mark)
  deriving DecidableEq

/-- The parts of a pattern, of which the first `pending` characters are done with. A bracket that is
never closed stands for itself. -/
def partsFrom : Nat → List Char → List Part
  | _, [] => []
  | pending + 1, _ :: cs => partsFrom pending cs
  | 0, '*' :: cs => .star :: partsFrom 0 cs
  | 0, '?' :: cs => .any :: partsFrom 0 cs
  | 0, '[' :: cs =>
    match classInside cs with
    | some inside => .oneOf (classMarks inside) :: partsFrom (inside.length + 1) cs
    | none => .char '[' :: partsFrom 0 cs
  | 0, c :: cs => .char c :: partsFrom 0 cs

def parts (pattern : String) : List Part := partsFrom 0 pattern.toList

/-- Whether a part other than the star stands for a character. -/
def Part.takes (c : Char) : Part → Bool
  | star => false
  | any => true
  | char x => c == x
  | oneOf ms => inClass c ms

/-- For every place of a row, whether the property holds there or later. -/
def holdsLater : List Bool → List Bool
  | [] => []
  | b :: bs =>
    let later := holdsLater bs
    (b || later.headD false) :: later

/-- For every end of a text, from the text itself to the empty one, whether it follows some parts.
A row comes from the row of the parts behind the first in one pass. -/
def endsFollowing : List Part → List Char → List Bool
  | [], cs => cs.map (fun _ => false) ++ [true]
  | .star :: ps, cs => holdsLater (endsFollowing ps cs)
  | p :: ps, cs =>
    List.zipWith (fun c rest => p.takes c && rest) cs (endsFollowing ps cs).tail ++ [false]

/-- Whether a text as a whole matches a pattern. -/
def accepts (pattern text : String) : Bool :=
  (endsFollowing (parts pattern) text.toList).headD false

end BuilderMigration.Glob
