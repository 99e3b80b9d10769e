/-! Lines of a text, and the one form in which text files keep their ends of lines. -/

namespace BuilderMigration.Text

/-- Every end of line as a newline: a carriage return counts as one, also with the newline behind
it. -/
def unifyNewlines : List Char → List Char
  | '\r' :: '\n' :: cs => '\n' :: unifyNewlines cs
  | c :: cs => (if c = '\r' then '\n' else c) :: unifyNewlines cs
  | [] => []

/-- The characters that end a line wherever they stand. -/
def endsLine (c : Char) : Bool :=
  let n := c.toNat
  (0x0A ≤ n && n ≤ 0x0D) || (0x1C ≤ n && n ≤ 0x1E) || n == 0x85 || n == 0x2028 || n == 0x2029

/-- The lines of a text whose current line has begun with `before`, backwards. -/
def linesFrom (before : List Char) : List Char → List (List Char)
  | [] => if before.isEmpty then [] else [before.reverse]
  | '\r' :: '\n' :: cs => before.reverse :: linesFrom [] cs
  | c :: cs => if endsLine c then before.reverse :: linesFrom [] cs else linesFrom (c :: before) cs

/-- The lines of a text, without what ends them; nothing follows the last end of line. -/
def lines (s : String) : List String := (linesFrom [] s.toList).map String.ofList

end BuilderMigration.Text
