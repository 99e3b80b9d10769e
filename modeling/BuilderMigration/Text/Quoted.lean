import BuilderMigration.Text.Hidden

/-! A text in quotes, as error messages name files and words: in single quotes, or in double ones
where only single quotes occur in it. What shows nothing of itself is written as an escape. -/

namespace BuilderMigration.Text

/-- Hexadecimal digits, at least `width` of them. -/
def hexDigits (width n : Nat) : List Char :=
  let digits := Nat.toDigits 16 n
  List.replicate (width - digits.length) '0' ++ digits

/-- Two hexadecimal digits. -/
def hexPair (n : Nat) : List Char := hexDigits 2 n

/-- The escape of a character that does not show. -/
def hiddenEscape (n : Nat) : List Char :=
  if n < 0x100 then '\\' :: 'x' :: hexDigits 2 n
  else if n < 0x10000 then '\\' :: 'u' :: hexDigits 4 n
  else '\\' :: 'U' :: hexDigits 8 n

/-- One character between quotes. -/
def quotedChar (quote c : Char) : List Char :=
  if c = quote ∨ c = '\\' then ['\\', c]
  else if c = '\n' then ['\\', 'n']
  else if c = '\r' then ['\\', 'r']
  else if c = '\t' then ['\\', 't']
  else if isHidden c then hiddenEscape c.toNat
  else [c]

/-- A text in quotes. -/
def quoted (s : String) : String :=
  let cs := s.toList
  let quote := if cs.contains '\'' && !cs.contains '"' then '"' else '\''
  String.ofList (quote :: (cs.flatMap (quotedChar quote) ++ [quote]))

end BuilderMigration.Text
