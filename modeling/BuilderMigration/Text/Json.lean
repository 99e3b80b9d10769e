/-! Values of the interchange format and their layout over several lines. The text is of ASCII
characters that show; the others are written as escapes of their 16-bit units. -/

namespace BuilderMigration

/-- A value; the fields of an object keep their order. -/
inductive Json where
  | null
  | bool (b : Bool)
  | int (n : Int)
  | str (s : String)
  | arr (items : List Json)
  | obj (fields : List (String × Json))

namespace Json

def hexDigit (n : Nat) : Char := if n < 10 then Char.ofNat (48 + n) else Char.ofNat (87 + n)

/-- The escape of one 16-bit unit. -/
def unitEscape (n : Nat) : List Char :=
  ['\\', 'u', hexDigit (n / 4096 % 16), hexDigit (n / 256 % 16), hexDigit (n / 16 % 16),
   hexDigit (n % 16)]

def escapeChar (c : Char) : List Char :=
  if c = '"' then ['\\', '"']
  else if c = '\\' then ['\\', '\\']
  else if c = '\n' then ['\\', 'n']
  else if c = '\r' then ['\\', 'r']
  else if c = '\t' then ['\\', 't']
  else if c.toNat = 0x08 then ['\\', 'b']
  else if c.toNat = 0x0C then ['\\', 'f']
  else if 0x20 ≤ c.toNat ∧ c.toNat < 0x7F then [c]
  else if c.toNat < 0x10000 then unitEscape c.toNat
  else
    let n := c.toNat - 0x10000
    unitEscape (0xD800 + n / 1024) ++ unitEscape (0xDC00 + n % 1024)

/-- A string in quotes. -/
def quote (s : String) : String :=
  String.ofList ('"' :: (s.toList.flatMap escapeChar ++ ['"']))

/-- Items on lines of their own, indented one level deeper than the line they close on. -/
def bracketed (opened closed : String) (depth : Nat) : List String → String
  | [] => opened ++ closed
  | items =>
    let indent (n : Nat) : String := "\n" ++ String.ofList (List.replicate (2 * n) ' ')
    opened ++ indent (depth + 1) ++ String.intercalate ("," ++ indent (depth + 1)) items
      ++ indent depth ++ closed

mutual

/-- The layout of a value that begins on a line indented `depth` levels. -/
def layout (depth : Nat) : Json → String
  | null => "null"
  | bool b => if b then "true" else "false"
  | int n => toString n
  | str s => quote s
  | arr items => bracketed "[" "]" depth (layouts (depth + 1) items)
  | obj fields => bracketed "\x7b" "\x7d" depth (fieldLayouts (depth + 1) fields)

def layouts (depth : Nat) : List Json → List String
  | [] => []
  | v :: vs => v.layout depth :: layouts depth vs

def fieldLayouts (depth : Nat) : List (String × Json) → List String
  | [] => []
  | (name, v) :: fields => (quote name ++ ": " ++ v.layout depth) :: fieldLayouts depth fields

end

/-- The text of a value. -/
def text (v : Json) : String := v.layout 0

end Json

end BuilderMigration
