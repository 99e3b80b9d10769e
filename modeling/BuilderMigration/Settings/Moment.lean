import BuilderMigration.Settings.Raw

/-! Dates and times at the head of a text. Of their values nothing is kept. -/

namespace BuilderMigration.Moment

/-- A number of so many digits, with what follows it. -/
def field (width low high : Nat) (cs : List Char) : Option (Nat × List Char) :=
  let digits := cs.take width
  let n := digits.foldl (fun n d => n * 10 + (d.toNat - 48)) 0
  if digits.length = width && digits.all Char.isDigit && low ≤ n && n ≤ high then
    some (n, cs.drop width)
  else none

/-- What follows a given character. -/
def mark (c : Char) : List Char → Option (List Char)
  | d :: cs => if d = c then some cs else none
  | [] => none

/-- Passes over hours and minutes. -/
def clock (cs : List Char) : Option (List Char) := do
  let (_, cs) ← field 2 0 23 cs
  let (_, cs) ← field 2 0 59 (← mark ':' cs)
  return cs

/-- Passes over the decimals of a second, if there are any. -/
def decimals (cs : List Char) : List Char :=
  match cs with
  | '.' :: d :: rest => if d.isDigit then rest.dropWhile Char.isDigit else cs
  | _ => cs

/-- Passes over a time of day. -/
def time (cs : List Char) : Option (List Char) := do
  let cs ← clock cs
  let (_, cs) ← field 2 0 59 (← mark ':' cs)
  return decimals cs

/-- Passes over a distance from universal time, if there is one. -/
def offset (cs : List Char) : List Char :=
  match cs with
  | c :: rest =>
    if c = 'Z' || c = 'z' then rest
    else if c = '+' || c = '-' then (clock rest).getD cs
    else cs
  | [] => cs

def isLeap (year : Nat) : Bool := (year % 4 = 0 && year % 100 ≠ 0) || year % 400 = 0

def daysIn (year month : Nat) : Nat :=
  if month = 2 then (if isLeap year then 29 else 28)
  else if [4, 6, 9, 11].contains month then 30
  else 31

/-- Passes over a date. -/
def date (cs : List Char) : Option (List Char) := do
  let (year, cs) ← field 4 1 9999 cs
  let (month, cs) ← field 2 1 12 (← mark '-' cs)
  let (_, cs) ← field 2 1 (daysIn year month) (← mark '-' cs)
  return cs

/-- The time of day that may follow a date. -/
def timeBehind (rest : List Char) : MomentKind × List Char :=
  match rest with
  | c :: cs =>
    if c = 'T' || c = 't' || c = ' ' then
      match time cs with
      | some later => (.dateTime, offset later)
      | none => (.date, rest)
    else (.date, rest)
  | [] => (.date, [])

/-- A date, a time of day or both, with what follows. -/
def moment (cs : List Char) : Option (MomentKind × List Char) :=
  match date cs with
  | some rest => some (timeBehind rest)
  | none => (time cs).map (.time, ·)

end BuilderMigration.Moment
