import BuilderMigration.Assoc

/-! Raw settings: what a configuration file or a caller gives before it is checked. -/

namespace BuilderMigration

/-- What a date or time gives. -/
inductive MomentKind where
  | date | time | dateTime
  deriving DecidableEq

/-- A raw value. A number written with a dot or an exponent is kept by its whole value, if it has
one that fits into 64 bits; of dates and times nothing is kept. -/
inductive RawValue where
  | null
  | bool (b : Bool)
  | integer (n : Int)
  | decimal (whole : Option Int)
  | moment (kind : MomentKind)
  | string (s : String)
  | list (items : List RawValue)
  | table (fields : List (String × RawValue))

/-- Kinds of raw values. -/
inductive RawKind where
  | null | bool | integer | decimal
  | moment (kind : MomentKind)
  | string | list | table
  deriving DecidableEq

namespace RawValue

def kind : RawValue → RawKind
  | null => .null
  | bool _ => .bool
  | integer _ => .integer
  | decimal _ => .decimal
  | moment k => .moment k
  | string _ => .string
  | list _ => .list
  | table _ => .table

/-- The value of a key of a table. -/
def field? (key : String) : RawValue → Option RawValue
  | table fields => Assoc.get? key fields
  | _ => none

end RawValue

end BuilderMigration
