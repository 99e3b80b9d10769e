/-! Edits of a text and their simultaneous application. -/

namespace BuilderMigration

/-- Replace the characters from `start` up to `stop`. -/
structure Edit where
  start : Int
  stop : Int
  replacement : String
  deriving DecidableEq

namespace Edit

/-- An offset into a text of `length` characters: a negative one counts from the end, and one
that is out of range means the nearest end. -/
def clamp (length : Nat) (i : Int) : Nat :=
  if i < 0 then (length + i).toNat else min i.toNat length

/-- One replacement. -/
def splice (cs : List Char) (e : Edit) : List Char :=
  cs.take (clamp cs.length e.start) ++ e.replacement.toList ++ cs.drop (clamp cs.length e.stop)

/-- The order in which edits are made: later positions first, and of edits of one range the
one listed first. -/
def comesFirst (a b : Edit) : Bool := b.start < a.start || (a.start == b.start && b.stop ≤ a.stop)

/-- Makes one edit, unless it reaches past `limit`, where the edit made before it begins. -/
def step (st : List Char × Int) (e : Edit) : List Char × Int :=
  if st.2 < e.stop || e.stop < e.start then st else (splice st.1 e, e.start)

end Edit

/-- Makes all edits from the end of the text backwards, so that the offsets of those still to
come stay valid; one that overlaps an edit already made is left out. -/
def applyEdits (code : String) (edits : List Edit) : String :=
  let start : List Char × Int := (code.toList, code.length + 1)
  String.ofList ((edits.mergeSort Edit.comesFirst).foldl Edit.step start).1

end BuilderMigration
