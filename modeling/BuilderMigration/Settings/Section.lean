import BuilderMigration.Settings.Raw

/-! The section of a configuration file that holds the settings. It is a table as a rule; a list
whose items are pairs of a key and a value will do as well, where a text counts as the list of its
characters and a table as the list of its keys. -/

namespace BuilderMigration.Section

/-- Why a value gives no settings. -/
inductive Fault where
  /-- It has no fields to look for the section in. -/
  | notTable (kind : RawKind)
  | notList (kind : RawKind)
  | itemNotList (index : Nat)
  | itemNotPair (index length : Nat)
  /-- A list or a table stands in the place of a key. -/
  | badKey (kind : RawKind)
  deriving DecidableEq

/-- The items of a value that counts as a list. -/
def itemsOf? : RawValue → Option (List RawValue)
  | .string s => some (s.toList.map fun c => .string (String.singleton c))
  | .list items => some items
  | .table fields => some (fields.map fun f => .string f.1)
  | _ => none

/-- Enters the pair of an item. A key that is no text can never be asked for. -/
def enterPair (fields : List (String × RawValue)) (index : Nat) (item : RawValue) :
    Except Fault (List (String × RawValue)) :=
  match itemsOf? item with
  | none => .error (.itemNotList index)
  | some [.string key, value] => .ok (Assoc.put key value fields)
  | some [key, _] =>
    match key with
    | .list _ | .table _ => .error (.badKey key.kind)
    | _ => .ok fields
  | some items => .error (.itemNotPair index items.length)

/-- The fields that a value gives. -/
def fieldsOf : RawValue → Except Fault (List (String × RawValue))
  | .table fields => .ok fields
  | v =>
    match itemsOf? v with
    | none => .error (.notList v.kind)
    | some items => items.zipIdx.foldlM (fun fields (item, i) => enterPair fields i item) []

/-- The fields under a path of tables; none where a table on the way lacks the next key. -/
def find (v : RawValue) : List String → Except Fault (List (String × RawValue))
  | [] => fieldsOf v
  | key :: path =>
    match v with
    | .table fields =>
      match Assoc.get? key fields with
      | some inner => find inner path
      | none => .ok []
    | v => .error (.notTable v.kind)

end BuilderMigration.Section
