import BuilderMigration.Assoc
import BuilderMigration.Settings.Basic
import BuilderMigration.Settings.Decimal
import BuilderMigration.Settings.Raw
import BuilderMigration.Text.Alphanumeric
import BuilderMigration.Text.Blank

/-! Checking raw settings. Every field of a wrong kind is reported, with every wrong value inside
it; the rules for names apply to fields of the right kind, and report their first breach. -/

namespace BuilderMigration

/-- A step from settings to a value in them. -/
inductive Settings.Step where
  | key (name : String)
  | index (i : Nat)
  deriving DecidableEq

/-- What is wrong with a value. -/
inductive Settings.Fault where
  | notString | unreadableBool | notBool | notList | notTable
  | emptyName (what : String)
  | badName (what name : String)
  | badKey (key : String)
  deriving DecidableEq

def Settings.Fault.message : Settings.Fault → String
  | notString => "Input should be a valid string"
  | unreadableBool => "Input should be a valid boolean, unable to interpret input"
  | notBool => "Input should be a valid boolean"
  | notList => "Input should be a valid list"
  | notTable => "Input should be a valid dictionary"
  | emptyName what => "Value error, " ++ what ++ " must not be empty"
  | badName what name =>
    "Value error, " ++ what ++ " must be a Rust identifier, got '" ++ name ++ "'"
  | badKey key =>
    "Value error, Closure signature key must be 'method' or 'Receiver.method', got '" ++ key ++ "'"

/-- A fault and the way to the value that has it. -/
structure Settings.Error where
  path : List Settings.Step
  fault : Settings.Fault
  deriving DecidableEq

namespace Settings

/-- A value, or all that is wrong with it. -/
abbrev Checked (α : Type) := Except (List Error) α

/-! ### Kinds of values -/

def string (path : List Step) : RawValue → Checked String
  | .string s => .ok s
  | _ => .error [⟨path, .notString⟩]

/-- The words for yes and no, in any case. -/
def boolWord? (s : String) : Option Bool :=
  let word := String.ofList (s.toList.map Char.toLower)
  if ["1", "on", "t", "true", "y", "yes"].contains word then some true
  else if ["0", "off", "f", "false", "n", "no"].contains word then some false
  else none

/-- A number that stands for no or yes. -/
def boolNumber (path : List Step) (n : Int) : Checked Bool :=
  if n = 1 then .ok true
  else if n = 0 then .ok false
  else .error [⟨path, .unreadableBool⟩]

/-- A number of more than 64 bits is not even looked at as a truth value. -/
def bool (path : List Step) : RawValue → Checked Bool
  | .bool b => .ok b
  | .integer n =>
    if -(Decimal.wordLimit : Int) ≤ n && n < Decimal.wordLimit then boolNumber path n
    else .error [⟨path, .notBool⟩]
  | .decimal (some n) => boolNumber path n
  | .string s =>
    match boolWord? s with
    | some b => .ok b
    | none => .error [⟨path, .unreadableBool⟩]
  | _ => .error [⟨path, .notBool⟩]

/-- Two checks, with the errors of both. -/
def both {α β : Type} (a : Checked α) (b : Checked β) : Checked (α × β) :=
  match a, b with
  | .ok x, .ok y => .ok (x, y)
  | .error e, .ok _ => .error e
  | .ok _, .error e => .error e
  | .error e, .error e' => .error (e ++ e')

/-- The items of a list from some index on. -/
def itemsFrom {α : Type} (item : List Step → RawValue → Checked α) (path : List Step) (i : Nat) :
    List RawValue → Checked (List α)
  | [] => .ok []
  | v :: vs =>
    (both (item (path ++ [.index i]) v) (itemsFrom item path (i + 1) vs)).map fun (a, as) => a :: as

def list {α : Type} (item : List Step → RawValue → Checked α) (path : List Step) :
    RawValue → Checked (List α)
  | .list vs => itemsFrom item path 0 vs
  | _ => .error [⟨path, .notList⟩]

/-- The values of a table. -/
def fields {α : Type} (value : List Step → RawValue → Checked α) (path : List Step) :
    List (String × RawValue) → Checked (List (String × α))
  | [] => .ok []
  | (k, v) :: rest =>
    (both (value (path ++ [.key k]) v) (fields value path rest)).map fun (a, as) => (k, a) :: as

def table {α : Type} (value : List Step → RawValue → Checked α) (path : List Step) :
    RawValue → Checked (List (String × α))
  | .table entries => fields value path entries
  | _ => .error [⟨path, .notTable⟩]

/-! ### Names -/

/-- A name without the blanks around it: letters, digits and underscores, no digit first. -/
def name (what text : String) : Except Fault String :=
  let cleaned := Text.trim text
  match cleaned.toList with
  | [] => .error (.emptyName what)
  | c :: cs =>
    if (c :: cs).all (fun d => d = '_' || Text.isAlphanumeric d) && !Text.isDigit c then .ok cleaned
    else .error (.badName what cleaned)

/-- The parts of a text between dots. -/
def dotted : List Char → List (List Char)
  | [] => [[]]
  | c :: cs =>
    if c = '.' then [] :: dotted cs
    else match dotted cs with
      | [] => [[c]]
      | part :: parts => (c :: part) :: parts

/-- A required-fields table with cleaned names; of keys that become equal the last counts. -/
def requiredTable : List (String × List String) → Except Fault (List (String × List String)) :=
  fun entries => entries.foldlM (fun done e => do
    let builder ← name "Builder name" e.1
    let fields ← e.2.mapM (name "Field name")
    return Assoc.put builder fields done) []

/-- A key of the signatures: a method, or a receiver and a method. -/
def signatureKey (key : String) : Except Fault String :=
  let parts := (dotted key.toList).map String.ofList
  if 2 < parts.length then .error (.badKey key)
  else return String.intercalate "." (← parts.mapM (name "Closure signature key"))

/-- A signature table with cleaned names; of keys that become equal the last counts. -/
def signatureTable : List (String × String) → Except Fault (List (String × String)) :=
  fun entries => entries.foldlM (fun done e => do
    let key ← signatureKey e.1
    let builder ← name "Builder name" e.2
    return Assoc.put key builder done) []

/-! ### Fields -/

/-- A field of raw settings: absent, it keeps its default; present, it is checked, and then has to
pass a rule. -/
def field {α β : Type} (raw : List (String × RawValue)) (key : String) (fallback : β)
    (check : List Step → RawValue → Checked α) (rule : α → Except Fault β) : Checked β :=
  match Assoc.get? key raw with
  | none => .ok fallback
  | some v => do
    let a ← check [.key key] v
    match rule a with
    | .ok b => .ok b
    | .error fault => .error [⟨[.key key], fault⟩]

/-- No rule. -/
def any {α : Type} (a : α) : Except Fault α := .ok a

/-- The settings that raw ones stand for. Unknown fields are passed over. -/
def check (raw : List (String × RawValue)) : Checked Settings :=
  let namespaceRule := name "Builder namespace segment"
  let plain : Settings := {}
  let result :=
    both (field raw "builder_crate" plain.builderCrate string namespaceRule) <|
    both (field raw "builder_module" plain.builderModule string namespaceRule) <|
    both (field raw "strict_receiver_types" plain.strictReceivers bool any) <|
    both (field raw "multiline" plain.multiline bool any) <|
    both (field raw "placeholder" plain.placeholder string any) <|
    both (field raw "required_fields" plain.requiredFields (table (list string)) requiredTable) <|
    both (field raw "closure_signatures" plain.closureSignatures (table string) signatureTable) <|
    field raw "exclude" plain.exclude (list string) any
  result.map fun (crate, scope, strict, multiline, placeholder, required, signatures, exclude) =>
    ⟨crate, scope, strict, multiline, placeholder, required, signatures, exclude⟩

end Settings

end BuilderMigration
