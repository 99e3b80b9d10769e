import BuilderMigration.Tree.Node
import BuilderMigration.Typing.Signatures

/-! What the names in written types stand for. -/

namespace BuilderMigration

/-- What a file knows about names: the imports anywhere in it, the latest first, the modules of
which it imports everything, and the closure signatures. -/
structure Names where
  settings : Settings
  signatures : Signatures
  imports : List Import
  globs : List (List String)

namespace Names

/-- The types that are built into the language. -/
def primitives : List String :=
  ["bool", "char", "str", "f32", "f64", "i8", "i16", "i32", "i64", "i128", "isize",
   "u8", "u16", "u32", "u64", "u128", "usize"]

/-- The imports of a node. -/
def importsOf : Node → List Import
  | .item (.use _ imports _) => imports
  | _ => []

/-- The globs of a node. -/
def globsOf : Node → List (List String)
  | .item (.use _ _ globs) => globs
  | _ => []

/-- The names of a file. An import under the name `_` brings in no name. -/
def ofModule (settings : Settings) (m : Module) : Names where
  settings := settings
  signatures := Signatures.ofSettings settings
  imports := ((m.tree.preorder.flatMap importsOf).filter (·.name ≠ "_")).reverse
  globs := m.tree.preorder.flatMap globsOf

/-- The path that an imported name stands for. -/
def imported? (n : Names) (name : String) : Option (List String) :=
  (n.imports.find? (·.name = name)).map (·.path)

/-- The path of the module of builders. -/
def builderModule (n : Names) : List String := [n.settings.builderCrate, n.settings.builderModule]

/-- What a path in a type stands for: a single name can be a primitive or, where everything in the
module of builders is imported, a builder. -/
def resolvePath (n : Names) : List String → Ty
  | [] => .adt []
  | head :: rest =>
    if rest = [] ∧ head ∈ primitives then .prim head
    else
      match n.imported? head with
      | some path => .adt (path ++ rest)
      | none =>
        if rest = [] ∧ head ∈ n.signatures.knownBuilders ∧ n.builderModule ∈ n.globs then
          .adt (n.builderModule ++ [head])
        else .adt (head :: rest)

mutual

/-- The type that a written type stands for. -/
def resolve (n : Names) : Ty → Ty
  | .ref inner mutable => .ref (n.resolve inner) mutable
  | .tuple elems => .tuple (n.resolveAll elems)
  | .path segments => n.resolvePath segments
  | .adt path => .adt path
  | .prim name => .prim name
  | .param name => .param name
  | .other text => .other text

def resolveAll (n : Names) : List Ty → List Ty
  | [] => []
  | ty :: tys => n.resolve ty :: n.resolveAll tys

end

end Names

end BuilderMigration
