/-! Types, as written in annotations and as known of expressions. -/

namespace BuilderMigration

/-- A type. `path` is a name as written; `adt` is a nominal type under its defining path, crate
first; `other` is a type whose inside never matters. Generic arguments are not kept. -/
inductive Ty where
  | ref (inner : Ty) (mutable : Bool)
  | path (segments : List String)
  | adt (path : List String)
  | tuple (elems : List Ty)
  | prim (name : String)
  | param (name : String)
  | other (text : String)

namespace Ty

/-- Names joined by double colons. -/
def joinPath (segments : List String) : String := String.intercalate "::" segments

mutual

/-- The type as source text. -/
def text : Ty → String
  | ref inner mutable => (if mutable then "&mut " else "&") ++ inner.text
  | path segments => joinPath segments
  | adt p => joinPath p
  | tuple elems => "(" ++ String.intercalate ", " (texts elems) ++ ")"
  | prim name => name
  | param name => name
  | other t => t

def texts : List Ty → List String
  | [] => []
  | t :: ts => t.text :: texts ts

end

/-- The type under all its outer references. -/
def stripRefs : Ty → Ty
  | ref inner _ => inner.stripRefs
  | t => t

/-- The last name of a nominal type, empty for an empty path. -/
def adtName? : Ty → Option String
  | adt p => some (p.getLastD "")
  | _ => none

end Ty

end BuilderMigration
