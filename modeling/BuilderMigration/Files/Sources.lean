import BuilderMigration.Files.FileTree
import BuilderMigration.Text.Glob

/-! The source files under a directory, less those that patterns leave out. -/

namespace BuilderMigration

/-- Why the source files under a directory are not found. -/
inductive SourcesError where
  /-- A pattern that names nothing at all. -/
  | emptyPattern
  | file (e : FileError)
  deriving DecidableEq

def SourcesError.message : SourcesError → String
  | emptyPattern => "empty pattern"
  | file e => e.message

namespace FileTree

/-- Whether the last names of a path match the names of a pattern one by one. Absolute patterns
match no path. -/
def namesMatch (pattern : Path) (names : List String) : Bool :=
  !pattern.absolute && pattern.parts.length ≤ names.length
    && (pattern.parts.reverse.zip names.reverse).all fun (p, n) => Glob.accepts p n

/-- Whether a pattern matches a path as a whole text, or name by name from its end. -/
def patternMatches (pattern : String) (names : List String) : Except SourcesError Bool :=
  if Glob.accepts pattern (String.intercalate "/" names) then .ok true
  else
    let path := Path.ofString pattern
    if !path.absolute && path.parts.isEmpty then .error .emptyPattern
    else .ok (namesMatch path names)

/-- Whether one of some patterns matches; the first that does settles it. -/
def isExcluded (names : List String) : List String → Except SourcesError Bool
  | [] => .ok false
  | pattern :: patterns => do
    if ← patternMatches pattern names then return true
    isExcluded names patterns

/-- The files to keep, in order. -/
def keep (exclude : List String) : List (List String) → Except SourcesError (List (List String))
  | [] => .ok []
  | names :: rest => do
    let excluded ← isExcluded names exclude
    let kept ← keep exclude rest
    return if excluded then kept else names :: kept

/-- Whether the last name on the way to an entry is that of a source file. -/
def isSourceName (names : List String) : Bool :=
  ".rs".toList.isSuffixOf (names.getLastD "").toList

/-- The source files under a directory, relative to it and in order; directories of such a name
count as files. -/
def sources (t : FileTree) (directory : Path) (exclude : List String) :
    Except SourcesError (List (List String)) :=
  match t.locate directory with
  | .ok names =>
    if t.isDirectoryAt names then keep exclude ((t.below names).filter isSourceName) else .ok []
  | .error (.tooLong p) => .error (.file (.tooLong p))
  | .error _ => .ok []

end FileTree

end BuilderMigration
