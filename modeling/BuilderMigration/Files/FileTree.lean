import BuilderMigration.Files.Path
import BuilderMigration.Text.Lines
import BuilderMigration.Text.Quoted
import BuilderMigration.Text.Utf8

/-! A tree of files as a value, with reading, writing and creating directories. A directory is there
when it is an entry or when something lies in it. -/

namespace BuilderMigration

inductive FileEntry where
  | file (bytes : List UInt8)
  | directory
  deriving DecidableEq

/-- The entries of a tree by the names that lead to them from the root, and the working
directory. -/
structure FileTree where
  here : List String := []
  entries : List (List String × FileEntry)
  deriving DecidableEq

/-- Why a file operation fails; the path is as it was asked for. -/
inductive FileError where
  | notFound (path : Path)
  | exists (path : Path)
  | notDirectory (path : Path)
  | isDirectory (path : Path)
  | tooLong (path : Path)
  /-- A path that holds a null character names nothing. -/
  | nullCharacter
  | decoding (e : Utf8Error)
  deriving DecidableEq

def FileError.message : FileError → String
  | notFound p => "[Errno 2] No such file or directory: " ++ Text.quoted p.text
  | .exists p => "[Errno 17] File exists: " ++ Text.quoted p.text
  | notDirectory p => "[Errno 20] Not a directory: " ++ Text.quoted p.text
  | isDirectory p => "[Errno 21] Is a directory: " ++ Text.quoted p.text
  | tooLong p => "[Errno 36] File name too long: " ++ Text.quoted p.text
  | nullCharacter => "embedded null byte"
  | decoding e => e.message

namespace FileTree

/-! ### Looking up -/

/-- The bytes of a file. -/
def bytesAt? (t : FileTree) (names : List String) : Option (List UInt8) :=
  match t.entries.lookup names with
  | some (.file bytes) => some bytes
  | _ => none

def isFileAt (t : FileTree) (names : List String) : Bool := (t.bytesAt? names).isSome

def isDirectoryAt (t : FileTree) (names : List String) : Bool :=
  names.isEmpty || (t.entries.any fun e =>
    names.isPrefixOf e.1 && (decide (names.length < e.1.length) || e.2 == .directory))

/-- The most bytes that a name has. -/
def nameLimit : Nat := 255

/-- The most bytes that a path has. -/
def pathLimit : Nat := 4095

/-- Where a path starts from. -/
def origin (t : FileTree) (p : Path) : List String := if p.absolute then [] else t.here

/-- One step of the walk along a path, out of a directory that is there: a double dot leads back. -/
def step (t : FileTree) (p : Path) (names : List String) (part : String) :
    Except FileError (List String) :=
  if t.isFileAt names then .error (.notDirectory p)
  else if !t.isDirectoryAt names then .error (.notFound p)
  else if part = ".." then .ok names.dropLast
  else if nameLimit < part.utf8ByteSize then .error (.tooLong p)
  else .ok (names ++ [part])

/-- The names from the root that a path leads to. Nothing need be there, but all directories on the
way are. -/
def locate (t : FileTree) (p : Path) : Except FileError (List String) :=
  if p.parts.any (·.toList.contains (Char.ofNat 0)) then .error .nullCharacter
  else if pathLimit < p.text.utf8ByteSize then .error (.tooLong p)
  else p.parts.foldlM (t.step p) (t.origin p)

/-- Whether a path leads to something with a property. -/
def leadsTo (t : FileTree) (p : Path) (good : List String → Bool) : Bool :=
  match t.locate p with
  | .ok names => good names
  | .error _ => false

def isFile (t : FileTree) (p : Path) : Bool := t.leadsTo p t.isFileAt

def isDirectory (t : FileTree) (p : Path) : Bool := t.leadsTo p t.isDirectoryAt

def exists? (t : FileTree) (p : Path) : Bool := t.isFile p || t.isDirectory p

/-- Whether it cannot even be asked what a path leads to, as one of its names or all of it is too
long. -/
def isOverlong (t : FileTree) (p : Path) : Bool :=
  match t.locate p with
  | .error (.tooLong _) => true
  | _ => false

/-- The names that a path leads to if all its directories are there. -/
def plain (t : FileTree) (p : Path) : List String :=
  p.parts.foldl (fun names part => if part = ".." then names.dropLast else names ++ [part])
    (t.origin p)

/-! ### Reading -/

/-- The bytes of the file that a path leads to. -/
def readBytes (t : FileTree) (p : Path) : Except FileError (List UInt8) := do
  let names ← t.locate p
  match t.bytesAt? names with
  | some bytes => return bytes
  | none => throw (if t.isDirectoryAt names then .isDirectory p else .notFound p)

/-- The text of a file; every end of line counts as a newline. -/
def readText (t : FileTree) (p : Path) : Except FileError String := do
  match Utf8.decode (← t.readBytes p) with
  | .ok text => return String.ofList (Text.unifyNewlines text.toList)
  | .error e => throw (.decoding e)

/-- Whether names come before or with other names, compared name by name. -/
def namesLe : List String → List String → Bool
  | [], _ => true
  | _ :: _, [] => false
  | a :: as, b :: bs => a < b || (a == b && namesLe as bs)

/-- All names under a directory, relative to it, in order, directories included. -/
def below (t : FileTree) (names : List String) : List (List String) :=
  let inside := t.entries.filterMap fun e =>
    if names.isPrefixOf e.1 then some (e.1.drop names.length) else none
  let all := inside.flatMap fun rest => (List.range rest.length).map fun n => rest.take (n + 1)
  all.eraseDups.mergeSort namesLe

/-- The files of a later tree that are new or hold other bytes. -/
def changesTo (t later : FileTree) : List (List String × List UInt8) :=
  later.entries.filterMap fun (names, entry) =>
    match entry with
    | .file bytes => if t.bytesAt? names = some bytes then none else some (names, bytes)
    | .directory => none

/-! ### Writing -/

/-- Enters what stands under some names in place of what stood there. -/
def enter (t : FileTree) (names : List String) (entry : FileEntry) : FileTree :=
  if t.entries.any (·.1 == names) then
    { t with entries := t.entries.map fun e => if e.1 == names then (names, entry) else e }
  else { t with entries := t.entries ++ [(names, entry)] }

/-- Creates a directory in one that is there. -/
def makeDirectory (t : FileTree) (p : Path) : Except FileError FileTree := do
  let names ← t.locate p
  if t.isFileAt names || t.isDirectoryAt names then throw (.exists p)
  return t.enter names .directory

/-- Creates a directory in one that is there, unless it is there itself. -/
def ensureDirectory (t : FileTree) (p : Path) : FileTree × Except FileError Unit :=
  match t.makeDirectory p with
  | .ok later => (later, .ok ())
  | .error e => (t, if t.isDirectory p then .ok () else .error e)

/-- Creates the directory that the first `n` names of a path lead to, and where the way to it leads
through nothing also those it lies in. Those created before a failure stay. -/
def makeWay (t : FileTree) (p : Path) : Nat → FileTree × Except FileError Unit
  | 0 => (t, .ok ())
  | n + 1 =>
    match t.makeDirectory (p.take (n + 1)) with
    | .error (.notFound _) =>
      match t.makeWay p n with
      | (later, .ok ()) => later.ensureDirectory (p.take (n + 1))
      | failed => failed
    | _ => t.ensureDirectory (p.take (n + 1))

/-- Puts bytes into a file, new or not, in a directory that is there. -/
def writeBytes (t : FileTree) (p : Path) (bytes : List UInt8) : Except FileError FileTree := do
  let names ← t.locate p
  if t.isDirectoryAt names then throw (.isDirectory p)
  return t.enter names (.file bytes)

/-- Writes a file, whose directories are created where they are missing. -/
def writeText (t : FileTree) (p : Path) (text : String) : FileTree × Except FileError Unit :=
  match t.makeWay p.parent p.parent.parts.length with
  | (later, .ok ()) =>
    match later.writeBytes p (Utf8.encode text) with
    | .ok written => (written, .ok ())
    | .error e => (later, .error e)
  | failed => failed

end FileTree

end BuilderMigration
