import BuilderMigration.Source.Expansion
import BuilderMigration.Text.Blank

/-! The files of a run, laid out one after another in one space of positions. Position `0` is
kept for spans without text, and one position is left free behind each file, so that no span
with text touches two files. -/

namespace BuilderMigration

/-- A file, its characters and the global position of the first of them. -/
structure SourceFile where
  name : String
  chars : List Char
  start : Int
  deriving DecidableEq

namespace SourceFile

/-- The position behind the last character. -/
def stop (f : SourceFile) : Int := f.start + f.chars.length

/-- Both ends count as positions of the file. -/
def holds (f : SourceFile) (pos : Int) : Bool := f.start ≤ pos && pos ≤ f.stop

/-- The offsets at which a line begins, the first line apart; `offset` is that of the head. -/
def laterLineStarts (offset : Nat) : List Char → List Nat
  | [] => []
  | c :: cs =>
    if c = '\n' then (offset + 1) :: laterLineStarts (offset + 1) cs
    else laterLineStarts (offset + 1) cs

/-- Line and column, both from one, of an offset into the file. -/
def lineColumn (f : SourceFile) (offset : Nat) : Nat × Nat :=
  let begun := (laterLineStarts 0 f.chars).takeWhile (· ≤ offset)
  (begun.length + 1, offset - begun.getLastD 0 + 1)

end SourceFile

/-- The files registered so far, the next free position and the expansions. -/
structure SourceMap where
  files : List SourceFile := []
  next : Int := 1
  expansions : Expansions := {}
  deriving DecidableEq

namespace SourceMap

/-- Registers a file at the next free position. -/
def add (m : SourceMap) (name text : String) : SourceFile × SourceMap :=
  let file : SourceFile := ⟨name, text.toList, m.next⟩
  (file, { m with files := m.files ++ [file], next := file.stop + 1 })

/-- Registers an expansion and returns its context. -/
def expand (m : SourceMap) (e : Expansion) : Int × SourceMap :=
  let (ctxt, table) := m.expansions.register e
  (ctxt, { m with expansions := table })

/-- The file that a position belongs to. -/
def file? (m : SourceMap) (pos : Int) : Option SourceFile := m.files.find? (·.holds pos)

/-- The text of a span: none for a dummy or inverted span, for generated code and for a span
that does not lie in one file. -/
def snippet? (m : SourceMap) (s : Span) : Option String :=
  if s.isDummy || s.hi < s.lo || m.expansions.isGenerated s.ctxt then none
  else match m.file? s.lo with
    | none => none
    | some f =>
      if f.stop < s.hi then none
      else some (String.ofList (Text.slice f.chars (s.lo - f.start).toNat (s.hi - f.start).toNat))

/-- File name, line and column of a position. -/
def locate (m : SourceMap) (pos : Int) : String × Nat × Nat :=
  match m.file? pos with
  | none => ("<unknown>", 0, 0)
  | some f => (f.name, f.lineColumn (pos - f.start).toNat)

end SourceMap

end BuilderMigration
