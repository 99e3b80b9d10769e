import BuilderMigration.Settings.Basic
import BuilderMigration.Source.SourceMap

/-! Writing replacement text: what it draws on, the notes taken on the way, and the way to give
up. Notes taken before giving up stay. -/

namespace BuilderMigration

/-- Something to check in a rewrite. -/
structure Note where
  message : String
  span : Option Span := none
  deriving DecidableEq

/-- Why a recognised builder is left as it is. -/
structure Violation where
  reason : String
  span : Option Span := none
  deriving DecidableEq

/-- The source text and the settings that a rewrite draws on. -/
structure Workshop where
  sources : SourceMap
  settings : Settings

/-- The context that spans are walked out to, the notes so far, and whether the table of rewrite
rules was looked into. -/
structure Draft where
  ctxt : Int := 0
  notes : List Note := []
  consulted : Bool := false
  deriving DecidableEq

abbrev Rewrite := ExceptT Violation (StateM Draft)

namespace Rewrite

variable {α : Type}

/-- Takes a note. -/
def note (message : String) (span : Option Span) : Rewrite Unit :=
  modify fun d => { d with notes := d.notes ++ [⟨message, span⟩] }

/-- Gives up. -/
def refuse (reason : String) (span : Option Span) : Rewrite α := throw ⟨reason, span⟩

/-- Works in a context, and returns to the one before also when it gives up. -/
def within (ctxt : Int) (work : Rewrite α) : Rewrite α := fun d =>
  let (result, after) := work { d with ctxt := ctxt }
  (result, { after with ctxt := d.ctxt })

/-- Records that the table of rewrite rules is looked into. -/
def consult : Rewrite Unit := modify fun d => { d with consulted := true }

end Rewrite

namespace Workshop

/-- The source text behind a span, seen from a context. -/
def resolve? (w : Workshop) (s : Span) (ctxt : Int) : Option String :=
  w.sources.snippet? (w.sources.expansions.walk s ctxt)

/-- The trimmed source text behind a span, or the placeholder; with it whether text is missing. -/
def excerpt (w : Workshop) (s : Span) (ctxt : Int) : String × Bool :=
  match w.resolve? s ctxt with
  | some text => (Text.trim text, false)
  | none => (w.settings.placeholder, true)

/-- The trimmed source text behind a span, with a note where a placeholder stands in. -/
def snippet (w : Workshop) (s : Span) : Rewrite String := do
  let (text, missing) := w.excerpt s (← get).ctxt
  if missing then
    Rewrite.note "original source text is unavailable; a placeholder was emitted" (some s)
  return text

end Workshop

end BuilderMigration
