import BuilderMigration.Source.Span

/-! Macro expansions and the walk from a span inside an expansion out to the call that made it. -/

namespace BuilderMigration

/-- One macro expansion. A generated one has no user text behind its output. -/
structure Expansion where
  callSite : Span
  generated : Bool := false
  deriving DecidableEq

/-- The expansions of a run; the first is context `1`, the next context `2`, and so on. -/
structure Expansions where
  entries : List Expansion := []
  deriving DecidableEq

namespace Expansions

/-- The expansion that made a context. The root and unregistered contexts have none. -/
def find? (t : Expansions) (ctxt : Int) : Option Expansion :=
  if 0 < ctxt then t.entries[(ctxt - 1).toNat]? else none

/-- Adds an expansion and returns its context. -/
def register (t : Expansions) (e : Expansion) : Int × Expansions :=
  (t.entries.length + 1, ⟨t.entries ++ [e]⟩)

def isGenerated (t : Expansions) (ctxt : Int) : Bool :=
  match t.find? ctxt with
  | some e => e.generated
  | none => false

/-- At most `steps` moves outwards; a context in `seen` is not left a second time. -/
def walkFrom (t : Expansions) (target : Int) : Nat → List Int → Span → Span
  | 0, _, s => s
  | steps + 1, seen, s =>
    if s.ctxt = target ∨ s.ctxt = 0 ∨ s.ctxt ∈ seen then s
    else match t.find? s.ctxt with
      | none => s
      | some e => if e.generated then s else walkFrom t target steps (s.ctxt :: seen) e.callSite

/-- Walks a span out through call sites until it stands in `target` or the root, or no move is
left: every move leaves a new registered context, so there are at most as many as expansions. -/
def walk (t : Expansions) (s : Span) (target : Int) : Span :=
  t.walkFrom target t.entries.length [] s

end Expansions

end BuilderMigration
