/-! Spans: half-open ranges of global positions, each in a context that says which macro
expansion produced it. Context `0` is text the user wrote directly. -/

namespace BuilderMigration

/-- The positions `lo ≤ p < hi`, seen from context `ctxt`. -/
structure Span where
  lo : Int
  hi : Int
  ctxt : Int := 0
  deriving DecidableEq

namespace Span

/-- The span of a node that no text stands for. -/
def isDummy (s : Span) : Bool := s.lo == 0 && s.hi == 0

/-- Whether `inner` lies within `outer`, whatever their contexts. -/
def contains (outer inner : Span) : Bool := outer.lo ≤ inner.lo && inner.hi ≤ outer.hi

/-- From the start of `s` to the end of `t`, in the context of `s`. -/
def through (s t : Span) : Span := ⟨s.lo, max s.hi t.hi, s.ctxt⟩

end Span

end BuilderMigration
