import BuilderMigration.Idiom.Recognize
import BuilderMigration.Rewrite.Rules
import BuilderMigration.Tree.Node

/-! Builder sites: the statements and closures that are rewritten, and the walk that finds the
outermost ones. The walk carries the notes of the latest rewrite and the spans that it is done with
along. -/

namespace BuilderMigration

/-- What the rewriting of one file draws on. -/
structure Plan where
  workshop : Workshop
  rules : Rules := {}

/-! ### One node -/

/-- What all nodes of a file share: the notes of the latest rewrite, and whether the table of
rewrite rules was looked into. -/
structure Context where
  notes : List Note := []
  consulted : Bool := false
  deriving DecidableEq

/-- A span and the text that takes its place. -/
structure Replacement where
  span : Span
  text : String
  deriving DecidableEq

abbrev Attempt := ExceptT Violation (StateM Context)

namespace Attempt

/-- Forgets the notes of the rewrite before. -/
def forget : Attempt Unit := modify fun c => { c with notes := [] }

/-- Runs a rewrite from the syntax context of a span. Its notes are kept unless it gives up. -/
def rewrite (span : Span) (work : Rewrite String) : Attempt Replacement := fun c =>
  let (outcome, draft) := work { ctxt := span.ctxt }
  let consulted := c.consulted || draft.consulted
  match outcome with
  | .ok text => (.ok ⟨span, text⟩, { notes := draft.notes, consulted })
  | .error v => (.error v, { c with consulted })

end Attempt

namespace Node

/-- The rewrite of a builder that a node is, if it is one: a statement that is a chain on a known
builder, or a closure that configures a builder. -/
def builder? (p : Plan) : Node → Option (Rewrite String)
  | .stmt s => (stmtChain? p.workshop.settings true s).map (p.workshop.rewriteChain p.rules)
  | .expr e => (builderClosure? p.workshop.settings e).map (p.workshop.rewriteClosure p.rules)
  | _ => none

/-- Classifies a node and rewrites it if it is a builder. -/
def classify (p : Plan) (n : Node) : Attempt (Option Replacement) := do
  Attempt.forget
  match n.builder? p with
  | none => return none
  | some work => return some (← Attempt.rewrite n.span work)

/-- The nodes that are classified at all. -/
def isCandidate : Node → Bool
  | .stmt _ | .expr (.closure ..) => true
  | _ => false

end Node

/-! ### Sites -/

/-- What became of a builder: its new text with notes to it, or why there is none. -/
structure Site where
  span : Span
  outcome : Except Violation String
  notes : List Note

namespace Site

/-- What a classification finds, with the notes that the context has behind it. -/
def ofAttempt? (n : Node) :
    Except Violation (Option Replacement) × Context → Option Site
  | (.ok none, _) => none
  | (.ok (some r), c) => some ⟨r.span, .ok r.text, c.notes⟩
  | (.error v, _) => some ⟨n.span, .error v, []⟩

/-- The site that a node is, looked at alone and in a fresh context. -/
def ofNode? (p : Plan) (n : Node) : Option Site :=
  if n.isCandidate then ofAttempt? n (n.classify p {}) else none

end Site

/-! ### The walk -/

/-- How far a walk has come. -/
structure Walk where
  context : Context := {}
  excluded : List Span := []
  sites : List Site := []

namespace Walk

/-- Whether a span lies within one of the same context that the walk is done with. -/
def excludes (w : Walk) (s : Span) : Bool :=
  w.excluded.any fun done => done.contains s && done.ctxt == s.ctxt

/-- Classifies a node. A site is recorded and its span is done with; with it whether there is one. -/
def tryNode (p : Plan) (w : Walk) (n : Node) : Bool × Walk :=
  if n.isCandidate then
    let attempt := n.classify p w.context
    match Site.ofAttempt? n attempt with
    | none => (false, { w with context := attempt.2 })
    | some site =>
      (true, ⟨attempt.2, w.excluded ++ [site.span], w.sites ++ [site]⟩)
  else (false, w)

end Walk

mutual

/-- Walks on through a tree. Nothing below a site is looked at, nor anything excluded. -/
def Rose.visit (p : Plan) (w : Walk) : Rose Node → Walk
  | .node n ts =>
    if w.excludes n.span then w
    else match w.tryNode p n with
      | (true, w) => w
      | (false, w) => Rose.visitAll p w ts

def Rose.visitAll (p : Plan) (w : Walk) : List (Rose Node) → Walk
  | [] => w
  | t :: ts => Rose.visitAll p (t.visit p w) ts

end

/-- The walk through a file whose types are known. -/
def Module.walk (p : Plan) (m : Module) : Walk := m.tree.visit p {}

/-- The sites of a file whose types are known. -/
def Module.sites (p : Plan) (m : Module) : List Site := (m.walk p).sites

end BuilderMigration
