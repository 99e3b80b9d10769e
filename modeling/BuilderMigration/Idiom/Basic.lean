import BuilderMigration.Source.Span

/-! Recognised builders: closures that configure a builder, their chains of calls and their
arguments. -/

namespace BuilderMigration

/-- A call with its arguments. -/
structure Call (α : Type) where
  field : String
  args : List α

/-- Calls on a name, leftmost first, with the builder that the name is known to be. -/
structure Chain (α : Type) where
  receiver : String
  builder : Option String
  calls : List (Call α)

/-- A statement of a closure: a chain on the closure's own binding, or any other. -/
inductive Prelude (α : Type) where
  | verbatim (span : Span)
  | assignment (chain : Chain α) (span : Span)

/-- A closure that configures `builder` under the name `binding`: statements, and the chain that it
ends in, perhaps of no calls. -/
structure Closure (α : Type) where
  builder : String
  binding : String
  stmts : List (Prelude α)
  chain : Chain α
  span : Span

/-- An argument: source text, with the segments of a path that it is, or a builder closure. -/
inductive Arg where
  | literal (span : Span) (path : Option (List String))
  | closure (c : Closure Arg)

abbrev BuilderCall := Call Arg
abbrev BuilderChain := Chain Arg
abbrev BuilderPrelude := Prelude Arg
abbrev BuilderClosure := Closure Arg

/-- Where a statement stands. -/
def Prelude.span {α : Type} : Prelude α → Span
  | verbatim span => span
  | assignment _ span => span

/-- The first call of a name. -/
def Chain.find? {α : Type} (c : Chain α) (field : String) : Option (Call α) :=
  c.calls.find? (·.field = field)

end BuilderMigration
