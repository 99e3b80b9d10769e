import BuilderMigration.Grammar.Group
import BuilderMigration.Tree.Basic

/-! The nonterminals that productions call on each other. Each production is a plain function of
the grammar one level deeper; the grammar of the files, which ties the knot, comes last. -/

namespace BuilderMigration

/-- What one `use` declaration brings in, name by name. -/
inductive UseLeaf where
  | named (i : Import)
  | glob (path : List String)
  deriving DecidableEq

/-- The nonterminals. In an expression with `bare = true` no brace opens a struct literal. -/
structure Grammar where
  ty : Parse Ty
  useTree : List String → Parse (List UseLeaf)
  expr : (bare : Bool) → Parse Expr
  operand : (strength : Nat) → (bare : Bool) → Parse Expr
  unary : (bare : Bool) → Parse Expr
  primary : (bare : Bool) → Parse Expr
  statementExpr : Parse Expr
  conditional : Parse Expr
  block : BlockKind → Option Int → Parse Block
  item : Parse Item

/-- The grammar in which every nonterminal fails as endless. -/
def Grammar.exhausted : Grammar where
  ty := throw .endless
  useTree _ := throw .endless
  expr _ := throw .endless
  operand _ _ := throw .endless
  unary _ := throw .endless
  primary _ := throw .endless
  statementExpr := throw .endless
  conditional := throw .endless
  block _ _ := throw .endless
  item := throw .endless

end BuilderMigration
