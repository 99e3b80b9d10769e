import BuilderMigration.Grammar.Items
import BuilderMigration.Token.Scan

/-! The grammar as a whole, and the reading of files and of single expressions. A production calls
another nonterminal only behind a token that it has read, save where a mark that begins no
attribute stands before an expression; so a grammar one level deeper than the number of tokens
is exhausted only where reading never ends. -/

namespace BuilderMigration

/-- One round of productions over the grammar below it. -/
def Grammar.above (g : Grammar) : Grammar where
  ty := g.typeOf
  useTree := g.useTreeOf
  expr := g.exprOf
  operand := g.operandOf
  unary := g.unaryOf
  primary := g.primaryOf
  statementExpr := g.statementExprOf
  conditional := g.conditionalOf
  block := g.blockOf
  item := g.itemOf

/-- The grammar with a bounded depth of productions. -/
def Grammar.ofDepth : Nat → Grammar
  | 0 => .exhausted
  | depth + 1 => (ofDepth depth).above

/-- The grammar for a number of tokens. -/
def Grammar.forTokens (ts : List Token) : Grammar := .ofDepth (ts.length + 1)

/-- The items of a list of tokens. -/
def readItems (ts : List Token) : Except Failure (List Item) :=
  (·.1) <$> Grammar.items (Grammar.forTokens ts).item false ⟨ts, 0⟩

/-- The expression that a list of tokens makes, with no token left over. -/
def readExprTokens (ts : List Token) : Except Failure Expr :=
  (·.1) <$> (do
    let e ← (Grammar.forTokens ts).expr false
    match ← Parse.look 0 with
    | none => return e
    | some t => Parse.rejectAt t (.unexpectedToken t.value) : Parse Expr) ⟨ts, 0⟩

/-- The tokens of a text, all of them. -/
def tokensOf (code : String) (start : Int) : Except Failure (List Token) :=
  let scan := tokenize code start
  match scan.fault with
  | none => .ok scan.tokens
  | some e => .error (.rejected e)

/-- Reads a file whose first character stands at position `start`. -/
def readModule (code : String) (start : Int) (file : String) : Except Failure Module := do
  let items ← readItems (← tokensOf code start)
  return ⟨⟨start, start + code.length, 0⟩, items, file⟩

/-- Reads a text as one expression. -/
def readExpr (code : String) (start : Int) : Except Failure Expr := do
  readExprTokens (← tokensOf code start)

end BuilderMigration
