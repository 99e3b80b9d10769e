import BuilderMigration.Grammar.Expressions

/-! Productions of statements and blocks. -/

namespace BuilderMigration.Grammar

open Parse

/-- Whether the next tokens begin an expression that may end a statement by itself. -/
def startsBlockLike : Parse Bool := do
  match ← look 0 with
  | none => return false
  | some t =>
    if t.isPunct "\x7b" || t.kind = .lifetime then return true
    if t.kind ≠ .ident then return false
    if ["if", "match", "loop", "while", "for"].contains t.value then return true
    if t.value = "unsafe" || t.value = "const" then looksAt 1 "\x7b"
    else if t.value = "async" then
      if ← looksAt 1 "\x7b" then return true
      return (← looksAt 1 "move") && (← looksAt 2 "\x7b")
    else return false

/-- An expression in the place of a statement: one like a block ends there, unless a member
access or a question mark follows. -/
def statementExprOf (g : Grammar) : Parse Expr := do
  if ← startsBlockLike then
    let e ← primaryOf g false
    if ← looksAtOneOf 0 [".", "?"] then exprFrom g (← suffixes g e)
    else return e
  else exprOf g false

def itemKeywords : List String :=
  ["fn", "use", "struct", "enum", "impl", "trait", "mod", "type", "extern", "pub"]

/-- Whether the next tokens begin an item. -/
def startsItem : Parse Bool := do
  match ← look 0 with
  | none => return false
  | some t =>
    if t.kind ≠ .ident then return false
    if itemKeywords.contains t.value then return true
    if t.value = "const" || t.value = "static" then
      return (← looksAtKind 1 .ident) && !(← looksAt 1 "move")
    if t.value = "unsafe" || t.value = "async" then
      looksAtOneOf 1 ["fn", "impl", "trait", "unsafe", "extern"]
    else if t.value = "macro_rules" then looksAt 1 "!"
    else return false

/-- A `let` with what it may have: a type, a value and a block for when the pattern fails. -/
def letStmt (g : Grammar) : Parse Stmt := do
  let start ← expect "let"
  let p ← pattern [":", "=", ";"]
  let ty ← declaredType g
  let (init, otherwise) ←
    if ← accept "=" then
      let e ← g.expr false
      if ← accept "else" then pure (some e, some (← g.block .plain none))
      else pure (some e, none)
    else pure (none, none)
  let _ ← expect ";"
  return .letStmt (← spanFrom start.lo) p ty init otherwise

/-- An expression as a statement or as the value of the block. Behind it there has to be a token:
that the text ends here is not noticed in time. -/
def exprStmt (g : Grammar) : Parse (Turn Stmt (Option Expr)) := do
  let lo := ((← look 0).map (·.lo)).getD 0
  let e ← statementExprOf g
  if ← accept ";" then return .one (.semi (← spanFrom lo) e)
  if ← nextIs "\x7d" then return .stop (some e)
  if e.isBlockLike then return .one (.expr e.span e)
  match ← look 0 with
  | none => throw .cutStatement
  | some t => rejectAt t (.expected "';' or '\x7d'" t.value)

/-- One turn of a block: a statement, an empty one, or the end with the value of the block. -/
def blockTurn (g : Grammar) : Parse (Turn Stmt (Option Expr)) := do
  if ← nextIs "\x7d" then return .stop none
  if (← look 0).isNone then rejectEnd (.awaiting "'\x7d'")
  else if ← accept ";" then return .skip
  else
    skipAttributes
    if ← nextIs "\x7d" then return .stop none
    if ← nextIs "let" then return .one (← letStmt g)
    if ← startsItem then
      let i ← g.item
      return .one (.item i.span i)
    exprStmt g

/-- A block in braces; with the keywords before it, it begins at `lo`. -/
def blockOf (g : Grammar) (kind : BlockKind) (lo : Option Int) : Parse Block := do
  let brace ← expect "\x7b"
  skipAttributes
  let (stmts, tail) ← collect (blockTurn g)
  let _ ← expect "\x7d"
  return .mk (← spanFrom (lo.getD brace.lo)) kind stmts tail

end BuilderMigration.Grammar
