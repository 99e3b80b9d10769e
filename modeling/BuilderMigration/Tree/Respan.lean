import BuilderMigration.Tree.Basic

/-! Trees whose nodes stand elsewhere: as after a macro expansion, every node keeps its shape and
gets the span that a function gives for its old one. Parameters and patterns keep theirs. -/

namespace BuilderMigration

mutual

def Expr.mapSpans (f : Span → Span) : Expr → Expr
  | .path span ty segments => .path (f span) ty segments
  | .lit span kind => .lit (f span) kind
  | .methodCall span ty receiver method args =>
    .methodCall (f span) ty (receiver.mapSpans f) method (mapExprSpans f args)
  | .closure span params body captures => .closure (f span) params (body.mapSpans f) captures
  | .block b => .block (b.mapSpans f)
  | .macroCall span path delimiter args =>
    .macroCall (f span) path delimiter (mapExprSpans f args)
  | .compound span ty kind parts => .compound (f span) ty kind (mapExprSpans f parts)

def Block.mapSpans (f : Span → Span) : Block → Block
  | .mk span kind stmts tail =>
    .mk (f span) kind (mapStmtSpans f stmts)
      (match tail with | none => none | some e => some (e.mapSpans f))

def Stmt.mapSpans (f : Span → Span) : Stmt → Stmt
  | .letStmt span pattern declared init otherwise =>
    .letStmt (f span) pattern declared
      (match init with | none => none | some e => some (e.mapSpans f))
      (match otherwise with | none => none | some b => some (b.mapSpans f))
  | .semi span e => .semi (f span) (e.mapSpans f)
  | .expr span e => .expr (f span) (e.mapSpans f)
  | .item span i => .item (f span) (i.mapSpans f)

def Item.mapSpans (f : Span → Span) : Item → Item
  | .fn span name params body =>
    .fn (f span) name params (match body with | none => none | some b => some (b.mapSpans f))
  | .use span imports globs => .use (f span) imports globs
  | .container span kind items => .container (f span) kind (mapItemSpans f items)
  | .other span => .other (f span)

def mapExprSpans (f : Span → Span) : List Expr → List Expr
  | [] => []
  | e :: es => e.mapSpans f :: mapExprSpans f es

def mapStmtSpans (f : Span → Span) : List Stmt → List Stmt
  | [] => []
  | s :: ss => s.mapSpans f :: mapStmtSpans f ss

def mapItemSpans (f : Span → Span) : List Item → List Item
  | [] => []
  | i :: is => i.mapSpans f :: mapItemSpans f is

end

/-- A file with other spans. -/
def Module.mapSpans (f : Span → Span) (m : Module) : Module :=
  { m with span := f m.span, items := mapItemSpans f m.items }

end BuilderMigration
