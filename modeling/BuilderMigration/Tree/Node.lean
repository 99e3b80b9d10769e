import BuilderMigration.Tree.Basic

/-! A tree of any kind as a tree of nodes. Parameters and patterns are not nodes. -/

namespace BuilderMigration

/-- An ordered tree. -/
inductive Rose (α : Type) where
  | node (value : α) (children : List (Rose α))

namespace Rose

variable {α β : Type}

def value : Rose α → α
  | node a _ => a

def children : Rose α → List (Rose α)
  | node _ ts => ts

mutual

/-- A value before those below it. -/
def preorder : Rose α → List α
  | node a ts => a :: preorders ts

def preorders : List (Rose α) → List α
  | [] => []
  | t :: ts => t.preorder ++ preorders ts

end

end Rose

/-- A node of a source tree. -/
inductive Node where
  | expr (e : Expr)
  | stmt (s : Stmt)
  | item (i : Item)
  | module (m : Module)

namespace Node

def span : Node → Span
  | expr e => e.span
  | stmt s => s.span
  | item i => i.span
  | module m => m.span

/-- The nodes directly below a node, in source order. -/
def children : Node → List Node
  | expr (.methodCall _ _ receiver _ args) => expr receiver :: args.map expr
  | expr (.closure _ _ body _) => [expr body]
  | expr (.block (.mk _ _ stmts tail)) => stmts.map stmt ++ tail.toList.map expr
  | expr (.macroCall _ _ _ args) => args.map expr
  | expr (.compound _ _ _ parts) => parts.map expr
  | expr (.path ..) | expr (.lit ..) => []
  | stmt (.letStmt _ _ _ init otherwise) =>
    init.toList.map expr ++ otherwise.toList.map (fun b => expr (.block b))
  | stmt (.semi _ e) | stmt (.expr _ e) => [expr e]
  | stmt (.item _ i) => [item i]
  | item (.fn _ _ _ body) => body.toList.map (fun b => expr (.block b))
  | item (.container _ _ items) => items.map item
  | item (.use ..) | item (.other ..) => []
  | module m => m.items.map item

end Node

/-! ### The tree below a node -/

mutual

def Expr.tree : Expr → Rose Node
  | .path span ty segments => .node (.expr (.path span ty segments)) []
  | .lit span kind => .node (.expr (.lit span kind)) []
  | .methodCall span ty receiver method args =>
    .node (.expr (.methodCall span ty receiver method args)) (receiver.tree :: exprTrees args)
  | .closure span params body captures =>
    .node (.expr (.closure span params body captures)) [body.tree]
  | .block b => b.tree
  | .macroCall span path delimiter args =>
    .node (.expr (.macroCall span path delimiter args)) (exprTrees args)
  | .compound span ty kind parts =>
    .node (.expr (.compound span ty kind parts)) (exprTrees parts)

def Block.tree : Block → Rose Node
  | .mk span kind stmts none =>
    .node (.expr (.block (.mk span kind stmts none))) (stmtTrees stmts)
  | .mk span kind stmts (some tail) =>
    .node (.expr (.block (.mk span kind stmts (some tail)))) (stmtTrees stmts ++ [tail.tree])

def Stmt.tree : Stmt → Rose Node
  | .letStmt span pattern declared init otherwise =>
    .node (.stmt (.letStmt span pattern declared init otherwise))
      ((match init with | none => [] | some e => [e.tree])
        ++ (match otherwise with | none => [] | some b => [b.tree]))
  | .semi span e => .node (.stmt (.semi span e)) [e.tree]
  | .expr span e => .node (.stmt (.expr span e)) [e.tree]
  | .item span i => .node (.stmt (.item span i)) [i.tree]

def Item.tree : Item → Rose Node
  | .fn span name params none => .node (.item (.fn span name params none)) []
  | .fn span name params (some body) =>
    .node (.item (.fn span name params (some body))) [body.tree]
  | .use span imports globs => .node (.item (.use span imports globs)) []
  | .container span kind items => .node (.item (.container span kind items)) (itemTrees items)
  | .other span => .node (.item (.other span)) []

def exprTrees : List Expr → List (Rose Node)
  | [] => []
  | e :: es => e.tree :: exprTrees es

def stmtTrees : List Stmt → List (Rose Node)
  | [] => []
  | s :: ss => s.tree :: stmtTrees ss

def itemTrees : List Item → List (Rose Node)
  | [] => []
  | i :: is => i.tree :: itemTrees is

end

/-- The tree of a file. -/
def Module.tree (m : Module) : Rose Node := .node (.module m) (itemTrees m.items)

/-- The tree below any node. -/
def Node.tree : Node → Rose Node
  | expr e => e.tree
  | stmt s => s.tree
  | item i => i.tree
  | module m => m.tree

end BuilderMigration
