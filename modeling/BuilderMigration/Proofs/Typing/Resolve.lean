import BuilderMigration.Proofs.Tree.Laminar
import BuilderMigration.Typing.Resolve

/-! Working out types moves nothing: the tree keeps its shape and its spans. Whether a tree is laid out in
source order is a matter of its spans alone. -/

namespace BuilderMigration

/-! ### The spans of a tree -/

mutual

/-- The spans of a tree. -/
def Rose.spans : Rose Node → Rose Span
  | .node n kids => .node n.span (Rose.allSpans kids)

def Rose.allSpans : List (Rose Node) → List (Rose Span)
  | [] => []
  | t :: trees => t.spans :: Rose.allSpans trees

end

namespace Rose

theorem allSpans_append (trees more : List (Rose Node)) :
    allSpans (trees ++ more) = allSpans trees ++ allSpans more := by
  induction trees with
  | nil => rfl
  | cons t trees ih => rw [List.cons_append, allSpans, ih, allSpans, List.cons_append]

theorem span_eq {t u : Rose Node} (h : t.spans = u.spans) : t.span = u.span := by
  cases t with
  | node n kids =>
    cases u with
    | node m more =>
      simp only [spans, node.injEq] at h
      exact h.1

end Rose

variable {ts : List Token}

mutual

theorem Rose.Laminar.congr : ∀ {t u : Rose Node}, t.spans = u.spans → t.Laminar ts → u.Laminar ts
  | .node n kids, .node m more, h, hl => by
    rw [Rose.spans, Rose.spans, Rose.node.injEq] at h
    rw [Rose.Laminar] at hl ⊢
    exact ⟨h.1 ▸ hl.1, Laid.congr h.2 (h.1 ▸ hl.2)⟩

theorem Laid.congr {lo hi : Int} : ∀ {trees more : List (Rose Node)},
    Rose.allSpans trees = Rose.allSpans more → Laid ts lo trees hi → Laid ts lo more hi
  | [], [], _, hl => by
    rw [Laid] at hl ⊢
    exact hl
  | t :: trees, u :: more, h, hl => by
    rw [Rose.allSpans, Rose.allSpans, List.cons.injEq] at h
    rw [Laid] at hl ⊢
    have hs := Rose.span_eq h.1
    exact ⟨hs ▸ hl.1, hl.2.1.congr h.1, hs ▸ Laid.congr h.2 hl.2.2⟩
  | [], _ :: _, h, _ => by simp [Rose.allSpans] at h
  | _ :: _, [], h, _ => by simp [Rose.allSpans] at h

end

/-! ### Trees with types -/

namespace Names

open Rose

mutual

theorem spans_expr (n : Names) (scope : Scope) : ∀ e : Expr, (n.expr scope e).tree.spans = e.tree.spans
  | .path span ty [] => rfl
  | .path span ty [name] => rfl
  | .path span ty (_ :: _ :: _) => rfl
  | .lit span kind => rfl
  | .methodCall span ty receiver method args => by
    simp only [expr, Expr.tree, spans, allSpans, Node.span, Expr.span, n.spans_expr scope receiver,
      n.spans_args scope _ args]
  | .closure span params body captures => by
    simp only [expr, Expr.tree, spans, allSpans, Node.span, Expr.span, n.spans_expr _ body]
  | .block b => by simp only [expr, Expr.tree, n.spans_block scope b]
  | .macroCall span path delimiter args => by
    simp only [expr, Expr.tree, spans, Node.span, Expr.span, n.spans_exprs scope args]
  | .compound span ty kind parts => by
    simp only [expr, Expr.tree, spans, Node.span, Expr.span, n.spans_exprs scope parts]

theorem spans_args (n : Names) (scope : Scope) (builder : Option String) :
    ∀ es : List Expr, allSpans (exprTrees (n.args scope builder es)) = allSpans (exprTrees es)
  | [] => rfl
  | e :: es => by
    have he := n.spans_expr scope e
    cases e with
    | closure span params body captures =>
      simp only [args, exprTrees, Expr.tree, allSpans, spans, Node.span, Expr.span,
        n.spans_expr _ body, n.spans_args scope builder es]
    | _ => simp only [args, exprTrees, allSpans, he, n.spans_args scope builder es]

theorem spans_exprs (n : Names) (scope : Scope) :
    ∀ es : List Expr, allSpans (exprTrees (n.exprs scope es)) = allSpans (exprTrees es)
  | [] => rfl
  | e :: es => by
    simp only [exprs, exprTrees, allSpans, n.spans_expr scope e, n.spans_exprs scope es]

theorem spans_block (n : Names) (scope : Scope) :
    ∀ b : Block, (n.block scope b).tree.spans = b.tree.spans
  | .mk span kind stmts none => by
    simp only [block, Block.tree, spans, Node.span, Expr.span, Block.span, n.spans_stmts scope stmts]
  | .mk span kind stmts (some e) => by
    simp only [block, Block.tree, spans, Node.span, Expr.span, Block.span, allSpans_append, allSpans,
      n.spans_stmts scope stmts, n.spans_expr _ e]

theorem spans_stmts (n : Names) (scope : Scope) :
    ∀ ss : List Stmt, allSpans (stmtTrees (n.stmts scope ss).2) = allSpans (stmtTrees ss)
  | [] => rfl
  | .letStmt span pattern declared none none :: ss => by
    simp only [stmts, stmtTrees, Stmt.tree, allSpans, allSpans_append, spans, Node.span, Stmt.span,
      n.spans_stmts _ ss]
  | .letStmt span pattern declared (some e) none :: ss => by
    simp only [stmts, stmtTrees, Stmt.tree, allSpans, allSpans_append, spans, Node.span, Stmt.span,
      n.spans_expr scope e, n.spans_stmts _ ss]
  | .letStmt span pattern declared none (some b) :: ss => by
    simp only [stmts, stmtTrees, Stmt.tree, allSpans, allSpans_append, spans, Node.span, Stmt.span,
      n.spans_block scope b, n.spans_stmts _ ss]
  | .letStmt span pattern declared (some e) (some b) :: ss => by
    simp only [stmts, stmtTrees, Stmt.tree, allSpans, allSpans_append, spans, Node.span, Stmt.span,
      n.spans_expr scope e, n.spans_block scope b, n.spans_stmts _ ss]
  | .semi span e :: ss => by
    simp only [stmts, stmtTrees, Stmt.tree, allSpans, spans, Node.span, Stmt.span,
      n.spans_expr scope e, n.spans_stmts scope ss]
  | .expr span e :: ss => by
    simp only [stmts, stmtTrees, Stmt.tree, allSpans, spans, Node.span, Stmt.span,
      n.spans_expr scope e, n.spans_stmts scope ss]
  | .item span i :: ss => by
    simp only [stmts, stmtTrees, Stmt.tree, allSpans, spans, Node.span, Stmt.span, n.spans_item i,
      n.spans_stmts scope ss]

theorem spans_item (n : Names) : ∀ i : Item, (n.item i).tree.spans = i.tree.spans
  | .fn span name params none => by simp only [item, Item.tree, spans, Node.span, Item.span]
  | .fn span name params (some body) => by
    simp only [item, Item.tree, spans, Node.span, Item.span, allSpans, n.spans_block _ body]
  | .use span imports globs => rfl
  | .container span kind items => by
    simp only [item, Item.tree, spans, Node.span, Item.span, n.spans_items items]
  | .other span => rfl

theorem spans_items (n : Names) :
    ∀ is : List Item, allSpans (itemTrees (n.items is)) = allSpans (itemTrees is)
  | [] => rfl
  | i :: is => by
    simp only [items, itemTrees, allSpans, n.spans_item i, n.spans_items is]

end

end Names

variable {lo hi : Int}

theorem Module.resolved_spans (settings : Settings) (m : Module) :
    Rose.allSpans (itemTrees (m.resolved settings).items) = Rose.allSpans (itemTrees m.items) :=
  Names.spans_items _ m.items

theorem Module.resolved_laid (settings : Settings) {m : Module} (h : Laid ts lo (itemTrees m.items) hi) :
    Laid ts lo (itemTrees (m.resolved settings).items) hi :=
  h.congr (m.resolved_spans settings).symm

end BuilderMigration
