import BuilderMigration.Proofs.Shift.Tree
import BuilderMigration.Typing.Resolve

/-! Working out types in a tree that stands elsewhere: types depend on names and shapes only, so the
typed tree is the typed one of the tree before, moved. -/

namespace BuilderMigration

variable {k : Int}

@[simp] theorem Scope.bind_shift (scope : Scope) (p : Pattern) (ty : Option Ty) :
    scope.bind (p.shift k) ty = scope.bind p ty := by
  cases p <;> rfl

@[simp] theorem Scope.bindParams_shift (scope : Scope) (params : List Param) :
    scope.bindParams (params.map (·.shift k)) = scope.bindParams params := by
  simp only [bindParams, List.foldl_map, Param.shift, bind_shift]

namespace Names

theorem fnParams_shift (n : Names) (params : List Param) :
    n.fnParams (params.map (·.shift k)) = (n.fnParams params).map (·.shift k) := by
  simp only [fnParams, List.map_map]
  rfl

theorem closureParams_shift (n : Names) (builder : Option String) (params : List Param) :
    n.closureParams builder (params.map (·.shift k)) =
      (n.closureParams builder params).map (·.shift k) := by
  match params with
  | [] => rfl
  | [p] =>
    obtain ⟨span, pattern, declared, ty⟩ := p
    cases declared <;> cases builder <;> rfl
  | p :: q :: rest =>
    simp only [closureParams, List.map_map, List.map_cons, List.cons.injEq, List.map_inj_left,
      Function.comp_apply]
    refine ⟨?_, ?_, fun r _ => ?_⟩
    · obtain ⟨span, pattern, declared, ty⟩ := p
      cases declared <;> cases builder <;> rfl
    · obtain ⟨span, pattern, declared, ty⟩ := q
      cases declared <;> cases builder <;> rfl
    · obtain ⟨span, pattern, declared, ty⟩ := r
      cases declared <;> cases builder <;> rfl

theorem compoundType_shift (kind : CompoundKind) (parts : List Expr) :
    compoundType kind (shiftExprs k parts) = compoundType kind parts := by
  cases parts with
  | nil => rfl
  | cons e es => simp only [compoundType, shiftExprs, Expr.ty?_shift]

mutual

theorem expr_shift (n : Names) (scope : Scope) :
    ∀ e : Expr, n.expr scope (e.shift k) = (n.expr scope e).shift k
  | .path span ty [] => rfl
  | .path span ty [name] => rfl
  | .path span ty (_ :: _ :: _) => rfl
  | .lit span kind => rfl
  | .methodCall span ty receiver method args => by
    simp only [expr, Expr.shift, n.expr_shift scope receiver, Expr.ty?_shift,
      n.args_shift scope _ args]
  | .closure span params body captures => by
    simp only [expr, Expr.shift, n.closureParams_shift, Scope.bindParams_shift,
      n.expr_shift _ body]
  | .block b => by simp only [expr, Expr.shift, n.block_shift scope b]
  | .macroCall span path delimiter args => by
    simp only [expr, Expr.shift, n.exprs_shift scope args]
  | .compound span ty kind parts => by
    simp only [expr, Expr.shift, n.exprs_shift scope parts, compoundType_shift]

theorem args_shift (n : Names) (scope : Scope) (builder : Option String) :
    ∀ es : List Expr, n.args scope builder (shiftExprs k es) = shiftExprs k (n.args scope builder es)
  | [] => rfl
  | e :: es => by
    have he := n.expr_shift scope e
    cases e with
    | closure span params body captures =>
      simp only [args, shiftExprs, Expr.shift, n.closureParams_shift, Scope.bindParams_shift,
        n.expr_shift _ body, n.args_shift scope builder es]
    | _ =>
      simp only [Expr.shift] at he
      simp only [args, shiftExprs, Expr.shift, he, n.args_shift scope builder es]

theorem exprs_shift (n : Names) (scope : Scope) :
    ∀ es : List Expr, n.exprs scope (shiftExprs k es) = shiftExprs k (n.exprs scope es)
  | [] => rfl
  | e :: es => by
    simp only [exprs, shiftExprs, n.expr_shift scope e, n.exprs_shift scope es]

theorem block_shift (n : Names) (scope : Scope) :
    ∀ b : Block, n.block scope (b.shift k) = (n.block scope b).shift k
  | .mk span kind stmts none => by
    simp only [block, Block.shift, n.stmts_shift scope stmts]
  | .mk span kind stmts (some e) => by
    simp only [block, Block.shift, n.stmts_shift scope stmts, n.expr_shift _ e]

theorem stmts_shift (n : Names) (scope : Scope) : ∀ ss : List Stmt,
    n.stmts scope (shiftStmts k ss) = ((n.stmts scope ss).1, shiftStmts k (n.stmts scope ss).2)
  | [] => rfl
  | .letStmt span pattern declared none none :: ss => by
    simp only [stmts, shiftStmts, Stmt.shift, Scope.bind_shift, n.stmts_shift _ ss]
  | .letStmt span pattern declared none (some b) :: ss => by
    simp only [stmts, shiftStmts, Stmt.shift, Scope.bind_shift, n.stmts_shift _ ss,
      n.block_shift scope b]
  | .letStmt span pattern declared (some e) none :: ss => by
    simp only [stmts, shiftStmts, Stmt.shift, Scope.bind_shift, n.stmts_shift _ ss,
      n.expr_shift scope e, Option.bind_some, Expr.ty?_shift]
  | .letStmt span pattern declared (some e) (some b) :: ss => by
    simp only [stmts, shiftStmts, Stmt.shift, Scope.bind_shift, n.stmts_shift _ ss,
      n.expr_shift scope e, n.block_shift scope b, Option.bind_some, Expr.ty?_shift]
  | .semi span e :: ss => by
    simp only [stmts, shiftStmts, Stmt.shift, n.stmts_shift _ ss, n.expr_shift scope e]
  | .expr span e :: ss => by
    simp only [stmts, shiftStmts, Stmt.shift, n.stmts_shift _ ss, n.expr_shift scope e]
  | .item span i :: ss => by
    simp only [stmts, shiftStmts, Stmt.shift, n.stmts_shift _ ss, n.item_shift i]

theorem item_shift (n : Names) : ∀ i : Item, n.item (i.shift k) = (n.item i).shift k
  | .fn span name params none => by simp only [item, Item.shift, n.fnParams_shift]
  | .fn span name params (some b) => by
    simp only [item, Item.shift, n.fnParams_shift, Scope.bindParams_shift, n.block_shift _ b]
  | .use .. => rfl
  | .container span kind items => by simp only [item, Item.shift, n.items_shift items]
  | .other .. => rfl

theorem items_shift (n : Names) :
    ∀ is : List Item, n.items (shiftItems k is) = shiftItems k (n.items is)
  | [] => rfl
  | i :: is => by simp only [items, shiftItems, n.item_shift i, n.items_shift is]

end

/-- A file knows the same of names wherever it stands. -/
theorem ofModule_shift (settings : Settings) (m : Module) :
    ofModule settings (m.shift k) = ofModule settings m := by
  have himports (n : Node) : importsOf (n.shift k) = importsOf n := by
    cases n with
    | item i => cases i <;> rfl
    | _ => rfl
  have hglobs (n : Node) : globsOf (n.shift k) = globsOf n := by
    cases n with
    | item i => cases i <;> rfl
    | _ => rfl
  simp only [ofModule, Module.tree_shift, Rose.preorder_shift, List.flatMap_map, himports, hglobs]

end Names

theorem Module.resolved_shift (settings : Settings) (m : Module) :
    (m.shift k).resolved settings = (m.resolved settings).shift k := by
  simp only [resolved, Names.ofModule_shift]
  simp only [shift, Names.items_shift]

end BuilderMigration
