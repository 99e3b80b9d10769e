import BuilderMigration.Proofs.Typing.Frames
import BuilderMigration.Tree.Node

/-! What the pass over a file comes to. The lexical rule lists the expressions of a file with what is in
view at each: a `let` behind itself to the end of its block, parameters in the body, and nothing of what
is around a function in it. Main statement: the pass visits each expression once, in source order, and
looks names up there as the rule has it. -/

namespace BuilderMigration

/-! ### The lexical rule -/

namespace Names

mutual

/-- An expression and those in it, each with the bindings in view there. -/
def seen (n : Names) (scope : Scope) : Expr → List (Scope × Expr)
  | .path span ty segments => [(scope, .path span ty segments)]
  | .lit span kind => [(scope, .lit span kind)]
  | .methodCall span ty receiver method args =>
    (scope, .methodCall span ty receiver method args) :: (n.seen scope receiver ++
      n.seenArgs scope (n.closureBuilder (n.expr scope receiver).ty? method) args)
  | .closure span params body captures =>
    (scope, .closure span params body captures) ::
      n.seen (scope.bindParams (n.closureParams none params)) body
  | .block b => n.seenBlock scope b
  | .macroCall span path delimiter args =>
    (scope, .macroCall span path delimiter args) :: n.seenAll scope args
  | .compound span ty kind parts => (scope, .compound span ty kind parts) :: n.seenAll scope parts

/-- Arguments of a method that gives closures a builder to configure. -/
def seenArgs (n : Names) (scope : Scope) (builder : Option String) :
    List Expr → List (Scope × Expr)
  | [] => []
  | .closure span params body captures :: es =>
    (scope, .closure span params body captures) ::
      (n.seen (scope.bindParams (n.closureParams builder params)) body ++
        n.seenArgs scope builder es)
  | e :: es => n.seen scope e ++ n.seenArgs scope builder es

def seenAll (n : Names) (scope : Scope) : List Expr → List (Scope × Expr)
  | [] => []
  | e :: es => n.seen scope e ++ n.seenAll scope es

/-- Behind its statements a block has the bindings of all of them in view. -/
def seenBlock (n : Names) (scope : Scope) : Block → List (Scope × Expr)
  | .mk span kind stmts tail =>
    (scope, .block (.mk span kind stmts tail)) :: (n.seenStmts scope stmts ++
      match tail with
      | none => []
      | some e => n.seen (n.stmts scope stmts).1 e)

/-- A `let` is in view behind itself only: neither in its value nor in its other branch. -/
def seenStmts (n : Names) (scope : Scope) : List Stmt → List (Scope × Expr)
  | [] => []
  | .letStmt _ pattern declared init otherwise :: ss =>
    (match init with | none => [] | some e => n.seen scope e) ++
      ((match otherwise with | none => [] | some b => n.seenBlock scope b) ++
        n.seenStmts (scope.bind pattern ((declared.map n.resolve).or
          ((init.map (n.expr scope)).bind (·.ty?)))) ss)
  | .semi _ e :: ss | .expr _ e :: ss => n.seen scope e ++ n.seenStmts scope ss
  | .item _ i :: ss => n.seenItem i ++ n.seenStmts scope ss

/-- The body of a function has its parameters in view and nothing of what is around the function. -/
def seenItem (n : Names) : Item → List (Scope × Expr)
  | .fn _ _ params body =>
    match body with
    | none => []
    | some b => n.seenBlock (Scope.bindParams [] (n.fnParams params)) b
  | .container _ _ items => n.seenItems items
  | .use .. | .other _ => []

def seenItems (n : Names) : List Item → List (Scope × Expr)
  | [] => []
  | i :: is => n.seenItem i ++ n.seenItems is

end

end Names

/-! ### Each expression once -/

def Node.expr? : Node → Option Expr
  | .expr e => some e
  | .stmt _ | .item _ | .module _ => none

theorem Rose.preorders_append {α : Type} (ts us : List (Rose α)) :
    preorders (ts ++ us) = preorders ts ++ preorders us := by
  induction ts with
  | nil => rfl
  | cons t ts ih => rw [List.cons_append, preorders, preorders, ih, List.append_assoc]

namespace Names

open Rose

mutual

theorem exprs_seen (n : Names) (scope : Scope) : ∀ e : Expr,
    (n.seen scope e).map Prod.snd = e.tree.preorder.filterMap Node.expr?
  | .path span ty segments => rfl
  | .lit span kind => rfl
  | .methodCall span ty receiver method args => by
    simp only [seen, Expr.tree, preorder, preorders, List.map_cons, List.map_append,
      List.filterMap_cons, List.filterMap_append, Node.expr?, n.exprs_seen scope receiver,
      n.exprs_seenArgs scope _ args]
  | .closure span params body captures => by
    simp only [seen, Expr.tree, preorder, preorders, List.map_cons, List.append_nil,
      List.filterMap_cons, Node.expr?, n.exprs_seen _ body]
  | .block b => by simp only [seen, Expr.tree, n.exprs_seenBlock scope b]
  | .macroCall span path delimiter args => by
    simp only [seen, Expr.tree, preorder, List.map_cons, List.filterMap_cons, Node.expr?,
      n.exprs_seenAll scope args]
  | .compound span ty kind parts => by
    simp only [seen, Expr.tree, preorder, List.map_cons, List.filterMap_cons, Node.expr?,
      n.exprs_seenAll scope parts]

theorem exprs_seenArgs (n : Names) (scope : Scope) (builder : Option String) : ∀ es : List Expr,
    (n.seenArgs scope builder es).map Prod.snd = (preorders (exprTrees es)).filterMap Node.expr?
  | [] => rfl
  | e :: es => by
    have he := n.exprs_seen scope e
    have hes := n.exprs_seenArgs scope builder es
    cases e with
    | closure span params body captures =>
      simp only [seenArgs, exprTrees, Expr.tree, preorder, preorders, List.map_cons, List.map_append,
        List.filterMap_cons, List.filterMap_append, List.append_nil, List.cons_append, Node.expr?,
        n.exprs_seen _ body, hes]
    | _ =>
      simp only [seenArgs, exprTrees, preorders, List.map_append, List.filterMap_append, he, hes]

theorem exprs_seenAll (n : Names) (scope : Scope) : ∀ es : List Expr,
    (n.seenAll scope es).map Prod.snd = (preorders (exprTrees es)).filterMap Node.expr?
  | [] => rfl
  | e :: es => by
    simp only [seenAll, exprTrees, preorders, List.map_append, List.filterMap_append,
      n.exprs_seen scope e, n.exprs_seenAll scope es]

theorem exprs_seenBlock (n : Names) (scope : Scope) : ∀ b : Block,
    (n.seenBlock scope b).map Prod.snd = b.tree.preorder.filterMap Node.expr?
  | .mk span kind stmts none => by
    simp only [seenBlock, Block.tree, preorder, List.map_cons, List.append_nil, List.filterMap_cons,
      Node.expr?, n.exprs_seenStmts scope stmts]
  | .mk span kind stmts (some e) => by
    simp only [seenBlock, Block.tree, preorder, preorders_append, preorders, List.map_cons,
      List.map_append, List.append_nil, List.filterMap_cons, List.filterMap_append, Node.expr?,
      n.exprs_seenStmts scope stmts, n.exprs_seen _ e]

theorem exprs_seenStmts (n : Names) (scope : Scope) : ∀ ss : List Stmt,
    (n.seenStmts scope ss).map Prod.snd = (preorders (stmtTrees ss)).filterMap Node.expr?
  | [] => rfl
  | .letStmt span pattern declared none none :: ss => by
    simp only [seenStmts, stmtTrees, Stmt.tree, preorder, preorders, List.nil_append,
      List.cons_append, List.filterMap_cons, Node.expr?, n.exprs_seenStmts _ ss]
  | .letStmt span pattern declared (some e) none :: ss => by
    simp only [seenStmts, stmtTrees, Stmt.tree, preorder, preorders, List.nil_append, List.append_nil,
      List.cons_append, List.map_append, List.filterMap_cons, List.filterMap_append, Node.expr?,
      n.exprs_seen scope e, n.exprs_seenStmts _ ss]
  | .letStmt span pattern declared none (some b) :: ss => by
    simp only [seenStmts, stmtTrees, Stmt.tree, preorder, preorders, List.nil_append, List.append_nil,
      List.cons_append, List.map_append, List.filterMap_cons, List.filterMap_append, Node.expr?,
      n.exprs_seenBlock scope b, n.exprs_seenStmts _ ss]
  | .letStmt span pattern declared (some e) (some b) :: ss => by
    simp only [seenStmts, stmtTrees, Stmt.tree, preorder, preorders, List.nil_append, List.append_nil,
      List.append_assoc, List.cons_append, List.map_append, List.filterMap_cons,
      List.filterMap_append, Node.expr?, n.exprs_seen scope e, n.exprs_seenBlock scope b,
      n.exprs_seenStmts _ ss]
  | .semi span e :: ss | .expr span e :: ss => by
    simp only [seenStmts, stmtTrees, Stmt.tree, preorder, preorders, List.append_nil,
      List.cons_append, List.map_append, List.filterMap_cons, List.filterMap_append, Node.expr?,
      n.exprs_seen scope e, n.exprs_seenStmts scope ss]
  | .item span i :: ss => by
    simp only [seenStmts, stmtTrees, Stmt.tree, preorder, preorders, List.append_nil,
      List.cons_append, List.map_append, List.filterMap_cons, List.filterMap_append, Node.expr?,
      n.exprs_seenItem i, n.exprs_seenStmts scope ss]

theorem exprs_seenItem (n : Names) : ∀ i : Item,
    (n.seenItem i).map Prod.snd = i.tree.preorder.filterMap Node.expr?
  | .fn span name params none => rfl
  | .fn span name params (some b) => by
    simp only [seenItem, Item.tree, preorder, preorders, List.append_nil, List.filterMap_cons,
      Node.expr?, n.exprs_seenBlock _ b]
  | .use span imports globs => rfl
  | .container span kind items => by
    simp only [seenItem, Item.tree, preorder, List.filterMap_cons, Node.expr?, n.exprs_seenItems items]
  | .other span => rfl

theorem exprs_seenItems (n : Names) : ∀ is : List Item,
    (n.seenItems is).map Prod.snd = (preorders (itemTrees is)).filterMap Node.expr?
  | [] => rfl
  | i :: is => by
    simp only [seenItems, itemTrees, preorders, List.map_append, List.filterMap_append,
      n.exprs_seenItem i, n.exprs_seenItems is]

end

end Names

/-! ### The pass keeps to the rule -/

namespace Pass

mutual

theorem visit_inScope (n : Names) (k : Nat) (scope : Scope) : ∀ e : Expr,
    InScope k scope (n.visit k e) (n.expr scope e) (n.seen scope e)
  | .path span ty [] => .noted (.pure k scope _)
  | .path span ty [name] => .noted (.bind_pure (.typeIn k scope name))
  | .path span ty (_ :: _ :: _) => .noted (.pure k scope _)
  | .lit span kind => .noted (.pure k scope _)
  | .methodCall span ty receiver method args => by
    refine .noted (.bind (visit_inScope n k scope receiver) (.bind_pure ?_))
    exact visitArgs_inScope n k scope _ args
  | .closure span params body captures => by
    refine .noted (.bind_pure (.within _ fun inner => ⟨_, .of_inScope ?_⟩))
    exact visit_inScope n inner _ body
  | .block b => .bind_pure (visitBlock_inScope n k scope b)
  | .macroCall span path delimiter args => .noted (.bind_pure (visitAll_inScope n k scope args))
  | .compound span ty kind parts => .noted (.bind_pure (visitAll_inScope n k scope parts))

theorem visitArgs_inScope (n : Names) (k : Nat) (scope : Scope) (builder : Option String) :
    ∀ es : List Expr, InScope k scope (n.visitArgs k builder es) (n.args scope builder es)
      (n.seenArgs scope builder es)
  | [] => .pure k scope []
  | e :: es => by
    have he := visit_inScope n k scope e
    have hes := visitArgs_inScope n k scope builder es
    cases e with
    | closure span params body captures =>
      refine .noted (.bind (.within _ fun inner => ⟨_, .of_inScope ?_⟩) (.bind_pure hes))
      exact visit_inScope n inner _ body
    | _ => exact .bind he (.bind_pure hes)

theorem visitAll_inScope (n : Names) (k : Nat) (scope : Scope) : ∀ es : List Expr,
    InScope k scope (n.visitAll k es) (n.exprs scope es) (n.seenAll scope es)
  | [] => .pure k scope []
  | e :: es => .bind (visit_inScope n k scope e) (.bind_pure (visitAll_inScope n k scope es))

theorem visitBlock_inScope (n : Names) (k : Nat) (scope : Scope) : ∀ b : Block,
    InScope k scope (n.visitBlock k b) (n.block scope b) (n.seenBlock scope b)
  | .mk span kind stmts none => by
    refine .noted (.within [] fun inner => ⟨(n.stmts scope stmts).1, ?_⟩)
    exact (visitStmts_binds n inner scope stmts).bind (.of_inScope (.bind_pure (.pure inner _ none)))
  | .mk span kind stmts (some e) => by
    refine .noted (.within [] fun inner => ⟨(n.stmts scope stmts).1, ?_⟩)
    have he := visit_inScope n inner (n.stmts scope stmts).1 e
    exact (visitStmts_binds n inner scope stmts).bind (.of_inScope (.bind_pure (.bind_pure he)))

theorem visitStmts_binds (n : Names) (k : Nat) (scope : Scope) : ∀ ss : List Stmt,
    Binds k scope (n.visitStmts k ss) (n.stmts scope ss).2 (n.stmts scope ss).1 (n.seenStmts scope ss)
  | [] => .of_inScope (.pure k scope [])
  | .letStmt span pattern declared none none :: ss =>
    .letIn pattern (.pure k scope none) (.pure k scope none) (visitStmts_binds n k _ ss)
  | .letStmt span pattern declared (some e) none :: ss =>
    .letIn pattern (.bind_pure (visit_inScope n k scope e)) (.pure k scope none)
      (visitStmts_binds n k _ ss)
  | .letStmt span pattern declared none (some b) :: ss =>
    .letIn pattern (.pure k scope none) (.bind_pure (visitBlock_inScope n k scope b))
      (visitStmts_binds n k _ ss)
  | .letStmt span pattern declared (some e) (some b) :: ss =>
    .letIn pattern (.bind_pure (visit_inScope n k scope e))
      (.bind_pure (visitBlock_inScope n k scope b)) (visitStmts_binds n k _ ss)
  | .semi span e :: ss | .expr span e :: ss =>
    .bind (.of_inScope (visit_inScope n k scope e)) (.bind_pure (visitStmts_binds n k scope ss))
  | .item span i :: ss => by
    have hi : InScope k scope (n.visitItem i) (n.item i) (n.seenItem i) :=
      fun s _ _ => visitItem_leaves n s i
    exact .bind (.of_inScope hi) (.bind_pure (visitStmts_binds n k scope ss))

theorem visitItem_leaves (n : Names) (s : Pass) : ∀ i : Item,
    s.Leaves (n.visitItem i) (n.item i) (n.seenItem i)
  | .fn span name params none => Does.pure _ s _
  | .fn span name params (some b) => by
    refine .bind_pure (.bind_pure (.within _ rfl fun inner => ⟨_, .of_inScope ?_⟩))
    exact visitBlock_inScope n inner _ b
  | .use span imports globs => Does.pure _ s _
  | .container span kind items => (visitItems_leaves n s items).bind_pure
  | .other span => Does.pure _ s _

theorem visitItems_leaves (n : Names) (s : Pass) : ∀ is : List Item,
    s.Leaves (n.visitItems is) (n.items is) (n.seenItems is)
  | [] => Does.pure _ s _
  | i :: is => (visitItem_leaves n s i).bind ((visitItems_leaves n _ is).bind_pure)

end

end Pass

/-- The pass that works out the types of a file visits each expression in it once, in source order, and
looks names up there as the lexical rule has it. It does so from any state: an expression changes no scope;
the statements of a block change none outside of the block, and leave in it what they bind; and an item
changes none and does not depend on any. -/
theorem Module.visited_lexically (settings : Settings) (m : Module) :
    let n := Names.ofModule settings m
    ((n.visitItems m.items {}).1 = (m.resolved settings).items ∧
      (n.visitItems m.items {}).2.visits.map Visit.expr = m.tree.preorder.filterMap Node.expr? ∧
      (n.visitItems m.items {}).2.visits.map Visit.looking =
        (n.seenItems m.items).map Scope.looking) ∧
    (∀ (s : Pass) (k : Nat) (e : Expr), k < s.frames.length →
      (∀ j < s.frames.length, (n.visit k e s).2.frames.lookup j = s.frames.lookup j) ∧
      (n.visit k e s).2.visits.map Visit.looking =
        s.visits.map Visit.looking ++ (n.seen (s.frames.view k) e).map Scope.looking) ∧
    (∀ (s : Pass) (k : Nat) (ss : List Stmt), k < s.frames.length →
      (∀ j < k, (n.visitStmts k ss s).2.frames.lookup j = s.frames.lookup j) ∧
      (n.visitStmts k ss s).2.frames.lookup k = (n.stmts (s.frames.view k) ss).1.typeOf ∧
      (n.visitStmts k ss s).2.visits.map Visit.looking =
        s.visits.map Visit.looking ++ (n.seenStmts (s.frames.view k) ss).map Scope.looking) ∧
    ∀ (s : Pass) (i : Item),
      (∀ j < s.frames.length, (n.visitItem i s).2.frames.lookup j = s.frames.lookup j) ∧
      (n.visitItem i s).2.visits.map Visit.looking =
        s.visits.map Visit.looking ++ (n.seenItem i).map Scope.looking := by
  intro n
  refine ⟨?_, fun s k e hk => ?_, fun s k ss hk => ?_, fun s i => ?_⟩
  · have hrun := Pass.visitItems_leaves n {} m.items
    have hseen : (n.visitItems m.items {}).2.visits.map Visit.seen = n.seenItems m.items :=
      hrun.visits_eq
    refine ⟨hrun.value, ?_, hrun.lookings_eq⟩
    calc (n.visitItems m.items {}).2.visits.map Visit.expr
        = ((n.visitItems m.items {}).2.visits.map Visit.seen).map Prod.snd := by rw [List.map_map]; rfl
      _ = m.tree.preorder.filterMap Node.expr? := by rw [hseen]; exact n.exprs_seenItems m.items
  · have hrun := Pass.visit_inScope n k _ e s hk rfl
    exact ⟨fun _ => hrun.lookup_eq, hrun.lookings_eq⟩
  · obtain ⟨hrun, hview⟩ := Pass.visitStmts_binds n k _ ss s hk rfl
    refine ⟨fun _ => hrun.lookup_eq, ?_, hrun.lookings_eq⟩
    funext name
    rw [Frames.lookup_eq, hview]
  · have hrun := Pass.visitItem_leaves n s i
    exact ⟨fun _ => hrun.lookup_eq, hrun.lookings_eq⟩

end BuilderMigration
