import BuilderMigration.Proofs.Origin.Reading

/-! Working out types leaves the tokens that nodes are read from as they are: it keeps all spans and
names. -/

namespace BuilderMigration

variable {ts : List Token} {trees more : List (Rose Node)} {es es' : List Expr} {ss ss' : List Stmt}

/-! ### Spans of lists -/

theorem Rose.map_span_congr (h : allSpans trees = allSpans more) :
    trees.map Rose.span = more.map Rose.span := by
  induction trees generalizing more with
  | nil =>
    cases more with
    | nil => rfl
    | cons u more => simp [allSpans] at h
  | cons t trees ih =>
    cases more with
    | nil => simp [allSpans] at h
    | cons u more =>
      rw [allSpans, allSpans, List.cons.injEq] at h
      rw [List.map_cons, List.map_cons, span_eq h.1, ih h.2]

theorem map_span_exprs (h : Rose.allSpans (exprTrees es) = Rose.allSpans (exprTrees es')) :
    es.map Expr.span = es'.map Expr.span := by
  have hspans := Rose.map_span_congr h
  simp only [exprTrees_eq_map, List.map_map] at hspans
  rwa [show Rose.span ∘ Expr.tree = Expr.span from funext Expr.tree_span] at hspans

theorem stmtTrees_eq_map (ss : List Stmt) : stmtTrees ss = ss.map Stmt.tree := by
  induction ss with
  | nil => rfl
  | cons s ss ih => rw [stmtTrees, ih, List.map_cons]

theorem map_span_stmts (h : Rose.allSpans (stmtTrees ss) = Rose.allSpans (stmtTrees ss')) :
    ss.map Stmt.span = ss'.map Stmt.span := by
  have hspans := Rose.map_span_congr h
  simp only [stmtTrees_eq_map, List.map_map] at hspans
  rwa [show Rose.span ∘ Stmt.tree = Stmt.span from funext Stmt.tree_span] at hspans

namespace Names

theorem span_expr (n : Names) (scope : Scope) (e : Expr) : (n.expr scope e).span = e.span := by
  rw [← Expr.tree_span, ← Expr.tree_span e, Rose.span_eq (n.spans_expr scope e)]

/-! ### Trees -/

mutual

theorem sourced_expr (n : Names) (scope : Scope) :
    ∀ e : Expr, e.tree.Sourced ts → (n.expr scope e).tree.Sourced ts
  | .path _ _ [], _ => Rose.sourced_node.2 ⟨trivial, nofun⟩
  | .path _ _ [_], _ => Rose.sourced_node.2 ⟨trivial, nofun⟩
  | .path _ _ (_ :: _ :: _), _ => Rose.sourced_node.2 ⟨trivial, nofun⟩
  | .lit _ _, h => h
  | .methodCall span ty receiver method args, h => by
    obtain ⟨hs, hk⟩ := Rose.sourced_node.1 h
    obtain ⟨hreceiver, hargs⟩ := List.forall_mem_cons.1 hk
    refine Rose.sourced_node.2 ⟨?_, List.forall_mem_cons.2
      ⟨n.sourced_expr scope receiver hreceiver, n.sourced_args scope _ args hargs⟩⟩
    rw [Node.Sourced, n.span_expr, map_span_exprs (n.spans_args scope _ args)]
    exact hs
  | .closure _ _ body _, h =>
    Rose.sourced_node.2 ⟨trivial, List.forall_mem_singleton.2 (n.sourced_expr _ body
      (List.forall_mem_singleton.1 (Rose.sourced_node.1 h).2))⟩
  | .block b, h => n.sourced_block scope b h
  | .macroCall _ _ _ args, h =>
    Rose.sourced_node.2 ⟨trivial, n.sourced_exprs scope args (Rose.sourced_node.1 h).2⟩
  | .compound _ _ _ parts, h =>
    Rose.sourced_node.2 ⟨trivial, n.sourced_exprs scope parts (Rose.sourced_node.1 h).2⟩

theorem sourced_args (n : Names) (scope : Scope) (builder : Option String) :
    ∀ es : List Expr, AllSourced ts (exprTrees es) → AllSourced ts (exprTrees (n.args scope builder es))
  | [], h => h
  | e :: es, h => by
    obtain ⟨he, hes⟩ := List.forall_mem_cons.1 h
    have hrest := n.sourced_args scope builder es hes
    have hexpr := n.sourced_expr scope e he
    cases e with
    | closure span params body captures =>
      have hbody := List.forall_mem_singleton.1 (Rose.sourced_node.1 he).2
      exact List.forall_mem_cons.2 ⟨Rose.sourced_node.2 ⟨trivial,
        List.forall_mem_singleton.2 (n.sourced_expr _ body hbody)⟩, hrest⟩
    | _ => exact List.forall_mem_cons.2 ⟨hexpr, hrest⟩

theorem sourced_exprs (n : Names) (scope : Scope) :
    ∀ es : List Expr, AllSourced ts (exprTrees es) → AllSourced ts (exprTrees (n.exprs scope es))
  | [], h => h
  | e :: es, h => by
    obtain ⟨he, hes⟩ := List.forall_mem_cons.1 h
    exact List.forall_mem_cons.2 ⟨n.sourced_expr scope e he, n.sourced_exprs scope es hes⟩

theorem sourced_block (n : Names) (scope : Scope) :
    ∀ b : Block, b.tree.Sourced ts → (n.block scope b).tree.Sourced ts
  | .mk span kind stmts tail, h => by
    rw [Block.tree_mk, Rose.sourced_node, List.forall_mem_append] at h
    obtain ⟨⟨pieces, hs⟩, hstmts, htail⟩ := h
    rw [block, Block.tree_mk, Rose.sourced_node, List.forall_mem_append]
    refine ⟨⟨pieces, ?_⟩, n.sourced_stmts scope stmts hstmts, ?_⟩
    · rw [Block.StandsIn, map_span_stmts (n.spans_stmts scope stmts)]
      exact hs
    · cases tail with
      | none => exact nofun
      | some e =>
        exact List.forall_mem_singleton.2 (n.sourced_expr _ e (List.forall_mem_singleton.1 htail))

theorem sourced_stmts (n : Names) (scope : Scope) :
    ∀ ss : List Stmt, AllSourced ts (stmtTrees ss) → AllSourced ts (stmtTrees (n.stmts scope ss).2)
  | [], h => h
  | .letStmt _ _ _ none none :: ss, h =>
    List.forall_mem_cons.2 ⟨Rose.sourced_node.2 ⟨trivial, nofun⟩,
      n.sourced_stmts _ ss (List.forall_mem_cons.1 h).2⟩
  | .letStmt _ _ _ (some e) none :: ss, h => by
    obtain ⟨hs, hss⟩ := List.forall_mem_cons.1 h
    have he := List.forall_mem_singleton.1 (Rose.sourced_node.1 hs).2
    exact List.forall_mem_cons.2 ⟨Rose.sourced_node.2
      ⟨trivial, List.forall_mem_singleton.2 (n.sourced_expr scope e he)⟩, n.sourced_stmts _ ss hss⟩
  | .letStmt _ _ _ none (some b) :: ss, h => by
    obtain ⟨hs, hss⟩ := List.forall_mem_cons.1 h
    have hb := List.forall_mem_singleton.1 (Rose.sourced_node.1 hs).2
    exact List.forall_mem_cons.2 ⟨Rose.sourced_node.2
      ⟨trivial, List.forall_mem_singleton.2 (n.sourced_block scope b hb)⟩, n.sourced_stmts _ ss hss⟩
  | .letStmt _ _ _ (some e) (some b) :: ss, h => by
    obtain ⟨hs, hss⟩ := List.forall_mem_cons.1 h
    obtain ⟨he, hb⟩ := List.forall_mem_cons.1 (Rose.sourced_node.1 hs).2
    exact List.forall_mem_cons.2 ⟨Rose.sourced_node.2 ⟨trivial, List.forall_mem_cons.2
      ⟨n.sourced_expr scope e he,
        List.forall_mem_singleton.2 (n.sourced_block scope b (List.forall_mem_singleton.1 hb))⟩⟩,
      n.sourced_stmts _ ss hss⟩
  | .semi span e :: ss, h => by
    obtain ⟨hs, hss⟩ := List.forall_mem_cons.1 h
    have he := List.forall_mem_singleton.1 (Rose.sourced_node.1 hs).2
    exact List.forall_mem_cons.2 ⟨Rose.sourced_node.2
      ⟨trivial, List.forall_mem_singleton.2 (n.sourced_expr scope e he)⟩, n.sourced_stmts scope ss hss⟩
  | .expr span e :: ss, h => by
    obtain ⟨hs, hss⟩ := List.forall_mem_cons.1 h
    have he := List.forall_mem_singleton.1 (Rose.sourced_node.1 hs).2
    exact List.forall_mem_cons.2 ⟨Rose.sourced_node.2
      ⟨trivial, List.forall_mem_singleton.2 (n.sourced_expr scope e he)⟩, n.sourced_stmts scope ss hss⟩
  | .item span i :: ss, h => by
    obtain ⟨hs, hss⟩ := List.forall_mem_cons.1 h
    have hi := List.forall_mem_singleton.1 (Rose.sourced_node.1 hs).2
    exact List.forall_mem_cons.2 ⟨Rose.sourced_node.2
      ⟨trivial, List.forall_mem_singleton.2 (n.sourced_item i hi)⟩, n.sourced_stmts scope ss hss⟩

theorem sourced_item (n : Names) : ∀ i : Item, i.tree.Sourced ts → (n.item i).tree.Sourced ts
  | .fn _ _ _ none, _ => Rose.sourced_node.2 ⟨trivial, nofun⟩
  | .fn _ _ _ (some body), h =>
    Rose.sourced_node.2 ⟨trivial, List.forall_mem_singleton.2 (n.sourced_block _ body
      (List.forall_mem_singleton.1 (Rose.sourced_node.1 h).2))⟩
  | .use _ _ _, h => h
  | .container _ _ items, h =>
    Rose.sourced_node.2 ⟨trivial, n.sourced_items items (Rose.sourced_node.1 h).2⟩
  | .other _, h => h

theorem sourced_items (n : Names) :
    ∀ is : List Item, AllSourced ts (itemTrees is) → AllSourced ts (itemTrees (n.items is))
  | [], h => h
  | i :: is, h => by
    obtain ⟨hi, his⟩ := List.forall_mem_cons.1 h
    exact List.forall_mem_cons.2 ⟨n.sourced_item i hi, n.sourced_items is his⟩

end

end Names

/-- The nodes of a file with its types known are read from their tokens, too. -/
theorem Module.resolved_sourced (settings : Settings) {m : Module} (h : m.tree.Sourced ts) :
    (m.resolved settings).tree.Sourced ts :=
  Rose.sourced_node.2 ⟨trivial, Names.sourced_items _ m.items (Rose.sourced_node.1 h).2⟩

end BuilderMigration
