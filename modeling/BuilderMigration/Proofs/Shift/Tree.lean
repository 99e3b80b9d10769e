import BuilderMigration.Proofs.Tree.Laminar

/-! Tokens and trees that stand elsewhere: every position in them is moved by one constant, also
those of parameters and patterns. What is written at the nodes stays as it is. -/

namespace BuilderMigration

/-- The span of the same text `k` positions further on. -/
def Span.shift (k : Int) (s : Span) : Span := ⟨s.lo + k, s.hi + k, s.ctxt⟩

def Token.shift (k : Int) (t : Token) : Token := { t with lo := t.lo + k, hi := t.hi + k }

def Pattern.shift (k : Int) : Pattern → Pattern
  | .binding span name mutable => .binding (span.shift k) name mutable
  | .other span => .other (span.shift k)

def Param.shift (k : Int) (p : Param) : Param :=
  { p with span := p.span.shift k, pattern := p.pattern.shift k }

mutual

def Expr.shift (k : Int) : Expr → Expr
  | .path span ty segments => .path (span.shift k) ty segments
  | .lit span kind => .lit (span.shift k) kind
  | .methodCall span ty receiver method args =>
    .methodCall (span.shift k) ty (receiver.shift k) method (shiftExprs k args)
  | .closure span params body captures =>
    .closure (span.shift k) (params.map (·.shift k)) (body.shift k) captures
  | .block b => .block (b.shift k)
  | .macroCall span path delimiter args =>
    .macroCall (span.shift k) path delimiter (shiftExprs k args)
  | .compound span ty kind parts => .compound (span.shift k) ty kind (shiftExprs k parts)

def Block.shift (k : Int) : Block → Block
  | .mk span kind stmts tail =>
    .mk (span.shift k) kind (shiftStmts k stmts)
      (match tail with | none => none | some e => some (e.shift k))

def Stmt.shift (k : Int) : Stmt → Stmt
  | .letStmt span pattern declared init otherwise =>
    .letStmt (span.shift k) (pattern.shift k) declared
      (match init with | none => none | some e => some (e.shift k))
      (match otherwise with | none => none | some b => some (b.shift k))
  | .semi span e => .semi (span.shift k) (e.shift k)
  | .expr span e => .expr (span.shift k) (e.shift k)
  | .item span i => .item (span.shift k) (i.shift k)

def Item.shift (k : Int) : Item → Item
  | .fn span name params body =>
    .fn (span.shift k) name (params.map (·.shift k))
      (match body with | none => none | some b => some (b.shift k))
  | .use span imports globs => .use (span.shift k) imports globs
  | .container span kind items => .container (span.shift k) kind (shiftItems k items)
  | .other span => .other (span.shift k)

def shiftExprs (k : Int) : List Expr → List Expr
  | [] => []
  | e :: es => e.shift k :: shiftExprs k es

def shiftStmts (k : Int) : List Stmt → List Stmt
  | [] => []
  | s :: ss => s.shift k :: shiftStmts k ss

def shiftItems (k : Int) : List Item → List Item
  | [] => []
  | i :: is => i.shift k :: shiftItems k is

end

/-- A file elsewhere. -/
def Module.shift (k : Int) (m : Module) : Module :=
  { m with span := m.span.shift k, items := shiftItems k m.items }

/-- A node elsewhere. -/
def Node.shift (k : Int) : Node → Node
  | expr e => expr (e.shift k)
  | stmt s => stmt (s.shift k)
  | item i => item (i.shift k)
  | module m => module (m.shift k)

mutual

def Rose.shift (k : Int) : Rose Node → Rose Node
  | .node n kids => .node (n.shift k) (shiftTrees k kids)

def shiftTrees (k : Int) : List (Rose Node) → List (Rose Node)
  | [] => []
  | t :: trees => t.shift k :: shiftTrees k trees

end

variable {k : Int} {s t : Span}

/-! ### Spans -/

theorem Span.contains_shift : (s.shift k).contains (t.shift k) = s.contains t := by
  simp [contains, shift]

/-! ### Trees of lists -/

theorem shiftExprs_eq_map (es : List Expr) : shiftExprs k es = es.map (·.shift k) := by
  induction es with
  | nil => rfl
  | cons e es ih => rw [shiftExprs, ih, List.map_cons]

theorem shiftStmts_eq_map (ss : List Stmt) : shiftStmts k ss = ss.map (·.shift k) := by
  induction ss with
  | nil => rfl
  | cons s ss ih => rw [shiftStmts, ih, List.map_cons]

theorem shiftItems_eq_map (is : List Item) : shiftItems k is = is.map (·.shift k) := by
  induction is with
  | nil => rfl
  | cons i is ih => rw [shiftItems, ih, List.map_cons]

theorem shiftTrees_eq_map (trees : List (Rose Node)) :
    shiftTrees k trees = trees.map (·.shift k) := by
  induction trees with
  | nil => rfl
  | cons t trees ih => rw [shiftTrees, ih, List.map_cons]

/-! ### What a shifted node is -/

@[simp] theorem Block.span_shift (b : Block) : (b.shift k).span = b.span.shift k := by
  cases b with
  | mk span kind stmts tail => rfl

@[simp] theorem Expr.span_shift (e : Expr) : (e.shift k).span = e.span.shift k := by
  cases e with
  | block b => exact b.span_shift
  | _ => rfl

@[simp] theorem Stmt.span_shift (s : Stmt) : (s.shift k).span = s.span.shift k := by
  cases s <;> rfl

@[simp] theorem Item.span_shift (i : Item) : (i.shift k).span = i.span.shift k := by
  cases i <;> rfl

@[simp] theorem Node.span_shift (n : Node) : (n.shift k).span = n.span.shift k := by
  cases n with
  | expr e => exact e.span_shift
  | stmt s => exact s.span_shift
  | item i => exact i.span_shift
  | module m => rfl

@[simp] theorem Rose.span_shift (t : Rose Node) : (t.shift k).span = t.span.shift k := by
  cases t with
  | node n kids => exact n.span_shift

@[simp] theorem Expr.ty?_shift (e : Expr) : (e.shift k).ty? = e.ty? := by
  cases e <;> rfl

@[simp] theorem Expr.name?_shift (e : Expr) : (e.shift k).name? = e.name? := by
  cases e with
  | path span ty segments => match segments with | [] | [_] | _ :: _ :: _ => rfl
  | _ => rfl

@[simp] theorem Expr.segments?_shift (e : Expr) : (e.shift k).segments? = e.segments? := by
  cases e <;> rfl

/-! ### The tree of a shifted node -/

mutual

theorem Expr.tree_shift (k : Int) : ∀ e : Expr, (e.shift k).tree = e.tree.shift k
  | .path .. => rfl
  | .lit .. => rfl
  | .methodCall span ty receiver method args => by
    simp only [Expr.shift, Expr.tree, Rose.shift, Node.shift, shiftTrees, receiver.tree_shift k,
      exprTrees_shift k args]
  | .closure span params body captures => by
    simp only [Expr.shift, Expr.tree, Rose.shift, Node.shift, shiftTrees, body.tree_shift k]
  | .block b => by simp only [Expr.shift, Expr.tree, b.tree_shift k]
  | .macroCall span path delimiter args => by
    simp only [Expr.shift, Expr.tree, Rose.shift, Node.shift, exprTrees_shift k args]
  | .compound span ty kind parts => by
    simp only [Expr.shift, Expr.tree, Rose.shift, Node.shift, exprTrees_shift k parts]

theorem Block.tree_shift (k : Int) : ∀ b : Block, (b.shift k).tree = b.tree.shift k
  | .mk span kind stmts none => by
    simp only [Block.shift, Block.tree, Rose.shift, Node.shift, Expr.shift, stmtTrees_shift k stmts]
  | .mk span kind stmts (some e) => by
    simp only [Block.shift, Block.tree, Rose.shift, Node.shift, Expr.shift, stmtTrees_shift k stmts,
      e.tree_shift k, shiftTrees_eq_map, List.map_append, List.map_cons, List.map_nil]

theorem Stmt.tree_shift (k : Int) : ∀ s : Stmt, (s.shift k).tree = s.tree.shift k
  | .letStmt span pattern declared none none => rfl
  | .letStmt span pattern declared none (some b) => by
    simp only [Stmt.shift, Stmt.tree, Rose.shift, Node.shift, shiftTrees, List.nil_append, b.tree_shift k]
  | .letStmt span pattern declared (some e) none => by
    simp only [Stmt.shift, Stmt.tree, Rose.shift, Node.shift, shiftTrees, List.append_nil, e.tree_shift k]
  | .letStmt span pattern declared (some e) (some b) => by
    simp only [Stmt.shift, Stmt.tree, Rose.shift, Node.shift, shiftTrees, List.singleton_append,
      e.tree_shift k, b.tree_shift k]
  | .semi span e => by simp only [Stmt.shift, Stmt.tree, Rose.shift, Node.shift, shiftTrees, e.tree_shift k]
  | .expr span e => by simp only [Stmt.shift, Stmt.tree, Rose.shift, Node.shift, shiftTrees, e.tree_shift k]
  | .item span i => by simp only [Stmt.shift, Stmt.tree, Rose.shift, Node.shift, shiftTrees, i.tree_shift k]

theorem Item.tree_shift (k : Int) : ∀ i : Item, (i.shift k).tree = i.tree.shift k
  | .fn span name params none => rfl
  | .fn span name params (some b) => by
    simp only [Item.shift, Item.tree, Rose.shift, Node.shift, shiftTrees, b.tree_shift k]
  | .use .. => rfl
  | .container span kind items => by
    simp only [Item.shift, Item.tree, Rose.shift, Node.shift, itemTrees_shift k items]
  | .other .. => rfl

theorem exprTrees_shift (k : Int) :
    ∀ es : List Expr, exprTrees (shiftExprs k es) = shiftTrees k (exprTrees es)
  | [] => rfl
  | e :: es => by
    simp only [shiftExprs, exprTrees, shiftTrees, e.tree_shift k, exprTrees_shift k es]

theorem stmtTrees_shift (k : Int) :
    ∀ ss : List Stmt, stmtTrees (shiftStmts k ss) = shiftTrees k (stmtTrees ss)
  | [] => rfl
  | s :: ss => by
    simp only [shiftStmts, stmtTrees, shiftTrees, s.tree_shift k, stmtTrees_shift k ss]

theorem itemTrees_shift (k : Int) :
    ∀ is : List Item, itemTrees (shiftItems k is) = shiftTrees k (itemTrees is)
  | [] => rfl
  | i :: is => by
    simp only [shiftItems, itemTrees, shiftTrees, i.tree_shift k, itemTrees_shift k is]

end

theorem Module.tree_shift (k : Int) (m : Module) : (m.shift k).tree = m.tree.shift k := by
  simp only [tree, shift, Rose.shift, Node.shift, itemTrees_shift]

mutual

theorem Rose.preorder_shift (k : Int) :
    ∀ t : Rose Node, (t.shift k).preorder = t.preorder.map (·.shift k)
  | .node n kids => by simp only [shift, preorder, List.map_cons, preorders_shift k kids]

theorem Rose.preorders_shift (k : Int) : ∀ trees : List (Rose Node),
    Rose.preorders (shiftTrees k trees) = (Rose.preorders trees).map (·.shift k)
  | [] => rfl
  | t :: trees => by
    simp only [shiftTrees, preorders, List.map_append, t.preorder_shift k, preorders_shift k trees]

end

/-! ### Layout -/

theorem Span.Proper.shift {ts : List Token} (h : s.Proper ts) (k : Int) :
    (s.shift k).Proper (ts.map (·.shift k)) := by
  obtain ⟨t, ht, hlo⟩ := h.exists_lo
  obtain ⟨u, hu, hhi⟩ := h.exists_hi
  have hlt := h.lt
  refine ⟨h.written, ?_, ⟨t.shift k, List.mem_map_of_mem ht, ?_⟩, u.shift k, List.mem_map_of_mem hu, ?_⟩
  · simpa [Span.shift] using hlt
  · simp [Token.shift, Span.shift, hlo]
  · simp [Token.shift, Span.shift, hhi]

mutual

theorem Rose.Laminar.shift {ts : List Token} (k : Int) : ∀ {t : Rose Node}, t.Laminar ts →
    (t.shift k).Laminar (ts.map (·.shift k))
  | .node n kids, h => by
    rw [Rose.Laminar] at h
    rw [Rose.shift, Rose.Laminar, Node.span_shift]
    exact ⟨h.1.shift k, h.2.shift k⟩

theorem Laid.shift {ts : List Token} (k : Int) {lo hi : Int} : ∀ {trees : List (Rose Node)},
    Laid ts lo trees hi → Laid (ts.map (·.shift k)) (lo + k) (shiftTrees k trees) (hi + k)
  | [], h => by
    rw [Laid] at h
    rw [shiftTrees, Laid]
    omega
  | t :: trees, h => by
    rw [Laid] at h
    obtain ⟨h₁, h₂, h₃⟩ := h
    rw [shiftTrees, Laid, Rose.span_shift]
    exact ⟨by simpa [Span.shift] using h₁, h₂.shift k, h₃.shift k⟩

end

end BuilderMigration
