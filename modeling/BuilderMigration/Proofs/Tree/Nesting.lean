import BuilderMigration.Proofs.Tree.Laminar

/-! Layout in terms of nodes: what the nesting of trees says of a node and the nodes directly below
it. -/

namespace BuilderMigration

/-- The children of a node lie within it, each behind those before it. -/
structure Node.Nests (n : Node) : Prop where
  within : ∀ c ∈ n.children, n.span.contains c.span = true
  inOrder : n.children.Pairwise fun a b => a.span.hi ≤ b.span.lo

theorem Node.tree_eq (n : Node) : n.tree = .node n (n.children.map Node.tree) := by
  have hexprs (es : List Expr) : exprTrees es = (es.map Node.expr).map Node.tree := by
    rw [exprTrees_eq_map, List.map_map]
    rfl
  have hstmts (ss : List Stmt) : stmtTrees ss = (ss.map Node.stmt).map Node.tree := by
    induction ss with
    | nil => rfl
    | cons s ss ih => rw [stmtTrees, ih]; rfl
  have hitems (is : List Item) : itemTrees is = (is.map Node.item).map Node.tree := by
    induction is with
    | nil => rfl
    | cons i is ih => rw [itemTrees, ih]; rfl
  have hblocks (o : Option Block) : o.toList.map Block.tree =
      (o.toList.map fun b => Node.expr (.block b)).map Node.tree := by
    cases o <;> rfl
  have hblock (b : Block) :
      b.tree = .node (.expr (.block b)) ((children (.expr (.block b))).map Node.tree) := by
    obtain ⟨span, kind, stmts, tail⟩ := b
    rw [Block.tree_mk, hstmts, hexprs, ← List.map_append]
    rfl
  cases n with
  | expr e =>
    cases e with
    | path span ty segments => rfl
    | lit span kind => rfl
    | methodCall span ty receiver method args =>
      change Rose.node _ (receiver.tree :: exprTrees args) = _
      rw [hexprs]
      rfl
    | closure span params body captures => rfl
    | block b => exact hblock b
    | macroCall span path delimiter args => exact congrArg (Rose.node _) (hexprs args)
    | compound span ty kind parts => exact congrArg (Rose.node _) (hexprs parts)
  | stmt s =>
    cases s with
    | letStmt span pattern declared init otherwise =>
      change (Stmt.letStmt ..).tree = _
      rw [Stmt.tree_letStmt, hexprs, hblocks, ← List.map_append]
      rfl
    | semi span e => rfl
    | expr span e => rfl
    | item span i => rfl
  | item i =>
    cases i with
    | fn span name params body =>
      change (Item.fn ..).tree = _
      rw [Item.tree_fn, hblocks]
      rfl
    | «use» span imports globs => rfl
    | container span kind items => exact congrArg (Rose.node _) (hitems items)
    | other span => rfl
  | module m => exact congrArg (Rose.node _) (hitems m.items)

theorem Module.children_trees (m : Module) :
    (Node.module m).children.map Node.tree = itemTrees m.items :=
  (Rose.node.inj (Node.tree_eq (.module m))).2.symm

@[simp] theorem Node.tree_span (n : Node) : n.tree.span = n.span := by
  rw [n.tree_eq]
  rfl

variable {ts : List Token} {lo hi : Int}

/-- Nodes whose trees are laid out between two positions lie there, one behind the other. -/
theorem Laid.nodes {ns : List Node} (h : Laid ts lo (ns.map Node.tree) hi) :
    (∀ n ∈ ns, lo ≤ n.span.lo ∧ n.span.hi ≤ hi) ∧
      ns.Pairwise fun a b => a.span.hi ≤ b.span.lo := by
  induction ns generalizing lo with
  | nil => exact ⟨nofun, .nil⟩
  | cons n ns ih =>
    obtain ⟨h₁, h₂, h₃⟩ := Laid.cons_iff.1 h
    obtain ⟨hin, hord⟩ := ih h₃
    have hlt := h₂.proper.lt
    have hle := h₃.le
    rw [n.tree_span] at h₁ hin hlt hle
    refine ⟨fun m hm => ?_, List.pairwise_cons.2 ⟨fun m hm => (hin m hm).1, hord⟩⟩
    rcases List.mem_cons.1 hm with rfl | hm
    · exact ⟨h₁, hle⟩
    · have := hin m hm
      omega

/-- A node nests if the trees of its children are laid out within it. -/
theorem Node.Nests.of_laid {n : Node}
    (h : Laid ts n.span.lo (n.children.map Node.tree) n.span.hi) : n.Nests := by
  obtain ⟨hin, hord⟩ := h.nodes
  refine ⟨fun c hc => ?_, hord⟩
  simpa [Span.contains] using hin c hc

/-! ### Nodes below nodes -/

theorem Rose.mem_preorders {α : Type} {a : α} {ts : List (Rose α)} :
    a ∈ Rose.preorders ts ↔ ∃ t ∈ ts, a ∈ t.preorder := by
  induction ts with
  | nil => simp [Rose.preorders]
  | cons t ts ih => simp [Rose.preorders, ih]

theorem Node.mem_preorder {n m : Node} :
    n ∈ m.tree.preorder ↔ n = m ∨ ∃ c ∈ m.children, n ∈ c.tree.preorder := by
  rw [m.tree_eq, Rose.preorder, List.mem_cons, Rose.mem_preorders]
  refine or_congr_right ⟨?_, ?_⟩
  · rintro ⟨t, ht, hn⟩
    obtain ⟨c, hc, rfl⟩ := List.mem_map.1 ht
    exact ⟨c, hc, hn⟩
  · rintro ⟨c, hc, hn⟩
    exact ⟨_, List.mem_map_of_mem hc, hn⟩

theorem Node.mem_preorder_self (m : Node) : m ∈ m.tree.preorder := Node.mem_preorder.2 (.inl rfl)

/-- What stands below a child stands below the node. -/
theorem Node.mem_preorder_of_child {n c m : Node} (hc : c ∈ m.children) (h : n ∈ c.tree.preorder) :
    n ∈ m.tree.preorder :=
  Node.mem_preorder.2 (.inr ⟨c, hc, h⟩)

mutual

theorem Rose.forall_preorder {P : Node → Prop} (hstep : ∀ x c, P x → c ∈ x.children → P c) :
    ∀ {t : Rose Node} {x : Node}, x.tree = t → P x → ∀ y ∈ t.preorder, P y
  | .node a kids, x, hx, h, y, hy => by
    rw [x.tree_eq, Rose.node.injEq] at hx
    obtain ⟨rfl, hkids⟩ := hx
    rw [Rose.preorder] at hy
    rcases List.mem_cons.1 hy with rfl | hy
    · exact h
    · exact Rose.forall_preorders hstep hkids (fun c hc => hstep x c h hc) y hy

theorem Rose.forall_preorders {P : Node → Prop} (hstep : ∀ x c, P x → c ∈ x.children → P c) :
    ∀ {trees : List (Rose Node)} {xs : List Node}, xs.map Node.tree = trees → (∀ x ∈ xs, P x) →
      ∀ y ∈ Rose.preorders trees, P y
  | [], _, _, _, _, hy => nomatch hy
  | t :: trees, [], hx, _, _, _ => nomatch hx
  | t :: trees, x :: xs, hx, h, y, hy => by
    rw [List.map_cons, List.cons.injEq] at hx
    rw [List.forall_mem_cons] at h
    rw [Rose.preorders] at hy
    rcases List.mem_append.1 hy with hy | hy
    · exact Rose.forall_preorder hstep hx.1 h.1 y hy
    · exact Rose.forall_preorders hstep hx.2 h.2 y hy

end

/-- What passes from a node to its children holds everywhere below it. -/
theorem Node.forall_preorder {P : Node → Prop} (hstep : ∀ x c, P x → c ∈ x.children → P c) {x : Node}
    (h : P x) : ∀ y ∈ x.tree.preorder, P y :=
  Rose.forall_preorder hstep rfl h

theorem Node.mem_preorder_trans {x y z : Node} (hy : y ∈ x.tree.preorder) (hz : z ∈ y.tree.preorder) :
    z ∈ x.tree.preorder := by
  have hbelow := Node.forall_preorder (P := fun n => ∀ z ∈ n.tree.preorder, z ∈ x.tree.preorder)
    (fun n c hn hc z hz => hn z (Node.mem_preorder_of_child hc hz)) (fun _ hz => hz)
  exact hbelow y hy z hz

theorem Laid.laminar_of_mem {trees : List (Rose Node)} (h : Laid ts lo trees hi) :
    ∀ t ∈ trees, t.Laminar ts := by
  induction trees generalizing lo with
  | nil => exact nofun
  | cons t trees ih =>
    obtain ⟨-, ht, htrees⟩ := Laid.cons_iff.1 h
    exact List.forall_mem_cons.2 ⟨ht, ih htrees⟩

theorem Node.laminar_of_child {x c : Node} (h : x.tree.Laminar ts) (hc : c ∈ x.children) :
    c.tree.Laminar ts := by
  rw [x.tree_eq, Rose.Laminar] at h
  exact h.2.laminar_of_mem _ (List.mem_map_of_mem hc)

theorem Rose.Laminar.self_nests {x : Node} (h : x.tree.Laminar ts) : x.span.Proper ts ∧ x.Nests := by
  rw [x.tree_eq, Rose.Laminar] at h
  exact ⟨h.1, .of_laid h.2⟩

/-- Every node of a tree that is laid out has a tree that is laid out. -/
theorem Rose.Laminar.below {x : Node} (h : x.tree.Laminar ts) :
    ∀ y ∈ x.tree.preorder, y.tree.Laminar ts :=
  Node.forall_preorder (fun _ _ => Node.laminar_of_child) h

theorem Laid.below {trees : List (Rose Node)} {xs : List Node} (hx : xs.map Node.tree = trees)
    (h : Laid ts lo trees hi) : ∀ y ∈ Rose.preorders trees, y.tree.Laminar ts := by
  subst hx
  exact Rose.forall_preorders (fun _ _ => Node.laminar_of_child) rfl
    (List.forall_mem_map.1 h.laminar_of_mem)

/-- In a tree that is laid out every node stands for text, and nests. -/
theorem Rose.Laminar.nests {t : Rose Node} {x : Node} (hx : x.tree = t) (h : t.Laminar ts) :
    ∀ y ∈ t.preorder, y.span.Proper ts ∧ y.Nests := by
  subst hx
  exact fun y hy => (h.below y hy).self_nests

theorem Laid.nests {trees : List (Rose Node)} {xs : List Node} (hx : xs.map Node.tree = trees)
    (h : Laid ts lo trees hi) : ∀ y ∈ Rose.preorders trees, y.span.Proper ts ∧ y.Nests :=
  fun y hy => (h.below hx y hy).self_nests

mutual

/-- All nodes of a tree that is laid out stand within its root. -/
theorem Rose.Laminar.inside : ∀ {t : Rose Node}, t.Laminar ts →
    ∀ n ∈ t.preorder, n.span.Proper ts ∧ t.span.lo ≤ n.span.lo ∧ n.span.hi ≤ t.span.hi
  | .node a kids, h, n, hn => by
    rw [Rose.Laminar] at h
    rw [Rose.preorder] at hn
    rcases List.mem_cons.1 hn with rfl | hn
    · exact ⟨h.1, Int.le_refl _, Int.le_refl _⟩
    · exact Laid.inside h.2 n hn

theorem Laid.inside {lo hi : Int} : ∀ {trees : List (Rose Node)}, Laid ts lo trees hi →
    ∀ n ∈ Rose.preorders trees, n.span.Proper ts ∧ lo ≤ n.span.lo ∧ n.span.hi ≤ hi
  | [], _, _, hn => nomatch hn
  | t :: trees, h, n, hn => by
    obtain ⟨h₁, h₂, h₃⟩ := Laid.cons_iff.1 h
    have hlt := h₂.proper.lt
    have hle := h₃.le
    rw [Rose.preorders] at hn
    rcases List.mem_append.1 hn with hn | hn
    · obtain ⟨hp, hlo, hhi⟩ := Rose.Laminar.inside h₂ n hn
      exact ⟨hp, by omega, by omega⟩
    · obtain ⟨hp, hlo, hhi⟩ := Laid.inside h₃ n hn
      exact ⟨hp, by omega, hhi⟩

end

end BuilderMigration
