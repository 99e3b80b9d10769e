import BuilderMigration.Proofs.Token.Order
import BuilderMigration.Tree.Node

/-! Trees laid out in source order: every node has text of its own, from the start of a token to
the end of one, its children lie within it, and of two children the later one lies behind. -/

namespace BuilderMigration

namespace Rose

/-- Where the text of a tree stands. -/
def span (t : Rose Node) : Span := t.value.span

end Rose

/-- Text that a node stands for: not empty, written by the user, and from the start of a token to
the end of one. -/
structure Span.Proper (ts : List Token) (s : Span) : Prop where
  written : s.ctxt = 0
  lt : s.lo < s.hi
  exists_lo : ∃ t ∈ ts, t.lo = s.lo
  exists_hi : ∃ t ∈ ts, t.hi = s.hi

mutual

/-- A tree that is laid out in source order over some tokens. -/
def Rose.Laminar (ts : List Token) : Rose Node → Prop
  | .node n kids => n.span.Proper ts ∧ Laid ts n.span.lo kids n.span.hi

/-- Trees that are laid out one behind the other between two positions. -/
def Laid (ts : List Token) (lo : Int) : List (Rose Node) → Int → Prop
  | [], hi => lo ≤ hi
  | t :: rest, hi => lo ≤ t.span.lo ∧ t.Laminar ts ∧ Laid ts t.span.hi rest hi

end

variable {ts : List Token} {lo lo' mid hi hi' : Int} {n : Node} {t : Rose Node}
  {kids trees more : List (Rose Node)}

theorem Rose.Laminar.proper (h : t.Laminar ts) : t.span.Proper ts := by
  cases t with
  | node n kids => exact (Rose.Laminar.eq_1 ts n kids ▸ h).1

namespace Laid

@[simp] theorem nil_iff : Laid ts lo [] hi ↔ lo ≤ hi := by rw [Laid]

@[simp] theorem cons_iff :
    Laid ts lo (t :: trees) hi ↔ lo ≤ t.span.lo ∧ t.Laminar ts ∧ Laid ts t.span.hi trees hi := by
  rw [Laid]

theorem le (h : Laid ts lo trees hi) : lo ≤ hi := by
  induction trees generalizing lo with
  | nil => exact nil_iff.1 h
  | cons t trees ih =>
    obtain ⟨h₁, h₂, h₃⟩ := cons_iff.1 h
    have := h₂.proper.lt
    have := ih h₃
    omega

theorem mono (h : Laid ts lo trees hi) (hl : lo' ≤ lo) (hh : hi ≤ hi') : Laid ts lo' trees hi' := by
  induction trees generalizing lo lo' with
  | nil =>
    have := nil_iff.1 h
    exact nil_iff.2 (by omega)
  | cons t trees ih =>
    obtain ⟨h₁, h₂, h₃⟩ := cons_iff.1 h
    exact cons_iff.2 ⟨Int.le_trans hl h₁, h₂, ih h₃ (Int.le_refl _)⟩

theorem append (h : Laid ts lo trees mid) (h' : Laid ts mid more hi) :
    Laid ts lo (trees ++ more) hi := by
  induction trees generalizing lo with
  | nil => exact h'.mono (nil_iff.1 h) (Int.le_refl _)
  | cons t trees ih =>
    obtain ⟨h₁, h₂, h₃⟩ := cons_iff.1 h
    exact cons_iff.2 ⟨h₁, h₂, ih h₃⟩

/-- Trees over tokens that all stand between two positions lie between them. -/
theorem within {a b : Int} (h : Laid ts lo trees hi) (ha : ∀ u ∈ ts, a ≤ u.lo)
    (hb : ∀ u ∈ ts, u.hi ≤ b) (hab : a ≤ b) : Laid ts a trees b := by
  have hend {lo : Int} {trees : List (Rose Node)} (h : Laid ts lo trees hi) (hl : lo ≤ b) :
      Laid ts lo trees b := by
    induction trees generalizing lo with
    | nil => exact nil_iff.2 hl
    | cons t trees ih =>
      obtain ⟨h₁, h₂, h₃⟩ := cons_iff.1 h
      obtain ⟨u, hu, he⟩ := h₂.proper.exists_hi
      exact cons_iff.2 ⟨h₁, h₂, ih h₃ (he ▸ hb u hu)⟩
  cases trees with
  | nil => exact nil_iff.2 hab
  | cons t trees =>
    obtain ⟨-, h₂, h₃⟩ := cons_iff.1 h
    obtain ⟨u, hu, he⟩ := h₂.proper.exists_lo
    obtain ⟨v, hv, he'⟩ := h₂.proper.exists_hi
    exact cons_iff.2 ⟨he ▸ ha u hu, h₂, hend h₃ (he' ▸ hb v hv)⟩

/-- A tree alone. -/
theorem singleton_iff : Laid ts lo [t] hi ↔ lo ≤ t.span.lo ∧ t.Laminar ts ∧ t.span.hi ≤ hi := by
  simp

/-- Trees within the text of a node make a tree with it. -/
theorem node (hp : n.span.Proper ts) (h : Laid ts n.span.lo kids n.span.hi) (hl : lo ≤ n.span.lo)
    (hh : n.span.hi ≤ hi) : Laid ts lo [.node n kids] hi :=
  singleton_iff.2 ⟨hl, by rw [Rose.Laminar]; exact ⟨hp, h⟩, hh⟩

/-- A node that begins with a tree, and has more behind it. -/
theorem extend (h : Laid ts lo [t] mid) (hk : Laid ts mid kids n.span.hi)
    (hn : n.span.lo = t.span.lo) (hc : n.span.ctxt = 0) (hx : ∃ u ∈ ts, u.hi = n.span.hi)
    (hh : n.span.hi ≤ hi) : Laid ts lo [.node n (t :: kids)] hi := by
  obtain ⟨h₁, h₂, h₃⟩ := singleton_iff.1 h
  have hlt := h₂.proper.lt
  have hle := hk.le
  refine node ⟨hc, by omega, by rw [hn]; exact h₂.proper.exists_lo, hx⟩ ?_ (by omega) hh
  exact cons_iff.2 ⟨by omega, h₂, hk.mono h₃ (Int.le_refl _)⟩

/-- A node over all that was read between two cursors. -/
theorem read {s c : Cursor} (hs : s.On ts) (h : s.Passes ts c) (hn : n.span = ⟨s.ahead, c.last, 0⟩)
    (hk : Laid ts s.ahead kids c.last) : Laid ts s.ahead [.node n kids] c.last := by
  have hlt := h.ahead_lt hs
  have hp : n.span.Proper ts := by
    rw [hn]
    exact ⟨rfl, hlt, h.exists_lo hs, h.exists_hi hs⟩
  exact node hp (by rwa [hn]) (Int.le_of_eq (by rw [hn])) (Int.le_of_eq (by rw [hn]))

end Laid

/-! ### Trees of lists -/

theorem exprTrees_eq_map (es : List Expr) : exprTrees es = es.map Expr.tree := by
  induction es with
  | nil => rfl
  | cons e es ih => rw [exprTrees, ih, List.map_cons]

theorem exprTrees_append (es es' : List Expr) :
    exprTrees (es ++ es') = exprTrees es ++ exprTrees es' := by
  simp only [exprTrees_eq_map, List.map_append]

theorem Block.tree_mk (span : Span) (kind : BlockKind) (stmts : List Stmt) (tail : Option Expr) :
    (Block.mk span kind stmts tail).tree =
      .node (.expr (.block (.mk span kind stmts tail)))
        (stmtTrees stmts ++ exprTrees tail.toList) := by
  cases tail <;> simp [Block.tree, exprTrees]

theorem Stmt.tree_letStmt (span : Span) (pattern : Pattern) (declared : Option Ty)
    (init : Option Expr) (otherwise : Option Block) :
    (Stmt.letStmt span pattern declared init otherwise).tree =
      .node (.stmt (.letStmt span pattern declared init otherwise))
        (exprTrees init.toList ++ otherwise.toList.map Block.tree) := by
  cases init <;> cases otherwise <;> simp [Stmt.tree, exprTrees]

theorem Item.tree_fn (span : Span) (name : String) (params : List Param) (body : Option Block) :
    (Item.fn span name params body).tree =
      .node (.item (.fn span name params body)) (body.toList.map Block.tree) := by
  cases body <;> simp [Item.tree]

/-! ### The root of a tree -/

@[simp] theorem Block.tree_span (b : Block) : b.tree.span = b.span := by
  cases b with
  | mk span kind stmts tail => cases tail <;> rfl

@[simp] theorem Expr.tree_span (e : Expr) : e.tree.span = e.span := by
  cases e with
  | block b => exact b.tree_span
  | _ => rfl

@[simp] theorem Item.tree_span (i : Item) : i.tree.span = i.span := by
  cases i with
  | fn span name params body => cases body <;> rfl
  | _ => rfl

end BuilderMigration
