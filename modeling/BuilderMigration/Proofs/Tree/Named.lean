import BuilderMigration.Tree.Node

/-! Trees in which every name has a property, and every type that is known another one. The names of a
tree are those that its types can come from and those that a rewrite may write again: of methods and
bindings, in paths, in imports and in types as they are written. -/

namespace BuilderMigration

variable {N : String → Prop} {Q : Ty → Prop}

/-- The names of a type as it is written, under its references. -/
def Ty.Written (N : String → Prop) : Ty → Prop
  | .ref inner _ => inner.Written N
  | .path segments => ∀ s ∈ segments, N s
  | .adt _ => False
  | .tuple _ | .prim _ | .param _ | .other _ => True

/-- The name of a binding. A receiver may go by its own name. -/
def Pattern.Named (N : String → Prop) : Pattern → Prop
  | .binding _ name _ => N name ∨ name = "self"
  | .other _ => True

structure Param.Named (N : String → Prop) (Q : Ty → Prop) (p : Param) : Prop where
  pattern : p.pattern.Named N
  declared : ∀ ty ∈ p.declared, ty.Written N
  ty : ∀ ty ∈ p.ty, Q ty

def Import.Named (N : String → Prop) (i : Import) : Prop := ∀ s ∈ i.path, N s

mutual

def Expr.Named (N : String → Prop) (Q : Ty → Prop) : Expr → Prop
  | .path _ ty segments => (∀ t ∈ ty, Q t) ∧ ∀ s ∈ segments, N s
  | .lit _ _ => True
  | .methodCall _ ty receiver method args =>
    (∀ t ∈ ty, Q t) ∧ receiver.Named N Q ∧ N method ∧ ExprsNamed N Q args
  | .closure _ params body _ => (∀ p ∈ params, p.Named N Q) ∧ body.Named N Q
  | .block b => b.Named N Q
  | .macroCall _ _ _ args => ExprsNamed N Q args
  | .compound _ ty _ parts => (∀ t ∈ ty, Q t) ∧ ExprsNamed N Q parts

def Block.Named (N : String → Prop) (Q : Ty → Prop) : Block → Prop
  | .mk _ _ stmts tail =>
    StmtsNamed N Q stmts ∧ (match tail with | none => True | some e => e.Named N Q)

def Stmt.Named (N : String → Prop) (Q : Ty → Prop) : Stmt → Prop
  | .letStmt _ pattern declared init otherwise =>
    pattern.Named N ∧ (∀ t ∈ declared, t.Written N)
      ∧ (match init with | none => True | some e => e.Named N Q)
      ∧ (match otherwise with | none => True | some b => b.Named N Q)
  | .semi _ e | .expr _ e => e.Named N Q
  | .item _ i => i.Named N Q

def Item.Named (N : String → Prop) (Q : Ty → Prop) : Item → Prop
  | .fn _ _ params body =>
    (∀ p ∈ params, p.Named N Q) ∧ (match body with | none => True | some b => b.Named N Q)
  | .use _ imports globs => (∀ i ∈ imports, i.Named N) ∧ ∀ path ∈ globs, ∀ s ∈ path, N s
  | .container _ _ items => ItemsNamed N Q items
  | .other _ => True

def ExprsNamed (N : String → Prop) (Q : Ty → Prop) : List Expr → Prop
  | [] => True
  | e :: es => e.Named N Q ∧ ExprsNamed N Q es

def StmtsNamed (N : String → Prop) (Q : Ty → Prop) : List Stmt → Prop
  | [] => True
  | s :: ss => s.Named N Q ∧ StmtsNamed N Q ss

def ItemsNamed (N : String → Prop) (Q : Ty → Prop) : List Item → Prop
  | [] => True
  | i :: is => i.Named N Q ∧ ItemsNamed N Q is

end

theorem exprsNamed_iff {es : List Expr} : ExprsNamed N Q es ↔ ∀ e ∈ es, e.Named N Q := by
  induction es with
  | nil => simp [ExprsNamed]
  | cons e es ih => simp [ExprsNamed, ih]

theorem stmtsNamed_iff {ss : List Stmt} : StmtsNamed N Q ss ↔ ∀ s ∈ ss, s.Named N Q := by
  induction ss with
  | nil => simp [StmtsNamed]
  | cons s ss ih => simp [StmtsNamed, ih]

theorem itemsNamed_iff {is : List Item} : ItemsNamed N Q is ↔ ∀ i ∈ is, i.Named N Q := by
  induction is with
  | nil => simp [ItemsNamed]
  | cons i is ih => simp [ItemsNamed, ih]

theorem Block.named_mk {span : Span} {kind : BlockKind} {stmts : List Stmt} {tail : Option Expr} :
    (Block.mk span kind stmts tail).Named N Q ↔
      (∀ s ∈ stmts, s.Named N Q) ∧ ∀ e ∈ tail, e.Named N Q := by
  cases tail <;> simp [Block.Named, stmtsNamed_iff]

theorem Stmt.named_letStmt {span : Span} {pattern : Pattern} {declared : Option Ty}
    {init : Option Expr} {otherwise : Option Block} :
    (Stmt.letStmt span pattern declared init otherwise).Named N Q ↔
      pattern.Named N ∧ (∀ t ∈ declared, t.Written N) ∧ (∀ e ∈ init, e.Named N Q)
        ∧ ∀ b ∈ otherwise, b.Named N Q := by
  cases init <;> cases otherwise <;> simp [Stmt.Named]

theorem Item.named_fn {span : Span} {name : String} {params : List Param} {body : Option Block} :
    (Item.fn span name params body).Named N Q ↔
      (∀ p ∈ params, p.Named N Q) ∧ ∀ b ∈ body, b.Named N Q := by
  cases body <;> simp [Item.Named]

/-! ### Nodes -/

def Node.Named (N : String → Prop) (Q : Ty → Prop) : Node → Prop
  | .expr e => e.Named N Q
  | .stmt s => s.Named N Q
  | .item i => i.Named N Q
  | .module m => ∀ i ∈ m.items, i.Named N Q

/-- Names and types pass from a node to its children. -/
theorem Node.Named.child {n c : Node} (h : n.Named N Q) (hc : c ∈ n.children) : c.Named N Q := by
  cases n with
  | expr e =>
    cases e with
    | path span ty segments => cases hc
    | lit span kind => cases hc
    | methodCall span ty receiver method args =>
      simp only [Node.Named, Expr.Named, exprsNamed_iff] at h
      rcases List.mem_cons.1 hc with rfl | hc
      · exact h.2.1
      · obtain ⟨a, ha, rfl⟩ := List.mem_map.1 hc
        exact h.2.2.2 a ha
    | closure span params body captures =>
      simp only [Node.Named, Expr.Named] at h
      rw [List.mem_singleton.1 hc]
      exact h.2
    | block b =>
      obtain ⟨span, kind, stmts, tail⟩ := b
      simp only [Node.Named, Expr.Named, Block.named_mk] at h
      rcases List.mem_append.1 hc with hc | hc
      · obtain ⟨s, hs, rfl⟩ := List.mem_map.1 hc
        exact h.1 s hs
      · obtain ⟨e, he, rfl⟩ := List.mem_map.1 hc
        exact h.2 e (Option.mem_toList.1 he)
    | macroCall span path delimiter args =>
      simp only [Node.Named, Expr.Named, exprsNamed_iff] at h
      obtain ⟨a, ha, rfl⟩ := List.mem_map.1 hc
      exact h a ha
    | compound span ty kind parts =>
      simp only [Node.Named, Expr.Named, exprsNamed_iff] at h
      obtain ⟨a, ha, rfl⟩ := List.mem_map.1 hc
      exact h.2 a ha
  | stmt s =>
    cases s with
    | letStmt span pattern declared init otherwise =>
      simp only [Node.Named, Stmt.named_letStmt] at h
      rcases List.mem_append.1 hc with hc | hc
      · obtain ⟨e, he, rfl⟩ := List.mem_map.1 hc
        exact h.2.2.1 e (Option.mem_toList.1 he)
      · obtain ⟨b, hb, rfl⟩ := List.mem_map.1 hc
        simp only [Node.Named, Expr.Named]
        exact h.2.2.2 b (Option.mem_toList.1 hb)
    | semi span e =>
      simp only [Node.Named, Stmt.Named] at h
      exact List.mem_singleton.1 hc ▸ h
    | expr span e =>
      simp only [Node.Named, Stmt.Named] at h
      exact List.mem_singleton.1 hc ▸ h
    | item span i =>
      simp only [Node.Named, Stmt.Named] at h
      exact List.mem_singleton.1 hc ▸ h
  | item i =>
    cases i with
    | fn span name params body =>
      simp only [Node.Named, Item.named_fn] at h
      obtain ⟨b, hb, rfl⟩ := List.mem_map.1 hc
      simp only [Node.Named, Expr.Named]
      exact h.2 b (Option.mem_toList.1 hb)
    | «use» span imports globs => cases hc
    | container span kind items =>
      simp only [Node.Named, Item.Named, itemsNamed_iff] at h
      obtain ⟨i, hi, rfl⟩ := List.mem_map.1 hc
      exact h i hi
    | other span => cases hc
  | module m =>
    obtain ⟨i, hi, rfl⟩ := List.mem_map.1 hc
    exact h i hi

/-! ### Trees as they are read -/

abbrev Param.Written (N : String → Prop) (p : Param) : Prop := p.Named N fun _ => False

abbrev Expr.Written (N : String → Prop) (e : Expr) : Prop := e.Named N fun _ => False

abbrev Block.Written (N : String → Prop) (b : Block) : Prop := b.Named N fun _ => False

abbrev Stmt.Written (N : String → Prop) (s : Stmt) : Prop := s.Named N fun _ => False

abbrev Item.Written (N : String → Prop) (i : Item) : Prop := i.Named N fun _ => False

end BuilderMigration
