import BuilderMigration.Migration.Site
import BuilderMigration.Proofs.Idiom.Nodes

/-! Idioms of the old style within a recognised builder. Each is written anew, or it stands in text that
is copied: recognition passes over none of them. -/

namespace BuilderMigration

variable {settings : Settings} {ts : List Token}

/-- Calls on a name that is known to be a builder. -/
def Expr.callsOnBuilder (settings : Settings) : Expr → Bool
  | .methodCall _ _ receiver _ _ =>
    receiver.callsOnBuilder settings ||
      (receiver.name?.isSome && (receiver.ty?.bind (·.builder? settings)).isSome)
  | _ => false

/-- The old style: a closure whose only parameter is a mutable reference to a builder, or a statement of
calls on a builder. -/
def Node.isIdiom (settings : Settings) : Node → Bool
  | .expr (.closure _ [p] _ _) => (p.ty.bind (·.mutBuilder? settings)).isSome
  | .stmt (.semi _ e) => e.callsOnBuilder settings
  | _ => false

/-- The parts of the builder that a node is. -/
def Node.parts (settings : Settings) : Node → List Part
  | .expr e => ((builderClosure? settings e).map BuilderClosure.parts).getD []
  | .stmt s => ((stmtChain? settings true s).map fun c => .rewritten s.span :: c.parts).getD []
  | _ => []

/-- A node that is written anew, or that stands in text that is copied. -/
def Node.Covered (d : Node) (parts : List Part) : Prop :=
  .rewritten d.span ∈ parts ∨ ∃ s, .copied s ∈ parts ∧ s.contains d.span = true

theorem Node.Covered.mono {d : Node} {parts more : List Part} (h : d.Covered parts)
    (hsub : ∀ p ∈ parts, p ∈ more) : d.Covered more :=
  h.imp (hsub _) fun ⟨s, hs, hc⟩ => ⟨s, hsub _ hs, hc⟩

/-- Text that is copied covers everything in it. -/
theorem Node.covered_of_copied {n d : Node} {parts : List Part} (hl : n.tree.Laminar ts)
    (hd : d ∈ n.tree.preorder) (h : .copied n.span ∈ parts) : d.Covered parts := by
  obtain ⟨-, hlo, hhi⟩ := hl.inside d hd
  rw [n.tree_span] at hlo hhi
  exact .inr ⟨n.span, h, by simp [Span.contains, hlo, hhi]⟩

/-- A body, what it ends in, or a statement before that. -/
theorem Expr.mem_preorder_body (settings : Settings) {d : Node} {e : Expr}
    (h : d ∈ (Node.expr e).tree.preorder) :
    d.isIdiom settings = false ∨ d ∈ (Node.expr e.opened.2).tree.preorder ∨
      ∃ s ∈ e.opened.1, d ∈ (Node.stmt s).tree.preorder := by
  unfold opened
  split
  · next span stmts tail =>
    rcases Node.mem_preorder.1 h with rfl | ⟨c, hc, hd⟩
    · exact .inl rfl
    · rw [Node.children, List.mem_append] at hc
      rcases hc with hc | hc
      · obtain ⟨s, hs, rfl⟩ := List.mem_map.1 hc
        exact .inr (.inr ⟨s, hs, hd⟩)
      · obtain rfl : c = .expr tail := by simpa using hc
        exact .inr (.inl hd)
  · exact .inr (.inl h)

/-- A name is no idiom, and there is nothing below it. -/
theorem Expr.not_isIdiom_of_name? {d : Node} {e : Expr} {name : String} (he : e.name? = some name)
    (hd : d ∈ (Node.expr e).tree.preorder) : d.isIdiom settings = false := by
  cases e with
  | path span ty segments =>
    rcases Node.mem_preorder.1 hd with rfl | ⟨c, hc, -⟩
    · rfl
    · cases hc
  | _ => cases he

/-- The idioms in an expression that makes a chain, or a builder, are covered by the parts of it. -/
def Expr.CoversIdioms (settings : Settings) (e : Expr) : Prop :=
  ∀ d ∈ (Node.expr e).tree.preorder, d.isIdiom settings = true →
    (∀ strict c, chain? settings strict e = some c → d.Covered (BuilderChain.parts c)) ∧
      ∀ c, builderClosure? settings e = some c → d.Covered c.parts

theorem Expr.CoversIdioms.arg {a : Expr} {d : Node} (h : a.CoversIdioms settings)
    (hl : (Node.expr a).tree.Laminar ts) (hd : d ∈ (Node.expr a).tree.preorder)
    (hi : d.isIdiom settings = true) : d.Covered (classifyArg settings a).parts := by
  unfold classifyArg
  cases hc : builderClosure? settings a with
  | some c => exact (h d hd hi).2 c hc
  | none => exact Node.covered_of_copied hl hd (by simp [Arg.parts, Node.span])

theorem Expr.CoversIdioms.stmt {s : Stmt} {d : Node} (binding : String)
    (h : ∀ span e, s = .semi span e → e.CoversIdioms settings) (hl : (Node.stmt s).tree.Laminar ts)
    (hd : d ∈ (Node.stmt s).tree.preorder) (hi : d.isIdiom settings = true) :
    d.Covered (partsOfStmts [preludeOf settings binding s]) := by
  have hcopied : d.Covered (partsOfStmts [.verbatim s.span]) :=
    Node.covered_of_copied hl hd (by simp [partsOfStmts, Node.span])
  unfold preludeOf
  cases hc : stmtChain? settings true s with
  | none => exact hcopied
  | some c =>
    dsimp only
    split
    · cases s with
      | semi span e =>
        simp only [partsOfStmts, List.append_nil]
        rcases Node.mem_preorder.1 hd with rfl | ⟨c', hc', hd⟩
        · exact .inl (by simp [Node.span, Stmt.span])
        · obtain rfl : c' = .expr e := by simpa [Node.children] using hc'
          exact ((h span e rfl d hd hi).1 true c hc).mono fun p hp => List.mem_cons_of_mem _ hp
      | _ => cases hc
    · exact hcopied

theorem Expr.CoversIdioms.tail {e : Expr} {d : Node} {binding : String} {c : BuilderChain}
    (h : e.CoversIdioms settings) (hc : closureTail? settings binding e = some c)
    (hd : d ∈ (Node.expr e).tree.preorder) (hi : d.isIdiom settings = true) :
    d.Covered (BuilderChain.parts c) := by
  have hname (he : e.name? = some binding) : d.Covered (BuilderChain.parts c) := by
    rw [Expr.not_isIdiom_of_name? he hd] at hi
    cases hi
  cases e with
  | methodCall => exact (h d hd hi).1 _ c hc
  | _ =>
    simp only [closureTail?, Option.ite_none_right_eq_some] at hc
    exact hname hc.1

/-- Recognition passes over no idiom. -/
theorem Expr.coversIdioms {e : Expr} (hl : (Node.expr e).tree.Laminar ts) :
    e.CoversIdioms settings := by
  induction e using Expr.recognition_induction with
  | methodCall span ty receiver method args hr hargs =>
    intro d hd hi
    refine ⟨fun strict c hc => ?_, fun c hc => (by cases hc)⟩
    rw [chain?_methodCall] at hc
    obtain ⟨c₀, hc₀, rfl⟩ := Option.map_eq_some_iff.1 hc
    rcases Node.mem_preorder.1 hd with rfl | ⟨n, hn, hd⟩
    · cases hi
    have hln := Node.laminar_of_child hl hn
    rw [Node.children, List.mem_cons] at hn
    rcases hn with rfl | hn
    · -- below the receiver: a shorter chain, or the name that the chain begins with
      rcases Option.or_eq_some_iff.1 hc₀ with hc₀ | ⟨-, hc₀⟩
      · exact ((hr hln d hd hi).1 strict c₀ hc₀).mono fun p hp =>
          BuilderChain.mem_parts_append.2 (.inl hp)
      · obtain ⟨name, hname, -⟩ := chainStart?_eq_some settings hc₀
        rw [Expr.not_isIdiom_of_name? hname hd] at hi
        cases hi
    · obtain ⟨a, ha, rfl⟩ := List.mem_map.1 hn
      refine ((hargs a ha hln).arg hln hd hi).mono fun p hp =>
        BuilderChain.mem_parts_append.2 (.inr ?_)
      rw [classifyAll_eq_map, mem_partsOfArgs]
      exact ⟨_, List.mem_map_of_mem ha, hp⟩
  | closure span params body captures hstmts htail =>
    intro d hd hi
    refine ⟨fun strict c hc => (by cases hc), fun c hc => ?_⟩
    rw [builderClosure?_closure] at hc
    obtain ⟨b, -, hc⟩ := Option.bind_eq_some_iff.1 hc
    obtain ⟨chain, hchain, rfl⟩ := Option.map_eq_some_iff.1 hc
    rcases Node.mem_preorder.1 hd with rfl | ⟨n, hn, hd⟩
    · exact .inl (BuilderClosure.mem_parts.2 (.inl rfl))
    have hln := Node.laminar_of_child hl hn
    obtain rfl : n = .expr body := by simpa [Node.children] using hn
    rcases Expr.mem_preorder_body settings hd with hnone | hd' | ⟨s, hs, hd'⟩
    · rw [hnone] at hi
      cases hi
    · have hlt := Rose.Laminar.below hln _
        (Expr.mem_preorder_opened (Node.mem_preorder_self (.expr body.opened.2)))
      exact ((htail hlt).tail hchain hd' hi).mono fun p hp =>
        BuilderClosure.mem_parts.2 (.inr (.inr hp))
    · have hls := Rose.Laminar.below hln _
        (Expr.mem_preorder_opened_stmt hs (Node.mem_preorder_self (.stmt s)))
      have hcovers (span : Span) (e : Expr) (he : s = .semi span e) : e.CoversIdioms settings := by
        subst he
        exact hstmts span e hs (Node.laminar_of_child hls (by simp [Node.children]))
      refine (Expr.CoversIdioms.stmt b.1 hcovers hls hd' hi).mono fun p hp =>
        BuilderClosure.mem_parts.2 (.inr (.inl ?_))
      rw [preludes_eq_map, mem_partsOfStmts]
      exact ⟨_, List.mem_map_of_mem hs, hp⟩
  | other e hcall hclosure =>
    intro d hd hi
    cases e with
    | methodCall => exact (hcall _ _ _ _ _ rfl).elim
    | closure => exact (hclosure _ _ _ _ rfl).elim
    | _ => exact ⟨fun strict c hc => (by cases hc), fun c hc => (by cases hc)⟩

/-- The idioms at and below a builder are covered by its parts. -/
theorem Node.covered {p : Plan} {n : Node} {work : Rewrite String} (hl : n.tree.Laminar ts)
    (hb : n.builder? p = some work) : ∀ d ∈ n.tree.preorder,
      d.isIdiom p.workshop.settings = true → d.Covered (n.parts p.workshop.settings) := by
  intro d hd hi
  cases n with
  | expr e =>
    obtain ⟨c, hc, -⟩ := Option.map_eq_some_iff.1 hb
    simp only [parts, hc, Option.map_some, Option.getD_some]
    exact (Expr.coversIdioms hl d hd hi).2 c hc
  | stmt s =>
    obtain ⟨c, hc, -⟩ := Option.map_eq_some_iff.1 hb
    simp only [parts, hc, Option.map_some, Option.getD_some]
    cases s with
    | semi span e =>
      rcases Node.mem_preorder.1 hd with rfl | ⟨n, hn, hd⟩
      · exact .inl (List.mem_cons_self ..)
      · have hln := Node.laminar_of_child hl hn
        obtain rfl : n = .expr e := by simpa [children] using hn
        exact ((Expr.coversIdioms hln d hd hi).1 true c hc).mono fun p hp => List.mem_cons_of_mem _ hp
    | _ => cases hc
  | item i => cases hb
  | module m => cases hb

end BuilderMigration
