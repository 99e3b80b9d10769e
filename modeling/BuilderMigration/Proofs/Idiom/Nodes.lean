import BuilderMigration.Proofs.Idiom.Parts
import BuilderMigration.Proofs.Idiom.Recognition
import BuilderMigration.Proofs.Tree.Nesting

/-! Where the parts of a recognised builder stand: each has the span of a node of its tree. -/

namespace BuilderMigration

/-! ### Bodies -/

/-- Below a node lies what lies below the end of its body. -/
theorem Expr.mem_preorder_opened {n : Node} {e : Expr} (h : n ∈ (Node.expr e.opened.2).tree.preorder) :
    n ∈ (Node.expr e).tree.preorder := by
  unfold opened at h
  split at h
  · exact Node.mem_preorder_of_child (by simp [Node.children]) h
  · exact h

theorem Expr.mem_preorder_opened_stmt {n : Node} {e : Expr} {s : Stmt} (hs : s ∈ e.opened.1)
    (h : n ∈ (Node.stmt s).tree.preorder) : n ∈ (Node.expr e).tree.preorder := by
  unfold opened at hs
  split at hs
  · refine Node.mem_preorder_of_child ?_ h
    rw [Node.children, List.mem_append]
    exact .inl (List.mem_map_of_mem hs)
  · cases hs

/-! ### Parts of lists -/

theorem mem_partsOfCalls {p : Part} {calls : List BuilderCall} :
    p ∈ partsOfCalls calls ↔ ∃ call ∈ calls, p ∈ partsOfArgs call.args := by
  induction calls with
  | nil => simp [partsOfCalls]
  | cons call calls ih => simp [partsOfCalls, ih]

theorem mem_partsOfArgs {p : Part} {as : List Arg} :
    p ∈ partsOfArgs as ↔ ∃ a ∈ as, p ∈ a.parts := by
  induction as with
  | nil => simp [partsOfArgs]
  | cons a as ih => simp [partsOfArgs, ih]

theorem BuilderChain.mem_parts_append {p : Part} {c : BuilderChain} {field : String} {args : List Arg} :
    p ∈ BuilderChain.parts (c.append ⟨field, args⟩) ↔
      p ∈ BuilderChain.parts c ∨ p ∈ partsOfArgs args := by
  simp only [parts, Chain.append, mem_partsOfCalls, List.mem_append, List.mem_singleton]
  grind

theorem mem_partsOfStmts {p : Part} {stmts : List BuilderPrelude} :
    p ∈ partsOfStmts stmts ↔ ∃ s ∈ stmts, p ∈ partsOfStmts [s] := by
  induction stmts with
  | nil => simp [partsOfStmts]
  | cons s stmts ih => cases s <;> simp [partsOfStmts, ih, or_assoc]

theorem BuilderClosure.mem_parts {p : Part} {c : BuilderClosure} :
    p ∈ c.parts ↔ p = .rewritten c.span ∨ p ∈ partsOfStmts c.stmts ∨ p ∈ BuilderChain.parts c.chain := by
  obtain ⟨builder, binding, stmts, ⟨receiver, base, calls⟩, span⟩ := c
  simp [parts, Arg.parts, BuilderChain.parts]

/-- A chain begins without parts. -/
theorem parts_of_chainStart? {settings : Settings} {strict : Bool} {e : Expr} {c : BuilderChain}
    (h : chainStart? settings strict e = some c) : BuilderChain.parts c = [] := by
  obtain ⟨name, -, rfl, -⟩ := chainStart?_eq_some settings h
  rfl

/-! ### Where parts stand -/

variable {settings : Settings}

/-- Some node at or below a node has the span of a part. -/
def Node.Holds (m : Node) (p : Part) : Prop := ∃ n ∈ m.tree.preorder, n.span = p.span

theorem Node.Holds.of_child {c m : Node} {p : Part} (hc : c ∈ m.children) (h : c.Holds p) :
    m.Holds p := by
  obtain ⟨n, hn, hs⟩ := h
  exact ⟨n, Node.mem_preorder_of_child hc hn, hs⟩

theorem Node.holds_self {m : Node} {p : Part} (h : m.span = p.span) : m.Holds p :=
  ⟨m, m.mem_preorder_self, h⟩

/-- An expression that holds the parts of its chain and of its builder. -/
def Expr.HoldsParts (settings : Settings) (e : Expr) : Prop :=
  (∀ strict c, chain? settings strict e = some c →
      ∀ p ∈ BuilderChain.parts c, (Node.expr e).Holds p) ∧
    ∀ c, builderClosure? settings e = some c → ∀ p ∈ c.parts, (Node.expr e).Holds p

theorem Expr.HoldsParts.args {es : List Expr} {p : Part} (h : ∀ e ∈ es, e.HoldsParts settings)
    (hp : p ∈ partsOfArgs (classifyAll settings es)) : ∃ e ∈ es, (Node.expr e).Holds p := by
  rw [classifyAll_eq_map, mem_partsOfArgs] at hp
  obtain ⟨a, ha, hp⟩ := hp
  obtain ⟨e, he, rfl⟩ := List.mem_map.1 ha
  refine ⟨e, he, ?_⟩
  unfold classifyArg at hp
  cases hc : builderClosure? settings e with
  | some c =>
    rw [hc] at hp
    exact (h e he).2 c hc p hp
  | none =>
    rw [hc] at hp
    obtain rfl : p = .copied e.span := by simpa [Arg.parts] using hp
    exact Node.holds_self rfl

theorem Expr.HoldsParts.stmt {s : Stmt} {p : Part} {binding : String}
    (h : ∀ span e, s = .semi span e → e.HoldsParts settings)
    (hp : p ∈ partsOfStmts [preludeOf settings binding s]) : (Node.stmt s).Holds p := by
  have hself (hp : p ∈ partsOfStmts [.verbatim s.span]) : (Node.stmt s).Holds p := by
    obtain rfl : p = .copied s.span := by simpa [partsOfStmts] using hp
    exact Node.holds_self rfl
  unfold preludeOf at hp
  cases hc : stmtChain? settings true s with
  | none =>
    rw [hc] at hp
    exact hself hp
  | some c =>
    rw [hc] at hp
    dsimp only at hp
    split at hp
    · cases s with
      | semi span e =>
        simp only [partsOfStmts, List.mem_cons, List.append_nil] at hp
        rcases hp with rfl | hp
        · exact Node.holds_self rfl
        · exact ((h span e rfl).1 true c hc p hp).of_child (by simp [Node.children])
      | _ => cases hc
    · exact hself hp

theorem Expr.HoldsParts.tail {e : Expr} (h : e.HoldsParts settings) {binding : String}
    {c : BuilderChain} (hc : closureTail? settings binding e = some c) :
    ∀ p ∈ BuilderChain.parts c, (Node.expr e).Holds p := by
  cases e with
  | methodCall => exact h.1 _ c hc
  | _ =>
    simp only [closureTail?, Option.ite_none_right_eq_some, Option.some.injEq] at hc
    obtain ⟨-, rfl⟩ := hc
    exact fun p hp => absurd hp List.not_mem_nil

/-- The parts of a builder stand at or below its node. -/
theorem Expr.holdsParts (settings : Settings) (e : Expr) : e.HoldsParts settings := by
  induction e using Expr.recognition_induction with
  | methodCall span ty receiver method args hr hargs =>
    refine ⟨fun strict c hc p hp => ?_, nofun⟩
    rw [chain?_methodCall] at hc
    obtain ⟨c₀, hc₀, rfl⟩ := Option.map_eq_some_iff.1 hc
    rcases BuilderChain.mem_parts_append.1 hp with hp | hp
    · rcases Option.or_eq_some_iff.1 hc₀ with hc₀ | ⟨-, hc₀⟩
      · exact (hr.1 strict c₀ hc₀ p hp).of_child (by simp [Node.children])
      · rw [parts_of_chainStart? hc₀] at hp
        cases hp
    · obtain ⟨a, ha, h⟩ := Expr.HoldsParts.args hargs hp
      exact h.of_child (by simp [Node.children, ha])
  | closure span params body captures hstmts htail =>
    refine ⟨nofun, fun c hc p hp => ?_⟩
    have hbody {p : Part} (h : (Node.expr body).Holds p) :
        (Node.expr (.closure span params body captures)).Holds p :=
      h.of_child (by simp [Node.children])
    rw [builderClosure?_closure] at hc
    obtain ⟨b, -, hc⟩ := Option.bind_eq_some_iff.1 hc
    obtain ⟨chain, hchain, rfl⟩ := Option.map_eq_some_iff.1 hc
    rcases BuilderClosure.mem_parts.1 hp with rfl | hp | hp
    · exact Node.holds_self rfl
    · rw [preludes_eq_map, mem_partsOfStmts] at hp
      obtain ⟨_, hmem, hp⟩ := hp
      obtain ⟨s, hs, rfl⟩ := List.mem_map.1 hmem
      obtain ⟨n, hn, he⟩ := Expr.HoldsParts.stmt (fun span e he => hstmts span e (he ▸ hs)) hp
      exact hbody ⟨n, Expr.mem_preorder_opened_stmt hs hn, he⟩
    · obtain ⟨n, hn, he⟩ := htail.tail hchain p hp
      exact hbody ⟨n, Expr.mem_preorder_opened hn, he⟩
  | other e hcall hclosure =>
    cases e with
    | methodCall => exact (hcall _ _ _ _ _ rfl).elim
    | closure => exact (hclosure _ _ _ _ rfl).elim
    | _ => exact ⟨nofun, nofun⟩

end BuilderMigration
