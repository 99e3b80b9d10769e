import BuilderMigration.Proofs.Grammar.Paths

/-! The productions of primary expressions, by the token that they begin with. -/

namespace BuilderMigration.Grammar

open Parse

variable {ts us : List Token} {n : Nat} {g g' : Grammar} {s c c' : Cursor} {t : Token}

/-! ### Expressions with keywords -/

theorem Reads.conditionalOf (hg : g.Reads ts n g') (hc : c.On ts) (hl : c.rest.length ≤ n) :
    Yields ts g.conditionalOf g'.conditionalOf c (fun e c' => Grown ts c e.tree c') := by
  apply Yields.bind (.expect hc "if")
  intro start c₁ h₁
  have h₁' := h₁.passes
  rw [← Cursor.ahead_of_rest h₁.rest]
  apply Yields.bind (hg.expr h₁'.on (h₁'.lt hl) true)
  intro condition c₂ h₂
  have h₂' := h₁'.trans h₂.passes.moves
  apply Yields.bind (hg.block h₂'.on (h₂'.lt hl) .plain)
  intro body c₃ h₃
  have h₃' := h₂'.trans h₃.passes.moves
  apply Yields.bind (.accept h₃'.on "else")
  intro _ c₄ h₄
  extract_lets node
  have hnode (c₄) (otherwise : List Expr) (h₄ : AllGrown ts c₃ (exprTrees otherwise) c₄) :
      Yields ts (node otherwise) (node otherwise) c₄ (fun e c' => Grown ts c e.tree c') :=
    .spanFrom _ (.pure (.node hc h₁' (h₂.cons h₁'.on (h₃.cons h₂'.on h₄)) rfl))
  refine .ite (fun _ => ?_) fun _ => ?_
  · have h₄' := h₃'.trans h₄.moves
    refine .looksAt 0 "if" (.ite (fun _ => ?_) fun _ => ?_)
    · apply Yields.bind (hg.conditional h₄'.on (h₄'.lt hl))
      intro e c₅ h₅
      exact hnode c₅ [e] ((h₅.all h₄'.on).before h₄.moves)
    · apply Yields.bind (hg.block h₄'.on (h₄'.lt hl) .plain)
      intro b c₅ h₅
      exact hnode c₅ [.block b] ((h₅.all h₄'.on).before h₄.moves)
  · exact hnode c₄ [] (.nil h₄.moves)

theorem Reads.arm (hg : g.Reads ts n g') (hc : c.On ts) (hl : c.rest.length < n) :
    Yields ts g.arm g'.arm c
      (fun es c' => c.Passes ts c' ∧ AllGrown ts c (exprTrees es) c') := by
  apply Yields.bind (.skipAttributes hc)
  intro _ c₁ h₁
  apply Yields.bind (.accept h₁.on "|")
  intro _ c₂ h₂
  apply Yields.bind (pattern_yields h₂.moves.on _)
  intro _ c₃ h₃
  have h₃' := (h₁.trans h₂.moves).trans_passes h₃
  apply Yields.bind (.accept h₃'.on "if")
  intro _ c₄ h₄
  extract_lets rest rest'
  have hrest (c₄) (guards : List Expr) (h₄ : AllGrown ts c₃ (exprTrees guards) c₄) :
      Yields ts (rest guards) (rest' guards) c₄
        (fun es c' => c.Passes ts c' ∧ AllGrown ts c (exprTrees es) c') := by
    refine .bind (.expect h₄.moves.on "=>") fun _ c₅ h₅ => ?_
    have h₅' := h₃'.trans (h₄.moves.trans h₅.passes.moves)
    apply Yields.bind (hg.statementExpr h₅'.on (h₅'.moves.lt hl))
    intro value c₆ h₆
    refine .bind (.accept h₆.passes.on ",") fun _ c₇ h₇ => .pure ⟨?_, ?_⟩
    · exact h₅'.trans (h₆.passes.moves.trans h₇.moves)
    · rw [exprTrees_append]
      have hv := ((h₆.behind h₇.moves).all h₅'.on).before h₅.passes.moves
      exact (h₄.append hv).before h₃'.moves
  refine .ite (fun _ => ?_) fun _ => ?_
  · apply Yields.bind (hg.expr h₄.moves.on ((h₃'.trans h₄.moves).moves.lt hl) false)
    intro e c₅ h₅
    exact hrest c₅ [e] ((h₅.all h₄.moves.on).before h₄.moves)
  · exact hrest c₄ [] (.nil h₄.moves)

theorem Reads.choice (hg : g.Reads ts n g') (hc : c.On ts) (hl : c.rest.length ≤ n) :
    Yields ts g.choice g'.choice c (fun e c' => Grown ts c e.tree c') := by
  apply Yields.bind (.expect hc "match")
  intro start c₁ h₁
  have h₁' := h₁.passes
  rw [← Cursor.ahead_of_rest h₁.rest]
  apply Yields.bind (hg.expr h₁'.on (h₁'.lt hl) true)
  intro scrutinee c₂ h₂
  apply Yields.bind (.expect h₂.passes.on "\x7b")
  intro _ c₃ h₃
  apply Yields.bind (.skipAttributes h₃.passes.on)
  intro _ c₄ h₄
  have h₄' := h₃.passes.moves.trans h₄
  refine .bind (Yields.collect (Q := fun c arms _ c' => AllGrown ts c (exprTrees arms.flatten) c')
    h₄.on fun c₅ h₅ => ?_) fun r c₅ h₅ => ?_
  · refine .nextIs "\x7d" (fun _ => .pure (.nil h₅.on.stays)) fun _ => ?_
    have hl₅ := (h₁'.trans (h₂.passes.moves.trans (h₄'.trans h₅))).lt hl
    refine .bind (hg.arm h₅.on hl₅) fun es c₆ ⟨hp, h₆⟩ => .pure ⟨hp, fun _ _ _ hq => ?_⟩
    change AllGrown ts c₅ (exprTrees (es :: _).flatten) _
    rw [List.flatten_cons, exprTrees_append]
    exact h₆.append hq
  · refine .bind (.expect h₅.moves.on "\x7d") fun _ c₆ h₆ => .spanFrom _ (.pure ?_)
    have hk := (h₅.behind h₆.passes.moves).before h₄'
    exact .node hc h₁' (h₂.cons h₁'.on hk) rfl

theorem Reads.loop (hg : g.Reads ts n g') (hc : c.On ts) (hl : c.rest.length ≤ n) :
    Yields ts (g.loop c.ahead) (g'.loop c.ahead) c (fun e c' => Grown ts c e.tree c') := by
  apply Yields.bind (.skip_one hc)
  intro _ c₁ h₁
  refine .bind (hg.block h₁.on (h₁.lt hl) .plain) fun body c₂ h₂ => .spanFrom _ (.pure ?_)
  exact .node hc h₁ (h₂.all h₁.on) rfl

theorem Reads.whileLoop (hg : g.Reads ts n g') (hc : c.On ts) (hl : c.rest.length ≤ n) :
    Yields ts (g.whileLoop c.ahead) (g'.whileLoop c.ahead) c
      (fun e c' => Grown ts c e.tree c') := by
  apply Yields.bind (.skip_one hc)
  intro _ c₁ h₁
  apply Yields.bind (hg.expr h₁.on (h₁.lt hl) true)
  intro condition c₂ h₂
  refine .bind (hg.block h₂.passes.on ((h₁.trans h₂.passes.moves).lt hl) .plain) fun body c₃ h₃ =>
    .spanFrom _ (.pure ?_)
  exact .node hc h₁ (h₂.cons h₁.on (h₃.all h₂.passes.on)) rfl

theorem Reads.forLoop (hg : g.Reads ts n g') (hc : c.On ts) (hl : c.rest.length ≤ n) :
    Yields ts (g.forLoop c.ahead) (g'.forLoop c.ahead) c (fun e c' => Grown ts c e.tree c') := by
  apply Yields.bind (.skip_one hc)
  intro _ c₁ h₁
  apply Yields.bind (pattern_yields h₁.on _)
  intro _ c₂ h₂
  apply Yields.bind (.expect h₂.on "in")
  intro _ c₃ h₃
  have h₃' := h₁.trans (h₂.trans h₃.passes.moves).moves
  apply Yields.bind (hg.expr h₃'.on (h₃'.lt hl) true)
  intro iterated c₄ h₄
  refine .bind (hg.block h₄.passes.on ((h₃'.trans h₄.passes.moves).lt hl) .plain) fun body c₅ h₅ =>
    .spanFrom _ (.pure ?_)
  exact .node hc h₃' (h₄.cons h₃'.on (h₅.all h₄.passes.on)) rfl

theorem Reads.letCondition (hg : g.Reads ts n g') (hc : c.On ts) (hl : c.rest.length ≤ n) :
    Yields ts (g.letCondition c.ahead) (g'.letCondition c.ahead) c
      (fun e c' => Grown ts c e.tree c') := by
  apply Yields.bind (.skip_one hc)
  intro _ c₁ h₁
  apply Yields.bind (pattern_yields h₁.on _)
  intro _ c₂ h₂
  apply Yields.bind (.expect h₂.on "=")
  intro _ c₃ h₃
  have h₃' := h₁.trans (h₂.trans h₃.passes.moves).moves
  refine .bind (hg.operand h₃'.on (h₃'.lt hl) _ true) fun scrutinee c₄ h₄ => .spanFrom _ (.pure ?_)
  exact .node hc h₃' (h₄.all h₃'.on) rfl

theorem Reads.jump (hg : g.Reads ts n g') (hc : c.On ts) (hl : c.rest.length ≤ n)
    (kind : CompoundKind) (bare : Bool) :
    Yields ts (g.jump c.ahead kind bare) (g'.jump c.ahead kind bare) c
      (fun e c' => Grown ts c e.tree c') := by
  apply Yields.bind (.skip_one hc)
  intro _ c₁ h₁
  extract_lets node rest rest'
  have hrest (c₂) (h₂ : c₁.Moves ts c₂) :
      Yields ts (rest ()) (rest' ()) c₂ (fun e c' => Grown ts c e.tree c') := by
    have hnode (value : List Expr) (c₃) (h₃ : AllGrown ts c₂ (exprTrees value) c₃) :
        Yields ts (node value) (node value) c₃ (fun e c' => Grown ts c e.tree c') :=
      .spanFrom _ (.pure (.node hc (h₁.trans h₂) h₃ rfl))
    have hnone := hnode [] c₂ (.nil h₂.on.stays)
    refine .ite (fun _ => ?_) fun _ => hnone
    refine .looking (canStart_looks bare) fun _ _ => .ite (fun _ => ?_) fun _ => hnone
    apply Yields.bind (hg.expr h₂.on ((h₁.trans h₂).lt hl) bare)
    intro e c₃ h₃
    exact hnode [e] c₃ (h₃.all h₂.on)
  refine .ite (fun _ => ?_) fun _ => hrest c₁ h₁.on.stays
  exact .bind (.acceptKind h₁.on .lifetime) fun _ c₂ h₂ => hrest c₂ h₂.moves

/-! ### Primary expressions -/

theorem Reads.labeled (hg : g.Reads ts n g') (hc : c.On ts) (hl : c.rest.length ≤ n)
    (hr : c.rest = t :: us) (bare : Bool) :
    Yields ts (g.labeled t bare) (g'.labeled t bare) c (fun e c' => Grown ts c e.tree c') := by
  apply Yields.bind (.skip_one hc)
  intro _ c₁ h₁
  apply Yields.bind (.expect h₁.on ":")
  intro _ c₂ h₂
  have h := h₁.trans h₂.passes.moves
  refine .bind (hg.primary h.on (h.lt hl) bare) fun inner c₃ h₃ => .pure ?_
  exact .prefixed hc h h₃ (by rw [Expr.tree_span, Cursor.ahead_of_rest hr]; rfl)

theorem qualifiedPath_yields (hc : c.On ts) :
    Yields ts (qualifiedPath c.ahead) (qualifiedPath c.ahead) c
      (fun e c' => Grown ts c e.tree c') := by
  apply Yields.bind (.skipGenerics hc)
  intro _ c₁ h₁
  refine .bind (Yields.repeat h₁.on fun c₂ h₂ => ?_) fun _ c₂ h₂ => .spanFrom _ (.pure ?_)
  · refine .bind (.accept h₂.on "::") fun _ c₃ h₃ => .ite (fun _ => ?_) fun _ => ?_
    · refine .bind (.expectName h₃.moves.on) fun _ c₄ h₄ => .pure ?_
      have h := h₃.moves.trans_passes h₄
      exact ⟨h.moves, fun _ => h⟩
    · exact .pure ⟨h₃.moves, nofun⟩
  · exact .node hc h₁ (.nil h₂) rfl

/-- At a stray mark reading never ends. -/
theorem Reads.primary_stray (hg : g.Reads ts n g') (hc : c.On ts) (hm : StrayMark c.rest)
    (bare : Bool) {Q : Expr → Cursor → Prop} :
    Yields ts (g.primary bare) (g'.primary bare) c Q := by
  obtain ⟨h, h'⟩ := hg.stray hm bare
  rw [Yields, h, h']
  exact ⟨rfl, c.rest, hc.suffix, hm⟩

theorem Reads.punctPrimary (hg : g.Reads ts n g') (hc : c.On ts) (hl : c.rest.length ≤ n)
    (hr : c.rest = t :: us) (ht : t.kind = .punct) (bare : Bool) :
    Yields ts (g.punctPrimary t bare) (g'.punctPrimary t bare) c
      (fun e c' => Grown ts c e.tree c') := by
  have hlo := Cursor.ahead_of_rest hr
  refine .ite (fun _ => ?_) fun _ => ?_
  · rw [← hlo]
    exact hg.closure hc hc.stays hl bare false
  refine .ite (fun _ => ?_) fun _ => ?_
  · have hn : 0 < n := Nat.lt_of_lt_of_le (by simp [hr]) hl
    exact .bind (hg.blockHere hc hn hl .plain) fun _ _ h => .pure h
  refine .ite (fun _ => hg.parenthesised hc hl) fun _ => ?_
  refine .ite (fun _ => hg.array hc hl) fun _ => ?_
  refine .ite (fun hv => ?_) fun _ => ?_
  · refine .bind (.skipAttributes_stray hc) fun _ c₁ ⟨h₁, hstray⟩ => ?_
    rcases hstray with h | ⟨rfl, hm⟩
    · exact (hg.primary h₁.on (h.lt hl) bare).imp fun _ _ he => he.before hc h₁
    · exact hg.primary_stray hc (hm t us hr (by simp [Token.isPunct, ht, hv])) bare
  refine .ite (fun _ => ?_) fun _ => ?_
  · rw [← hlo]
    exact qualifiedPath_yields hc
  exact .ite (fun _ => hg.pathLike hc hl bare) fun _ => .reject ..

/-- A block or closure behind `async`; where none follows nothing is read. -/
theorem Reads.async? (hg : g.Reads ts n g') (hc : c.On ts) (hl : c.rest.length ≤ n)
    (bare : Bool) :
    Yields ts (g.async? c.ahead bare) (g'.async? c.ahead bare) c
      (fun o c' => o = none ∧ c' = c ∨ ∃ e : Expr, o = some e ∧ Grown ts c e.tree c') := by
  have hblock (k : Nat) (hk : 0 < k) : Yields ts
      (do
        skip k
        return some (Expr.block (← g.block .async (some c.ahead))))
      (do
        skip k
        return some (Expr.block (← g'.block .async (some c.ahead)))) c
      (fun o c' => o = none ∧ c' = c ∨ ∃ e : Expr, o = some e ∧ Grown ts c e.tree c') := by
    apply Yields.bind (.skip_pos hc hk)
    intro _ c₁ h₁
    apply Yields.bind (hg.blockFrom hc h₁.moves (h₁.lt hl) .async)
    intro b c₂ h₂
    exact .pure (.inr ⟨.block b, rfl, h₂⟩)
  have hclosure (k : Nat) (hk : 0 < k) (captures : Bool) : Yields ts
      (do
        skip k
        return some (← g.closure c.ahead bare captures))
      (do
        skip k
        return some (← g'.closure c.ahead bare captures)) c
      (fun o c' => o = none ∧ c' = c ∨ ∃ e : Expr, o = some e ∧ Grown ts c e.tree c') := by
    apply Yields.bind (.skip_pos hc hk)
    intro _ c₁ h₁
    apply Yields.bind (hg.closure hc h₁.moves hl bare captures)
    intro e c₂ h₂
    exact .pure (.inr ⟨e, rfl, h₂⟩)
  have hlast : Yields ts
      (do
        if ← looksAtOneOf 1 ["|", "||"] then
          skip 1
          return some (← g.closure c.ahead bare false)
        return none)
      (do
        if ← looksAtOneOf 1 ["|", "||"] then
          skip 1
          return some (← g'.closure c.ahead bare false)
        return none) c
      (fun o c' => o = none ∧ c' = c ∨ ∃ e : Expr, o = some e ∧ Grown ts c e.tree c') :=
    .looksAtOneOf 1 _ (.ite (fun _ => hclosure 1 Nat.one_pos false) fun _ => .pure (.inl ⟨rfl, rfl⟩))
  refine .looksAt 1 "\x7b" (.ite (fun _ => hblock 1 Nat.one_pos) fun _ => ?_)
  refine .looksAt 1 "move" (.ite (fun _ => ?_) fun _ => hlast)
  refine .looksAt 2 "\x7b" (.ite (fun _ => hblock 2 Nat.two_pos) fun _ => ?_)
  exact .looksAtOneOf 2 _ (.ite (fun _ => hclosure 2 Nat.two_pos true) fun _ => hlast)

/-- A block or closure behind a keyword; where none follows nothing is read. -/
theorem Reads.marked? (hg : g.Reads ts n g') (hc : c.On ts) (hl : c.rest.length ≤ n)
    (hr : c.rest = t :: us) (bare : Bool) :
    Yields ts (g.marked? t bare) (g'.marked? t bare) c
      (fun o c' => o = none ∧ c' = c ∨ ∃ e : Expr, o = some e ∧ Grown ts c e.tree c') := by
  unfold Grammar.marked?
  rw [← Cursor.ahead_of_rest hr]
  have hnone : Yields ts (pure none) (pure none) c
      (fun o c' => o = none ∧ c' = c ∨ ∃ e : Expr, o = some e ∧ Grown ts c e.tree c') :=
    .pure (.inl ⟨rfl, rfl⟩)
  refine .ite (fun _ => .looksAtOneOf 1 _ (.ite (fun _ => ?_) fun _ => hnone)) fun _ => ?_
  · apply Yields.bind (.skip_one hc)
    intro _ c₁ h₁
    apply Yields.bind (hg.closure hc h₁.moves hl bare true)
    intro e c₂ h₂
    exact .pure (.inr ⟨e, rfl, h₂⟩)
  refine .ite (fun _ => hg.async? hc hl bare) fun _ => ?_
  refine .ite (fun _ => .looksAt 1 "\x7b" (.ite (fun _ => ?_) fun _ => hnone)) fun _ => hnone
  apply Yields.bind (.skip_one hc)
  intro _ c₁ h₁
  apply Yields.bind (hg.blockFrom hc h₁.moves (h₁.lt hl) _)
  intro b c₂ h₂
  exact .pure (.inr ⟨.block b, rfl, h₂⟩)

theorem Reads.plainWord (hg : g.Reads ts n g') (hc : c.On ts) (hl : c.rest.length ≤ n)
    (hr : c.rest = t :: us) (bare : Bool) :
    Yields ts (g.plainWord t bare) (g'.plainWord t bare) c (fun e c' => Grown ts c e.tree c') := by
  unfold Grammar.plainWord
  rw [← Cursor.ahead_of_rest hr]
  refine .ite (fun _ => hg.conditionalOf hc hl) fun _ => ?_
  refine .ite (fun _ => hg.choice hc hl) fun _ => ?_
  refine .ite (fun _ => hg.loop hc hl) fun _ => ?_
  refine .ite (fun _ => hg.whileLoop hc hl) fun _ => ?_
  refine .ite (fun _ => hg.forLoop hc hl) fun _ => ?_
  refine .ite (fun _ => hg.letCondition hc hl) fun _ => ?_
  cases jump? t.value with
  | some kind => exact hg.jump hc hl kind bare
  | none => exact hg.pathLike hc hl bare

theorem Reads.wordPrimary (hg : g.Reads ts n g') (hc : c.On ts) (hl : c.rest.length ≤ n)
    (hr : c.rest = t :: us) (bare : Bool) :
    Yields ts (g.wordPrimary t bare) (g'.wordPrimary t bare) c
      (fun e c' => Grown ts c e.tree c') := by
  refine .ite (fun _ => ?_) fun _ => ?_
  · exact .bind (.skip_one hc) fun _ c₁ h₁ => .pure (Grown.token hc hr h₁ rfl)
  apply Yields.bind (hg.marked? hc hl hr bare)
  intro o c₁ h₁
  obtain ⟨rfl, rfl⟩ | ⟨e, rfl, he⟩ := h₁
  · exact hg.plainWord hc hl hr bare
  · exact .pure he

theorem Reads.primaryOf (hg : g.Reads ts n g') (hc : c.On ts) (hl : c.rest.length ≤ n)
    (bare : Bool) :
    Yields ts (g.primaryOf bare) (g'.primaryOf bare) c (fun e c' => Grown ts c e.tree c') := by
  refine .lookNext (fun _ => .rejectEnd _) fun t us hr => ?_
  dsimp only
  cases ht : t.kind with
  | string => exact .bind (.skip_one hc) fun _ c₁ h₁ => .pure (Grown.token hc hr h₁ rfl)
  | char => exact .bind (.skip_one hc) fun _ c₁ h₁ => .pure (Grown.token hc hr h₁ rfl)
  | number => exact .bind (.skip_one hc) fun _ c₁ h₁ => .pure (Grown.token hc hr h₁ rfl)
  | lifetime => exact hg.labeled hc hl hr bare
  | punct => exact hg.punctPrimary hc hl hr ht bare
  | ident => exact hg.wordPrimary hc hl hr bare

/-- A mark that begins no attribute is passed on to the grammar below as it stands. -/
theorem primaryOf_stray {g : Grammar} (hm : StrayMark c.rest) {bare : Bool}
    (h : g.primary bare c = .error .endless) : g.primaryOf bare c = .error .endless := by
  have hskip := Parse.skipAttributes_stray hm
  obtain ⟨_ | ⟨t, us⟩, last⟩ := c
  · exact hm.elim
  have ht := hm.1
  simp only [Token.isPunct, Bool.and_eq_true, beq_iff_eq] at ht
  rw [primaryOf, bind_of_ok (show look 0 _ = .ok (some t, _) from rfl)]
  simp only [ht.1, punctPrimary, ht.2]
  rw [← h]
  exact bind_of_ok hskip

end BuilderMigration.Grammar
