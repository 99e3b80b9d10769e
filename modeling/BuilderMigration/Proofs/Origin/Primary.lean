import BuilderMigration.Proofs.Origin.Paths

/-! The productions of primary expressions. The attributes in front of one are the only tokens that it
passes over before it begins. -/

namespace BuilderMigration.Grammar

open Parse

variable {ts us : List Token} {m : Nat} {g : Grammar} {c c' : Cursor} {t : Token}

/-! ### Expressions with keywords -/

theorem Traces.conditionalOf (hg : g.Traces ts m) (hc : c.On ts) (hl : c.rest.length ≤ m) :
    Makes g.conditionalOf c fun e c' => Traced ts c e.tree c' := by
  refine .traced (hg.reads.conditionalOf hc hl) (.bind (.expect hc "if") fun start c₁ ⟨h₁, _⟩ => ?_)
  rw [← Cursor.ahead_of_rest h₁.rest]
  refine .bind (hg.expr h₁.passes.on (h₁.passes.lt hl) true) fun condition c₂ h₂ => ?_
  have h₂' := h₁.passes.trans h₂.passes.moves
  refine .bind (hg.block h₂'.on (h₂'.lt hl) .plain) fun body c₃ h₃ => ?_
  have h₃' := h₂'.trans h₃.passes.moves
  refine .bind (Yields.accept h₃'.on "else").makes fun _ c₄ h₄ => ?_
  have h₄' := h₃'.trans h₄.moves
  extract_lets node
  have hnode (c₅) (otherwise : List Expr) (ho : ∀ e ∈ otherwise, e.tree.Sourced ts) :
      Makes (node otherwise) c₅ fun e c' => Placed ts c e.tree c' := by
    refine .spanFrom _ (.pure (.whole rfl trivial (allSourced_exprTrees ?_)))
    exact List.forall_mem_cons.2 ⟨h₂.sourced, List.forall_mem_cons.2 ⟨h₃.sourced, ho⟩⟩
  refine .ite (fun _ => .looksAt 0 "if" (.ite (fun _ => ?_) fun _ => ?_)) fun _ => hnode c₄ [] nofun
  · refine .bind (hg.conditional h₄'.on (h₄'.lt hl)) fun e c₅ h₅ => ?_
    exact hnode c₅ [e] (List.forall_mem_singleton.2 h₅.sourced)
  · refine .bind (hg.block h₄'.on (h₄'.lt hl) .plain) fun b c₅ h₅ => ?_
    exact hnode c₅ [.block b] (List.forall_mem_singleton.2 h₅.sourced)

theorem Traces.arm (hg : g.Traces ts m) (hc : c.On ts) (hl : c.rest.length < m) :
    Makes g.arm c fun es c' => c.Passes ts c' ∧ ∀ e ∈ es, e.tree.Sourced ts := by
  refine ((hg.reads.arm hc hl).makes.imp fun _ _ h => h.1).and ?_
  refine .bind (Yields.skipAttributes hc).makes fun _ c₁ h₁ => ?_
  refine .bind (Yields.accept h₁.on "|").makes fun _ c₂ h₂ => ?_
  refine .bind (pattern_yields h₂.moves.on _).makes fun _ c₃ h₃ => ?_
  refine .bind (Yields.accept h₃.on "if").makes fun _ c₄ h₄ => ?_
  have h₄' := h₁.trans (h₂.moves.trans (h₃.moves.trans h₄.moves))
  extract_lets rest
  have hrest (c₅) (guards : List Expr) (h₅ : c.Moves ts c₅) (hguards : ∀ e ∈ guards, e.tree.Sourced ts) :
      Makes (rest guards) c₅ fun es _ => ∀ e ∈ es, e.tree.Sourced ts := by
    refine .bind (Yields.expect h₅.on "=>").makes fun _ c₆ h₆ => ?_
    have h₆' := h₅.trans h₆.passes.moves
    refine .bind (hg.statementExpr h₆'.on (h₆'.lt hl)) fun value c₇ h₇ => ?_
    refine .bind .any fun _ _ _ => .pure (List.forall_mem_append.2 ⟨hguards, ?_⟩)
    exact List.forall_mem_singleton.2 h₇.sourced
  refine .ite (fun _ => ?_) fun _ => hrest c₄ [] h₄' nofun
  refine .bind (hg.expr h₄'.on (h₄'.lt hl) false) fun e c₅ h₅ => ?_
  exact hrest c₅ [e] (h₄'.trans h₅.passes.moves) (List.forall_mem_singleton.2 h₅.sourced)

theorem Traces.choice (hg : g.Traces ts m) (hc : c.On ts) (hl : c.rest.length ≤ m) :
    Makes g.choice c fun e c' => Traced ts c e.tree c' := by
  refine .traced (hg.reads.choice hc hl) (.bind (.expect hc "match") fun start c₁ ⟨h₁, _⟩ => ?_)
  rw [← Cursor.ahead_of_rest h₁.rest]
  refine .bind (hg.expr h₁.passes.on (h₁.passes.lt hl) true) fun scrutinee c₂ h₂ => ?_
  refine .bind (Yields.expect h₂.passes.on "\x7b").makes fun _ c₃ h₃ => ?_
  refine .bind (Yields.skipAttributes h₃.passes.on).makes fun _ c₄ h₄ => ?_
  have h₄' := h₁.passes.trans (h₂.passes.moves.trans (h₃.passes.moves.trans h₄))
  refine .bind (Makes.collect (Q := fun _ arms _ _ => ∀ e ∈ arms.flatten, e.tree.Sourced ts) h₄.on
    fun c₅ h₅ => ?_) fun r c₅ hr => .bind .any fun _ c₆ _ => ?_
  · refine .nextIs "\x7d" (fun _ _ _ _ => .pure nofun) fun _ => ?_
    refine .bind (hg.arm h₅.on ((h₄'.trans h₅).lt hl)) fun es c₆ h₆ => .pure ⟨h₆.1, fun _ _ _ hq => ?_⟩
    exact List.forall_mem_append.2 ⟨h₆.2, hq⟩
  · refine .spanFrom _ (.pure (.whole rfl trivial (allSourced_exprTrees ?_)))
    exact List.forall_mem_cons.2 ⟨h₂.sourced, hr⟩

theorem Traces.loop (hg : g.Traces ts m) (hc : c.On ts) (hl : c.rest.length ≤ m) :
    Makes (g.loop c.ahead) c fun e c' => Traced ts c e.tree c' := by
  refine .traced (hg.reads.loop hc hl) (.bind (Yields.skip_one hc).makes fun _ c₁ h₁ => ?_)
  refine .bind (hg.block h₁.on (h₁.lt hl) .plain) fun body c₂ h₂ => ?_
  exact .spanFrom _ (.pure (.whole rfl trivial (List.forall_mem_singleton.2 h₂.sourced)))

theorem Traces.whileLoop (hg : g.Traces ts m) (hc : c.On ts) (hl : c.rest.length ≤ m) :
    Makes (g.whileLoop c.ahead) c fun e c' => Traced ts c e.tree c' := by
  refine .traced (hg.reads.whileLoop hc hl) (.bind (Yields.skip_one hc).makes fun _ c₁ h₁ => ?_)
  refine .bind (hg.expr h₁.on (h₁.lt hl) true) fun condition c₂ h₂ => ?_
  have h₂' := h₁.trans h₂.passes.moves
  refine .bind (hg.block h₂'.on (h₂'.lt hl) .plain) fun body c₃ h₃ => .spanFrom _ (.pure ?_)
  exact .whole rfl trivial (List.forall_mem_cons.2
    ⟨h₂.sourced, List.forall_mem_singleton.2 h₃.sourced⟩)

theorem Traces.forLoop (hg : g.Traces ts m) (hc : c.On ts) (hl : c.rest.length ≤ m) :
    Makes (g.forLoop c.ahead) c fun e c' => Traced ts c e.tree c' := by
  refine .traced (hg.reads.forLoop hc hl) (.bind (Yields.skip_one hc).makes fun _ c₁ h₁ => ?_)
  refine .bind (pattern_yields h₁.on _).makes fun _ c₂ h₂ => ?_
  refine .bind (Yields.expect h₂.on "in").makes fun _ c₃ h₃ => ?_
  have h₃' := h₁.trans (h₂.trans h₃.passes.moves).moves
  refine .bind (hg.expr h₃'.on (h₃'.lt hl) true) fun iterated c₄ h₄ => ?_
  have h₄' := h₃'.trans h₄.passes.moves
  refine .bind (hg.block h₄'.on (h₄'.lt hl) .plain) fun body c₅ h₅ => .spanFrom _ (.pure ?_)
  exact .whole rfl trivial (List.forall_mem_cons.2
    ⟨h₄.sourced, List.forall_mem_singleton.2 h₅.sourced⟩)

theorem Traces.letCondition (hg : g.Traces ts m) (hc : c.On ts) (hl : c.rest.length ≤ m) :
    Makes (g.letCondition c.ahead) c fun e c' => Traced ts c e.tree c' := by
  refine .traced (hg.reads.letCondition hc hl) (.bind (Yields.skip_one hc).makes fun _ c₁ h₁ => ?_)
  refine .bind (pattern_yields h₁.on _).makes fun _ c₂ h₂ => ?_
  refine .bind (Yields.expect h₂.on "=").makes fun _ c₃ h₃ => ?_
  have h₃' := h₁.trans (h₂.trans h₃.passes.moves).moves
  refine .bind (hg.operand h₃'.on (h₃'.lt hl) _ true) fun scrutinee c₄ h₄ => .spanFrom _ (.pure ?_)
  exact .whole rfl trivial (List.forall_mem_singleton.2 h₄.sourced)

theorem Traces.jump (hg : g.Traces ts m) (hc : c.On ts) (hl : c.rest.length ≤ m) (kind : CompoundKind)
    (bare : Bool) : Makes (g.jump c.ahead kind bare) c fun e c' => Traced ts c e.tree c' := by
  refine .traced (hg.reads.jump hc hl kind bare) (.bind (Yields.skip_one hc).makes fun _ c₁ h₁ => ?_)
  extract_lets node rest
  have hrest (c₂) (h₂ : c₁.Moves ts c₂) : Makes (rest ()) c₂ fun e c' => Placed ts c e.tree c' := by
    have hnode (value : List Expr) (c₃) (hv : ∀ e ∈ value, e.tree.Sourced ts) :
        Makes (node value) c₃ fun e c' => Placed ts c e.tree c' :=
      .spanFrom _ (.pure (.whole rfl trivial (allSourced_exprTrees hv)))
    have hnone := hnode [] c₂ nofun
    refine .ite (fun _ => ?_) fun _ => hnone
    refine .looking (canStart_looks bare) fun _ _ => .ite (fun _ => ?_) fun _ => hnone
    refine .bind (hg.expr h₂.on ((h₁.trans h₂).lt hl) bare) fun e c₃ h₃ => ?_
    exact hnode [e] c₃ (List.forall_mem_singleton.2 h₃.sourced)
  refine .ite (fun _ => ?_) fun _ => hrest c₁ h₁.on.stays
  exact .bind (Yields.acceptKind h₁.on .lifetime).makes fun _ c₂ h₂ => hrest c₂ h₂.moves

/-! ### Primary expressions -/

theorem Traces.labeled (hg : g.Traces ts m) (hc : c.On ts) (hl : c.rest.length ≤ m)
    (hr : c.rest = t :: us) (bare : Bool) :
    Makes (g.labeled t bare) c fun e c' => Traced ts c e.tree c' := by
  refine .traced (hg.reads.labeled hc hl hr bare) (.bind (Yields.skip_one hc).makes fun _ c₁ h₁ => ?_)
  refine .bind (Yields.expect h₁.on ":").makes fun _ c₂ h₂ => ?_
  have h := h₁.trans h₂.passes.moves
  refine .bind (hg.primary h.on (h.lt hl) bare) fun inner c₃ h₃ => .pure ?_
  exact .prefixed h₃.toPlaced (by rw [Expr.tree_span, Cursor.ahead_of_rest hr]; rfl) trivial

theorem qualifiedPath_traced (hc : c.On ts) :
    Makes (qualifiedPath c.ahead) c fun e c' => Traced ts c e.tree c' := by
  refine .traced (qualifiedPath_yields hc) (.bind .any fun _ _ _ => .bind .any fun _ _ _ => ?_)
  exact .spanFrom _ (.pure (.whole rfl trivial nofun))

/-- An attribute begins at every mark of one that is not astray. -/
theorem opensAttribute_or_strayMark (hr : c.rest = t :: us) (hk : t.kind = .punct) (hv : t.value = "#") :
    OpensAttribute c.rest ∨ StrayMark c.rest := by
  rw [hr]
  by_cases hopen : OpensAttribute (t :: us)
  · exact .inl hopen
  · refine .inr ⟨by rw [Token.isPunct, hk, hv]; rfl, fun h => hopen ⟨?_, h⟩⟩
    rw [Token.is, hk, hv]
    rfl

/-- A token alone. -/
theorem token_traced (hc : c.On ts) (hr : c.rest = t :: us) {kind : LitKind} :
    Makes (do skip 1; return Expr.lit ⟨t.lo, t.hi, 0⟩ kind) c fun e c' => Traced ts c e.tree c' := by
  have hgrown : Yields ts (do skip 1; return Expr.lit ⟨t.lo, t.hi, 0⟩ kind)
      (do skip 1; return Expr.lit ⟨t.lo, t.hi, 0⟩ kind) c fun e c' => Grown ts c e.tree c' :=
    .bind (.skip_one hc) fun _ c₁ h₁ => .pure (Grown.token hc hr h₁ rfl)
  refine .traced hgrown ?_
  refine .bind (.skip hc [t] hr) fun _ c₁ ⟨_, h₁⟩ => .pure (.whole ?_ trivial nofun)
  have hlast : c₁.last = t.hi := h₁.last
  rw [hlast, Cursor.ahead_of_rest hr]
  rfl

theorem Traces.punctPrimary (hg : g.Traces ts m) (hc : c.On ts) (hl : c.rest.length ≤ m)
    (hr : c.rest = t :: us) (ht : t.kind = .punct) (bare : Bool) :
    Makes (g.punctPrimary t bare) c fun e c' => Traced ts c e.tree c' := by
  have hlo := Cursor.ahead_of_rest hr
  refine .ite (fun _ => ?_) fun _ => ?_
  · rw [← hlo]
    exact hg.closure hc hc.stays hl bare false
  refine .ite (fun _ => ?_) fun _ => ?_
  · have hn : 0 < m := Nat.lt_of_lt_of_le (by simp [hr]) hl
    exact .bind (hg.blockHere hc hn hl .plain) fun _ _ h => .pure h
  refine .ite (fun _ => hg.parenthesised hc hl) fun _ => ?_
  refine .ite (fun _ => hg.array hc hl) fun _ => ?_
  refine .ite (fun hv => ?_) fun _ => ?_
  · obtain hopen | hm := opensAttribute_or_strayMark hr ht hv
    · refine .bind (Yields.skipAttributes_stray hc).makes fun _ c₁ ⟨h₁, hstray⟩ => ?_
      obtain h | ⟨rfl, hm⟩ := hstray
      · refine (hg.primary h₁.on (h.lt hl) bare).imp fun _ _ he => ?_
        exact ⟨he.toPlaced.before hopen, he.grown.before hc h₁⟩
      · exact (hg.reads.primary_stray hc (hm t us hr (by simp [Token.isPunct, ht, hv])) bare).makes
    · exact .peek (Parse.skipAttributes_stray hm) (hg.reads.primary_stray hc hm bare).makes
  refine .ite (fun _ => ?_) fun _ => ?_
  · rw [← hlo]
    exact qualifiedPath_traced hc
  exact .ite (fun _ => hg.pathLike hc hl bare) fun _ => .rejectAt _ _

/-- A block or closure behind `async`; where none follows nothing is read. -/
theorem Traces.async? (hg : g.Traces ts m) (hc : c.On ts) (hl : c.rest.length ≤ m) (bare : Bool) :
    Makes (g.async? c.ahead bare) c fun o c' => ∀ e ∈ o, Traced ts c (Expr.tree e) c' := by
  have hblock (k : Nat) (hk : 0 < k) : Makes
      (do
        skip k
        return some (Expr.block (← g.block .async (some c.ahead)))) c
      fun o c' => ∀ e ∈ o, Traced ts c (Expr.tree e) c' := by
    refine .bind (Yields.skip_pos hc hk).makes fun _ c₁ h₁ => ?_
    refine .bind (hg.blockFrom hc h₁.moves (h₁.lt hl) .async) fun b c₂ h₂ => .pure ?_
    rintro _ ⟨⟩
    exact h₂
  have hclosure (k : Nat) (hk : 0 < k) (captures : Bool) : Makes
      (do
        skip k
        return some (← g.closure c.ahead bare captures)) c
      fun o c' => ∀ e ∈ o, Traced ts c (Expr.tree e) c' := by
    refine .bind (Yields.skip_pos hc hk).makes fun _ c₁ h₁ => ?_
    refine .bind (hg.closure hc h₁.moves hl bare captures) fun e c₂ h₂ => .pure ?_
    rintro _ ⟨⟩
    exact h₂
  have hlast : Makes
      (do
        if ← looksAtOneOf 1 ["|", "||"] then
          skip 1
          return some (← g.closure c.ahead bare false)
        return none) c
      fun o c' => ∀ e ∈ o, Traced ts c (Expr.tree e) c' :=
    .looksAtOneOf 1 _ (.ite (fun _ => hclosure 1 Nat.one_pos false) fun _ => .pure nofun)
  refine .looksAt 1 "\x7b" (.ite (fun _ => hblock 1 Nat.one_pos) fun _ => ?_)
  refine .looksAt 1 "move" (.ite (fun _ => ?_) fun _ => hlast)
  refine .looksAt 2 "\x7b" (.ite (fun _ => hblock 2 Nat.two_pos) fun _ => ?_)
  exact .looksAtOneOf 2 _ (.ite (fun _ => hclosure 2 Nat.two_pos true) fun _ => hlast)

/-- A block or closure behind a keyword. -/
theorem Traces.marked? (hg : g.Traces ts m) (hc : c.On ts) (hl : c.rest.length ≤ m)
    (hr : c.rest = t :: us) (bare : Bool) :
    Makes (g.marked? t bare) c fun o c' => ∀ e ∈ o, Traced ts c (Expr.tree e) c' := by
  unfold Grammar.marked?
  rw [← Cursor.ahead_of_rest hr]
  refine .ite (fun _ => .looksAtOneOf 1 _ (.ite (fun _ => ?_) fun _ => .pure nofun)) fun _ => ?_
  · refine .bind (Yields.skip_one hc).makes fun _ c₁ h₁ => ?_
    refine .bind (hg.closure hc h₁.moves hl bare true) fun e c₂ h₂ => .pure ?_
    rintro _ ⟨⟩
    exact h₂
  refine .ite (fun _ => hg.async? hc hl bare) fun _ => ?_
  refine .ite (fun _ => .looksAt 1 "\x7b" (.ite (fun _ => ?_) fun _ => .pure nofun)) fun _ => .pure nofun
  refine .bind (Yields.skip_one hc).makes fun _ c₁ h₁ => ?_
  refine .bind (hg.blockFrom hc h₁.moves (h₁.lt hl) _) fun b c₂ h₂ => .pure ?_
  rintro _ ⟨⟩
  exact h₂

theorem Traces.plainWord (hg : g.Traces ts m) (hc : c.On ts) (hl : c.rest.length ≤ m)
    (hr : c.rest = t :: us) (bare : Bool) :
    Makes (g.plainWord t bare) c fun e c' => Traced ts c e.tree c' := by
  unfold Grammar.plainWord
  rw [← Cursor.ahead_of_rest hr]
  refine .ite (fun _ => hg.conditionalOf hc hl) fun _ => ?_
  refine .ite (fun _ => hg.choice hc hl) fun _ => ?_
  refine .ite (fun _ => hg.loop hc hl) fun _ => ?_
  refine .ite (fun _ => hg.whileLoop hc hl) fun _ => ?_
  refine .ite (fun _ => hg.forLoop hc hl) fun _ => ?_
  refine .ite (fun _ => hg.letCondition hc hl) fun _ => ?_
  cases jump? t.value with
  | some kind => exact hg.jump hc hl kind bare
  | none => exact hg.pathLike hc hl bare

theorem Traces.wordPrimary (hg : g.Traces ts m) (hc : c.On ts) (hl : c.rest.length ≤ m)
    (hr : c.rest = t :: us) (bare : Bool) :
    Makes (g.wordPrimary t bare) c fun e c' => Traced ts c e.tree c' := by
  refine .ite (fun _ => token_traced hc hr) fun _ => ?_
  refine .bind ((hg.reads.marked? hc hl hr bare).makes.and (hg.marked? hc hl hr bare))
    fun o c₁ ⟨hread, htraced⟩ => ?_
  obtain ⟨rfl, rfl⟩ | ⟨e, rfl, -⟩ := hread
  · exact hg.plainWord hc hl hr bare
  · exact .pure (htraced e rfl)

theorem Traces.primaryOf (hg : g.Traces ts m) (hc : c.On ts) (hl : c.rest.length ≤ m) (bare : Bool) :
    Makes (g.primaryOf bare) c fun e c' => Traced ts c e.tree c' := by
  refine .lookNext (fun _ => .rejectEnd _) fun t us hr => ?_
  dsimp only
  cases ht : t.kind with
  | string => exact token_traced hc hr
  | char => exact token_traced hc hr
  | number => exact token_traced hc hr
  | lifetime => exact hg.labeled hc hl hr bare
  | punct => exact hg.punctPrimary hc hl hr ht bare
  | ident => exact hg.wordPrimary hc hl hr bare

end BuilderMigration.Grammar
