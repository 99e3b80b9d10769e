import BuilderMigration.Proofs.Likeness.Primary

/-! From primary to full expressions over tokens that are like others. A span that is put together from
those of two parts goes where they go. -/

namespace BuilderMigration.Grammar

open Parse

variable {M : Likeness} {b : Prop} {g : Grammar} {e : Expr}

/-! ### Suffixes -/

theorem Respects.member (hg : g.Respects M) (he : e.Written M.Named) :
    Alike M b True (g.member e) (g.member (M.expr e)) (Mapped M.expr (Expr.Written M.Named)) := by
  apply Alike.bind (.skip_succ 0)
  intro _ _ _
  apply Alike.look 0 (.rejectEnd _)
  intro t t' ht
  dsimp -zeta only
  rw [Relabeling.span_expr, ht.kind, ht.hi]
  have hnode (kind : CompoundKind) : Alike M True True
      (pure (.compound ⟨e.span.lo, t.hi, 0⟩ none kind [e]) : Parse Expr)
      (pure (.compound ⟨(M.span e.span).lo, M.place t.hi, 0⟩ none kind [M.expr e]))
      (Mapped M.expr (Expr.Written M.Named)) :=
    compound_alike ⟨e.span.lo, t.hi, 0⟩ _ [e] (by simpa using he)
  apply Alike.ite (.bind (.skip 1) fun _ _ _ => hnode .field)
  apply Alike.bind .expectName
  rintro name _ ⟨rfl, hname⟩
  apply Alike.asking (M.name_eq_iff (by decide) name) (hnode .await)
  apply Alike.seeing (.nextIs (by decide))
  intro colons
  apply Alike.seeing (.looksAt 1 (by decide))
  intro angle
  extract_lets rest rest'
  have hrest : Alike M True True (rest ()) (rest' ()) (Mapped M.expr (Expr.Written M.Named)) := by
    apply Alike.seeing (.nextIs (by decide))
    intro opens
    refine .ite ?_ (hnode .field)
    apply Alike.bind hg.callArgs
    rintro ⟨args, hi⟩ ⟨_, _⟩ ⟨⟨rfl, hargs⟩, rfl⟩
    refine .pure ⟨?_, ?_⟩
    · rw [Relabeling.expr, M.exprs_eq_map]
      rfl
    · rw [Expr.Written, Expr.Named]
      exact ⟨fun _ hty => absurd hty (Option.not_mem_none _), he, hname, exprsNamed_iff.2 hargs⟩
  refine .ite ?_ hrest
  apply Alike.bind (.skip 1)
  intro _ _ _
  exact .bind .skipGenerics fun _ _ _ => hrest

theorem Respects.suffix (hg : g.Respects M) (he : e.Written M.Named) :
    Alike M True True (g.suffix e) (g.suffix (M.expr e))
      (StepLike (Mapped M.expr (Expr.Written M.Named)) (Mapped M.expr (Expr.Written M.Named))) := by
  have hnode {hi : Int} {kind : CompoundKind} (more : List Expr) (h : ∀ e ∈ more, e.Written M.Named) :
      Alike M True True
        (pure (.inl (.compound ⟨e.span.lo, hi, 0⟩ none kind (e :: more))) : Parse (Expr ⊕ Expr))
        (pure (.inl (.compound ⟨(M.expr e).span.lo, M.place hi, 0⟩ none kind
          ((e :: more).map M.expr))))
        (StepLike (Mapped M.expr (Expr.Written M.Named)) (Mapped M.expr (Expr.Written M.Named))) := by
    refine .pure (.inl ⟨?_, ?_⟩)
    · rw [Relabeling.expr, M.exprs_eq_map, Relabeling.span_expr]
      rfl
    · rw [Expr.Written, Expr.Named, exprsNamed_iff]
      exact ⟨fun _ hty => absurd hty (Option.not_mem_none _), by simpa using ⟨he, h⟩⟩
  apply Alike.seeing (.nextIs (by decide))
  intro question
  refine .ite (.bind .next ?_) ?_
  · intro t t' ht
    rw [ht.hi]
    exact hnode [] (List.forall_mem_nil _)
  apply Alike.seeing (.nextIs (by decide))
  intro dot
  refine .ite (.bind (hg.member he) fun _ _ h => .pure (.inl h)) ?_
  apply Alike.seeing (.nextIs (by decide))
  intro opens
  refine .ite (.bind hg.callArgs ?_) ?_
  · rintro ⟨args, hi⟩ ⟨_, _⟩ ⟨⟨rfl, hargs⟩, rfl⟩
    exact hnode args hargs
  apply Alike.seeing (.nextIs (by decide))
  intro opens
  refine .ite ?_ (.pure (.inr ⟨rfl, he⟩))
  apply Alike.bind (.skip 1)
  intro _ _ _
  apply Alike.bind (hg.expr false)
  rintro index _ ⟨rfl, hindex⟩
  apply Alike.bind (.expect (by decide))
  intro close close' hclose
  rw [hclose.hi]
  exact hnode [index] (by simpa using hindex)

theorem Respects.suffixes (hg : g.Respects M) (he : e.Written M.Named) :
    Alike M True True (g.suffixes e) (g.suffixes (M.expr e))
      (Mapped M.expr (Expr.Written M.Named)) := by
  apply Alike.iterate (I := Mapped M.expr (Expr.Written M.Named)) ⟨rfl, he⟩
  rintro e _ ⟨rfl, he⟩
  exact hg.suffix he

/-! ### Operators -/

theorem Respects.unaryOf (hg : g.Respects M) (bare : Bool) :
    Alike M b True (g.unaryOf bare) (g.unaryOf bare) (Mapped M.expr (Expr.Written M.Named)) := by
  have hplain : Alike M b True (do g.suffixes (← g.primaryOf bare))
      (do g.suffixes (← g.primaryOf bare)) (Mapped M.expr (Expr.Written M.Named)) := by
    apply Alike.bind (hg.primaryOf bare)
    rintro e _ ⟨rfl, he⟩
    exact hg.suffixes he
  apply Alike.look 0 hplain
  intro t t' ht
  simp only [ht.isPunct, ht.lo]
  have hoperand (kind : CompoundKind) {b : Prop} : Alike M b True
      (do
        let operand ← g.unary bare
        return .compound ⟨t.lo, operand.span.hi, 0⟩ none kind [operand] : Parse Expr)
      (do
        let operand ← g.unary bare
        return .compound ⟨M.place t.lo, operand.span.hi, 0⟩ none kind [operand])
      (Mapped M.expr (Expr.Written M.Named)) := by
    apply Alike.bind (hg.unary bare)
    rintro operand _ ⟨rfl, hoperand⟩
    rw [Relabeling.span_expr]
    exact compound_alike ⟨t.lo, operand.span.hi, 0⟩ _ [operand] (by simpa using hoperand)
  refine .ite (.bind (.skip 1) fun _ _ _ => hoperand .unary) (.ite ?_ hplain)
  apply Alike.bind (.skip 1)
  intro _ _ _
  exact .bind (.accept (by decide)) fun _ _ _ => hoperand .borrow

theorem Respects.casts (hg : g.Respects M) (bare : Bool) :
    Alike M b True (g.casts bare) (g.casts bare) (Mapped M.expr (Expr.Written M.Named)) := by
  apply Alike.bind (hg.unaryOf bare)
  intro e e' he
  apply Alike.iterate (I := Mapped M.expr (Expr.Written M.Named)) he
  rintro e _ ⟨rfl, he⟩
  apply Alike.bind (.accept (by decide))
  rintro cast _ rfl
  refine .ite ?_ (.pure (.inr ⟨rfl, he⟩))
  apply Alike.bind hg.ty
  intro _ _ _
  rw [Relabeling.span_expr]
  apply Alike.bind (.spanFrom e.span.lo)
  rintro span _ rfl
  refine .pure (.inl ⟨rfl, ?_⟩)
  simpa [Expr.Written, Expr.Named, ExprsNamed] using he

/-- A compound from the start of one expression to the end of another. -/
theorem join_alike {kind : CompoundKind} {e' : Expr} (he : e.Written M.Named)
    (he' : e'.Written M.Named) :
    Mapped M.expr (Expr.Written M.Named)
      (.compound (e.span.through e'.span) none kind [e, e'])
      (.compound ((M.expr e).span.through (M.expr e').span) none kind [M.expr e, M.expr e']) := by
  refine ⟨?_, ?_⟩
  · rw [Relabeling.span_expr, Relabeling.span_expr, M.span_through fun _ _ => M.place_le]
    rfl
  · simpa [Expr.Written, Expr.Named, ExprsNamed] using ⟨he, he'⟩

theorem Respects.binaryFrom (hg : g.Respects M) (strength : Nat) (bare : Bool) (he : e.Written M.Named) :
    Alike M True True (g.binaryFrom strength bare e) (g.binaryFrom strength bare (M.expr e))
      (Mapped M.expr (Expr.Written M.Named)) := by
  apply Alike.iterate (I := Mapped M.expr (Expr.Written M.Named)) ⟨rfl, he⟩
  rintro left _ ⟨rfl, hleft⟩
  apply Alike.seeing pendingOperator_sees
  intro operator
  match operator with
  | none => exact .pure (.inr ⟨rfl, hleft⟩)
  | some (s, width) =>
    apply Alike.ite (.pure (.inr ⟨rfl, hleft⟩))
    apply Alike.bind (.skip width)
    intro _ _ _
    apply Alike.bind (hg.operand (s + 1) bare)
    rintro right _ ⟨rfl, hright⟩
    exact .pure (.inl (join_alike hleft hright))

theorem Respects.operandOf (hg : g.Respects M) (strength : Nat) (bare : Bool) :
    Alike M b True (g.operandOf strength bare) (g.operandOf strength bare)
      (Mapped M.expr (Expr.Written M.Named)) := by
  apply Alike.bind (hg.casts bare)
  rintro e _ ⟨rfl, he⟩
  exact hg.binaryFrom strength bare he

/-! ### Ranges and assignments -/

theorem Respects.rangeFrom (hg : g.Respects M) (bare : Bool) (he : e.Written M.Named) :
    Alike M True True (g.rangeFrom bare e) (g.rangeFrom bare (M.expr e))
      (Mapped M.expr (Expr.Written M.Named)) := by
  apply Alike.seeing (.looksAtOneOf 0 (by decide))
  intro range
  refine .ite ?_ (.pure ⟨rfl, he⟩)
  apply Alike.bind .next
  intro mark mark' hmark
  rw [hmark.hi]
  apply Alike.seeing (canStart_sees bare)
  intro starts
  apply Alike.ite
  · apply Alike.bind (hg.operand 0 bare)
    rintro upper _ ⟨rfl, hupper⟩
    exact .pure (join_alike he hupper)
  · rw [Relabeling.span_expr]
    exact compound_alike ⟨e.span.lo, mark.hi, 0⟩ _ [e] (by simpa using he)

theorem Respects.rangeOf (hg : g.Respects M) (bare : Bool) :
    Alike M b True (g.rangeOf bare) (g.rangeOf bare) (Mapped M.expr (Expr.Written M.Named)) := by
  apply Alike.seeing (.looksAtOneOf 0 (by decide))
  intro range
  apply Alike.ite
  · apply Alike.bind .next
    intro mark mark' hmark
    rw [hmark.lo, hmark.hi]
    apply Alike.seeing (canStart_sees bare)
    intro starts
    apply Alike.ite
    · apply Alike.bind (hg.operand 0 bare)
      rintro upper _ ⟨rfl, hupper⟩
      rw [Relabeling.span_expr]
      exact compound_alike ⟨mark.lo, upper.span.hi, 0⟩ _ [upper] (by simpa using hupper)
    · exact compound_alike ⟨mark.lo, mark.hi, 0⟩ _ [] nofun
  · apply Alike.bind (hg.operandOf 0 bare)
    rintro e _ ⟨rfl, he⟩
    exact hg.rangeFrom bare he

theorem Respects.assignFrom (hg : g.Respects M) (bare : Bool) (he : e.Written M.Named) :
    Alike M True True (g.assignFrom bare e) (g.assignFrom bare (M.expr e))
      (Mapped M.expr (Expr.Written M.Named)) := by
  apply Alike.seeing assignWidth_sees
  intro width
  match width with
  | 0 => exact .pure ⟨rfl, he⟩
  | width + 1 =>
    apply Alike.bind (.skip (width + 1))
    intro _ _ _
    apply Alike.bind (hg.expr bare)
    rintro right _ ⟨rfl, hright⟩
    exact .pure (join_alike he hright)

theorem Respects.exprOf (hg : g.Respects M) (bare : Bool) :
    Alike M b True (g.exprOf bare) (g.exprOf bare) (Mapped M.expr (Expr.Written M.Named)) := by
  apply Alike.bind (hg.rangeOf bare)
  rintro e _ ⟨rfl, he⟩
  exact hg.assignFrom bare he

theorem Respects.exprFrom (hg : g.Respects M) (he : e.Written M.Named) :
    Alike M True True (g.exprFrom e) (g.exprFrom (M.expr e))
      (Mapped M.expr (Expr.Written M.Named)) := by
  apply Alike.bind (hg.binaryFrom 0 false he)
  rintro e _ ⟨rfl, he⟩
  apply Alike.bind (hg.rangeFrom false he)
  rintro e _ ⟨rfl, he⟩
  exact hg.assignFrom false he

end BuilderMigration.Grammar
