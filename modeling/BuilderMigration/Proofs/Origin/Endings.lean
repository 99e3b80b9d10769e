import BuilderMigration.Proofs.Origin.Closing

/-! The productions, by where they end. Of those in front of the last one it is enough that they go
forward. -/

namespace BuilderMigration

open Parse

/-- A grammar whose expressions, types, blocks and items end in no dot. -/
structure Grammar.Closing (g : Grammar) : Prop where
  ty : Closes g.ty
  useTree (path) : Forward (g.useTree path)
  expr (bare) : Closes (g.expr bare)
  operand (strength bare) : Closes (g.operand strength bare)
  unary (bare) : Closes (g.unary bare)
  primary (bare) : Closes (g.primary bare)
  statementExpr : Closes g.statementExpr
  conditional : Closes g.conditional
  block (kind lo) : Closes (g.block kind lo)
  item : Closes g.item

namespace Parse

variable {α β : Type} {p : Parse α} {f : α → Parse β} {P : α → Prop} {c : Cursor} {t : Token}

/-! ### Groups and generic arguments -/

theorem sweepFrom_halt {σ : Type} {judge : σ → Token → Verdict σ} {during : Unfinished}
    {ds : List Delimiter} {s : σ} {last : Int} {us : List Token} {c' : Cursor}
    (h : sweepFrom judge (some during) ds s last us = .ok c') :
    ∃ t vs s, c'.rest = t :: vs ∧ judge s t = .halt := by
  induction us generalizing ds s last with
  | nil => cases ds <;> cases h
  | cons t us ih =>
    cases ds with
    | nil =>
      rw [Parse.sweepFrom] at h
      split at h
      · next hhalt =>
        obtain rfl := Except.ok.inj h
        exact ⟨t, us, s, rfl, hhalt⟩
      · cases h
      · exact ih h
    | cons d ds =>
      rw [Parse.sweepFrom] at h
      split at h
      · exact ih h
      · split at h
        · split at h
          · exact ih h
          · cases h
        · exact ih h

theorem Closes.skipGenerics : Closes skipGenerics := by
  refine .behind .expect fun _ c => ?_
  refine .bind (Q := fun _ c₁ => c₁.rest <:+ c.rest ∧ ∃ t vs, c₁.rest = t :: vs ∧ t.isPunct ">" = true)
    ?_ fun _ c₁ ⟨h₁, t, vs, hr, ht⟩ => .bind (.nextClosed hr ?_) fun _ _ h => .pure (.behind h₁ h)
  · refine (Forward.sweep _ _ _ c).and (.peek (a := c) rfl ?_)
    split
    · next c' h =>
      intro _ _ hset
      obtain ⟨-, rfl⟩ := Prod.mk.inj (Except.ok.inj (hset : Except.ok ((), c') = _))
      obtain ⟨t, vs, s, hr, hhalt⟩ := sweepFrom_halt h
      refine ⟨t, vs, hr, ?_⟩
      by_cases hpunct : t.isPunct ">" = true
      · exact hpunct
      · simp only [hpunct] at hhalt
        split at hhalt <;> cases hhalt
    · exact .throw _
  · simp only [Token.isPunct, Bool.and_eq_true, beq_iff_eq] at ht
    simp [Token.isPunct, ht.2]

theorem Forward.skipAttributes : Forward skipAttributes := by
  refine .iterate (fun _ => ?_) ()
  have hmark (n : Nat) : Forward (do Parse.skip n; skipGroup; return .inl () : Parse (Unit ⊕ Unit)) :=
    (Forward.skip n).bind fun _ => Closes.skipGroup.forward.bind fun _ => .pure
  refine .looking (.looksAt 0 "#") fun _ => .ite ?_ .pure
  refine .looking (.looksAt 1 "[") fun _ => .ite (hmark 1) ?_
  refine .looking (.looksAt 1 "!") fun _ => .looking (.looksAt 2 "[") fun _ => .ite (hmark 2) .pure

end Parse

namespace Grammar

variable {g : Grammar}

/-! ### Types and patterns -/

theorem nameEnd_tidy (name : String) : Tidy (do
    if (← nextIs "::") && (← looksAtKind 1 .ident) then
      skip 1
      return .one name
    return .last name () : Parse (Turn String Unit)) := by
  intro c
  refine .nextIs "::" (fun t us hr ht => .looksAtKind 1 .ident (.ite (fun _ => ?_) fun _ => ?_))
    fun _ => .looksAtKind 1 .ident (.ite (fun h => ?_) fun _ => ?_)
  · exact .bind (.skipClosed hr (Token.not_dot_of_is ht (by decide))) fun _ _ h => .pure (.inr h)
  · exact .pure (.inl rfl)
  · simp at h
  · exact .pure (.inl rfl)

theorem Closing.pathType (hg : g.Closing) : Closes g.pathType := by
  refine .behind .accept fun _ => .bind (.collect ?_) fun _ => .pure _
  refine .bind .expectName fun name => ?_
  have hend := nameEnd_tidy name
  refine .looking (.looksAt 0 "<") fun _ => .ite (Closes.skipGenerics.tidy.bind fun _ => hend) ?_
  refine .looking (.looksAt 0 "::") fun _ => .looking (.looksAt 1 "<") fun _ => .ite ?_ ?_
  · exact (Closes.behind (.skip 1) fun _ => Closes.skipGenerics.bind fun _ => hend).tidy
  · refine .looking (.looksAt 0 "(") fun _ => .ite (Closes.skipGroup.tidy.bind fun _ => ?_) hend
    exact (Tidy.accept (by decide)).bind fun _ => .ite (hg.ty.tidy.bind fun _ => hend) hend

theorem Closing.bounds (hg : g.Closing) : Tidy g.bounds := by
  refine .iterate (fun _ => ?_) ()
  have hend : Tidy (do if ← accept "+" then return .inl () else return .inr () : Parse (Unit ⊕ Unit)) :=
    (Tidy.accept (by decide)).bind fun _ => .ite (.pure _) (.pure _)
  have hpath := hg.pathType.tidy.bind fun _ => hend
  refine (Tidy.accept (by decide)).bind fun _ => (Tidy.acceptKind (by decide)).bind fun _ => .ite hend ?_
  refine .looking (.looksAt 0 "(") fun _ => .ite (Closes.skipGroup.tidy.bind fun _ => hend) ?_
  refine (Tidy.accept (by decide)).bind fun _ => .ite (Closes.skipGenerics.tidy.bind fun _ => hpath) hpath

theorem Closing.referenceType (hg : g.Closing) (mark : Token) : Closes (g.referenceType mark) := by
  refine .behind (.skip 1) fun _ => .behind .acceptKind fun _ => ?_
  exact .behind .accept fun _ => hg.ty.bind fun _ => .pure _

theorem Closing.pointerType (hg : g.Closing) : Closes g.pointerType := by
  refine .behind (.skip 1) fun _ => .behind .accept fun _ => ?_
  extract_lets rest
  have hrest : Closes (rest ()) := hg.ty.bind fun _ => .pure _
  exact .ite hrest (.behind .expect fun _ => hrest)

theorem forward_commaList {α : Type} {item : Parse α} (h : Forward item) (close : String) :
    Forward (commaList close item) := by
  refine .collect (.looking (.looksAt 0 close) fun _ => .ite .pure ?_)
  refine h.bind fun _ => Forward.accept.bind fun _ => ?_
  exact .ite .pure .pure

theorem Closing.tupleType (hg : g.Closing) : Closes g.tupleType := by
  refine .behind (.skip 1) fun _ => .behind (forward_commaList hg.ty.forward ")") fun r => ?_
  refine (Closes.expect (by decide)).bind fun _ => ?_
  obtain ⟨_ | ⟨ty, _ | ⟨ty', tys⟩⟩, _ | _⟩ := r <;> exact .pure _

theorem Closing.qualifiedType (hg : g.Closing) : Closes g.qualifiedType := by
  refine Closes.skipGenerics.bind fun _ => Tidy.bind (.iterate (fun _ => ?_) ()) fun _ => .pure _
  exact (Tidy.accept (by decide)).bind fun _ => .ite (hg.pathType.tidy.bind fun _ => .pure _) (.pure _)

theorem Closing.functionType (hg : g.Closing) : Closes g.functionType := by
  refine .behind .accept fun _ => ?_
  refine .behind .accept fun _ => ?_
  extract_lets last rest
  have hlast (u : Unit) : Tidy (last u) := .pure _
  have hrest (u : Unit) : Closes (rest u) := by
    refine .behind .expect fun _ => Closes.skipGroup.bind fun _ => ?_
    exact (Tidy.accept (by decide)).bind fun _ => .ite (hg.ty.tidy.bind fun _ => hlast ()) (hlast ())
  exact .ite (.behind .acceptKind fun _ => hrest ()) (hrest ())

theorem Closing.typeOf (hg : g.Closing) : Closes g.typeOf := by
  intro c
  refine .lookNext (fun _ => .rejectEnd _) fun t us hr => ?_
  have hskip {β : Type} {f : Unit → Parse β} (ht : t.isPunct "." = false) (hf : ∀ u, Tidy (f u)) :
      Makes (skip 1 >>= f) c fun _ c' => c.Closed c' :=
    .bind (.skipClosed hr ht) fun u c₁ h₁ => (hf u c₁).imp fun _ _ h => h₁.keep h
  have hword {v : String} (h : t.isKeyword v = true) : t.isPunct "." = false := by
    rw [Token.isKeyword, Bool.and_eq_true, beq_iff_eq] at h
    exact Token.not_dot_of_kind (by rw [h.1]; decide)
  refine .ite (fun _ => hg.referenceType t c) fun _ => .ite (fun _ => hg.pointerType c) fun _ => ?_
  refine .ite (fun _ => hg.tupleType c) fun _ => ?_
  refine .ite (fun _ => Closes.skipGroup.bind (fun _ => .pure _) c) fun _ => ?_
  refine .ite (fun h => hskip ?_ fun _ => .pure _) fun _ => ?_
  · simp only [Token.isPunct, Bool.and_eq_true, beq_iff_eq] at h
    simp [Token.isPunct, h.2]
  refine .ite (fun _ => hg.qualifiedType c) fun _ => ?_
  refine .ite (fun h => hskip ?_ fun _ => hg.bounds.bind fun _ => .pure _) fun _ => ?_
  · rw [Bool.or_eq_true] at h
    exact h.elim hword hword
  refine .ite (fun _ => ?_) fun _ => .ite (fun _ => hg.functionType c) fun _ => ?_
  · exact Closes.behind (.skip 1) (fun _ => .behind Closes.skipGenerics.forward fun _ => hg.ty) c
  refine .ite (fun h => hskip (Token.not_dot_of_kind (by rw [h]; decide)) fun _ => .pure _) fun _ => ?_
  exact .ite (fun _ => hg.pathType.bind (fun _ => .pure _) c) fun _ => .rejectAt _ _

theorem Closing.declaredType (hg : g.Closing) : Tidy g.declaredType :=
  (Tidy.accept (by decide)).bind fun _ => .ite (hg.ty.tidy.bind fun _ => .pure _) (.pure _)

theorem forward_pattern (stops : List String) : Forward (pattern stops) := by
  have htokens : Forward (patternTokens stops) := by
    intro c
    refine .peek (a := c) rfl (.bind (Forward.sweep _ _ _ c) fun _ c₁ h₁ => .peek (a := c₁) rfl ?_)
    extract_lets after
    clear_value after
    split
    · split
      · exact .rejectAt _ _
      · exact .throw _
    · exact .pure h₁
  exact htokens.bind fun _ => .pure

theorem Closing.useTreeOf (hg : g.Closing) (path : List String) : Forward (g.useTreeOf path) := by
  refine Forward.accept.bind fun _ => Forward.accept.bind fun _ => ?_
  refine .ite ?_ (Forward.accept.bind fun _ => .ite .pure ?_)
  · refine (forward_commaList (hg.useTree path) "\x7d").bind fun _ => ?_
    exact Forward.expect.bind fun _ => .pure
  · refine .iterate (fun path => Closes.expectName.forward.bind fun name => ?_) path
    refine Forward.accept.bind fun _ => .ite ?_ ?_
    · refine .looking (.looksAt 0 "\x7b") fun _ => .looking (.looksAt 0 "*") fun _ => ?_
      exact .ite ((hg.useTree _).bind fun _ => .pure) .pure
    · refine Forward.bind ?_ fun _ => .pure
      refine Forward.accept.bind fun _ => .ite ?_ .pure
      exact Closes.expectName.forward.bind fun _ => .pure

/-! ### Primary expressions -/

theorem Closing.callArgs (hg : g.Closing) : Closes g.callArgs := by
  refine .behind .expect fun _ => ?_
  refine .behind (forward_commaList (hg.expr false).forward ")") fun _ => ?_
  exact (Closes.expect (by decide)).bind fun _ => .pure _

theorem Closing.parenthesised (hg : g.Closing) : Closes g.parenthesised := by
  refine .behind .expect fun _ => ?_
  refine .behind (forward_commaList (hg.expr false).forward ")") fun r => ?_
  refine (Closes.expect (by decide)).bind fun _ => ?_
  obtain ⟨_ | ⟨e, _ | ⟨e', es⟩⟩, _ | _⟩ := r <;> exact .pure _

theorem Closing.array (hg : g.Closing) : Closes g.array := by
  refine .behind .expect fun _ => .behind (.collect ?_) fun _ => ?_
  · refine .looking (.looksAt 0 "]") fun _ => .ite .pure ((hg.expr false).forward.bind fun _ => ?_)
    refine Forward.accept.bind fun _ => .ite ?_ ?_
    · exact (hg.expr false).forward.bind fun _ => .pure
    · exact Forward.accept.bind fun _ => .ite .pure .pure
  · exact (Closes.expect (by decide)).bind fun _ => .pure _

theorem closes_pathNames : Closes pathNames := by
  refine .behind .accept fun _ => .bind (.collect ?_) fun _ => .pure _
  refine .bind .expectName fun name => ?_
  have hend := nameEnd_tidy name
  refine .looking (.looksAt 0 "::") fun _ => .looking (.looksAt 1 "<") fun _ => .ite ?_ hend
  exact (Closes.behind (.skip 1) fun _ => Closes.skipGenerics.bind fun _ => hend).tidy

theorem Closing.structLiteral (hg : g.Closing) (lo : Int) : Closes (g.structLiteral lo) := by
  refine .behind .expect fun _ => .behind (.collect ?_) fun _ => ?_
  · refine .looking (.looksAt 0 "\x7d") fun _ => .ite .pure (.bind .skipAttributes fun _ => ?_)
    refine Forward.accept.bind fun _ => .ite ?_ ?_
    · refine .looking (.looksAt 0 "\x7d") fun _ => .ite .pure ?_
      exact (hg.expr false).forward.bind fun _ => .pure
    · refine .bind (.skip 1) fun _ => Forward.accept.bind fun _ => ?_
      extract_lets rest
      have hrest (value : List Expr) : Forward (rest value) :=
        Forward.accept.bind fun _ => .ite .pure .pure
      exact .ite ((hg.expr false).forward.bind fun _ => hrest _) (hrest _)
  · exact (Closes.expect (by decide)).bind fun _ => .pure _

theorem Closing.macroArgs (hg : g.Closing) (d : Delimiter) : Closes (g.macroArgs d) := by
  have hclosing : d.closing ≠ "." := by cases d <;> decide
  refine fun c => .orElse ?_ (Closes.skipGroup.bind (fun _ => .pure _) c)
  refine Closes.behind (.skip 1) (fun _ => .behind (.collect ?_) fun _ => ?_) c
  · refine .looking (.looksAt 0 d.closing) fun _ => .ite .pure ((hg.expr false).forward.bind fun _ => ?_)
    refine Forward.accept.bind fun _ => .ite .pure ?_
    exact Forward.accept.bind fun _ => .ite .pure .pure
  · exact (Closes.expect hclosing).bind fun _ => .pure _

theorem Closing.pathLike (hg : g.Closing) (bare : Bool) : Closes (g.pathLike bare) := by
  refine .looking (.look 0) fun _ => closes_pathNames.bind fun names => ?_
  refine .looking (.looksAt 0 "!") fun _ => ?_
  extract_lets path rest
  have hpath (u : Unit) : Tidy (path u) := .spanFrom _ fun _ => .pure _
  have hrest (u : Unit) : Tidy (rest u) := by
    refine .looking (.looksAt 0 "\x7b") fun _ => .ite (.looking opensStruct_looks fun _ => ?_) (hpath ())
    exact .ite (hg.structLiteral _).tidy (hpath ())
  refine .ite (.looking (.look 1) fun o => ?_) (hrest ())
  cases o.bind (·.opens?) with
  | none => exact hrest ()
  | some d =>
    refine (Closes.behind (.skip 1) fun _ => (hg.macroArgs d).bind fun _ => ?_).tidy
    exact .spanFrom _ fun _ => .pure _

theorem Closing.closure (hg : g.Closing) (lo : Int) (bare captures : Bool) :
    Closes (g.closure lo bare captures) := by
  have hparam : Forward g.closureParam := by
    refine .bind .skipAttributes fun _ => .looking (.look 0) fun _ => ?_
    refine .bind (forward_pattern _) fun _ => ?_
    exact hg.declaredType.forward.bind fun _ => .spanFrom fun _ => .pure
  have hparams : Forward g.closureParams := by
    refine Forward.accept.bind fun _ => .ite .pure ?_
    refine Forward.expect.bind fun _ => (forward_commaList hparam "|").bind fun _ => ?_
    exact Forward.expect.bind fun _ => .pure
  refine .behind hparams fun params => .behind .accept fun _ => .ite ?_ ?_
  · exact .behind hg.ty.forward fun _ => (hg.block .plain none).bind fun _ => .pure _
  · exact (hg.expr bare).bind fun _ => .pure _

theorem Closing.conditionalOf (hg : g.Closing) : Closes g.conditionalOf := by
  refine (Closes.expect (by decide)).bind fun start => (hg.expr true).tidy.bind fun condition => ?_
  refine (hg.block .plain none).tidy.bind fun body => (Tidy.accept (by decide)).bind fun _ => ?_
  extract_lets rest
  have hrest (otherwise : List Expr) : Tidy (rest otherwise) := .spanFrom _ fun _ => .pure _
  refine .ite (.looking (.looksAt 0 "if") fun _ => .ite ?_ ?_) (hrest _)
  · exact hg.conditional.tidy.bind fun _ => hrest _
  · exact (hg.block .plain none).tidy.bind fun _ => hrest _

theorem Closing.choice (hg : g.Closing) : Closes g.choice := by
  have harm : Forward g.arm := by
    refine .bind .skipAttributes fun _ => Forward.accept.bind fun _ => ?_
    refine (forward_pattern _).bind fun _ => Forward.accept.bind fun _ => ?_
    extract_lets rest
    have hrest (guards : List Expr) : Forward (rest guards) := by
      refine Forward.expect.bind fun _ => hg.statementExpr.forward.bind fun _ => ?_
      exact Forward.accept.bind fun _ => .pure
    exact .ite ((hg.expr false).forward.bind fun _ => hrest _) (hrest _)
  refine .behind .expect fun start => ?_
  refine .behind (hg.expr true).forward fun scrutinee => .behind .expect fun _ => ?_
  refine .behind .skipAttributes fun _ => .behind (.collect ?_) fun _ => ?_
  · refine .looking (.looksAt 0 "\x7d") fun _ => .ite .pure ?_
    exact harm.bind fun _ => .pure
  · exact (Closes.expect (by decide)).bind fun _ => .spanFrom _ fun _ => .pure _

theorem Closing.loop (hg : g.Closing) (lo : Int) : Closes (g.loop lo) :=
  .behind (.skip 1) fun _ => (hg.block .plain none).bind fun _ => .spanFrom _ fun _ => .pure _

theorem Closing.whileLoop (hg : g.Closing) (lo : Int) : Closes (g.whileLoop lo) :=
  .behind (.skip 1) fun _ => .behind (hg.expr true).forward fun _ =>
    (hg.block .plain none).bind fun _ => .spanFrom _ fun _ => .pure _

theorem Closing.forLoop (hg : g.Closing) (lo : Int) : Closes (g.forLoop lo) :=
  .behind (.skip 1) fun _ => .behind (forward_pattern _) fun _ =>
    .behind .expect fun _ => .behind (hg.expr true).forward fun _ =>
      (hg.block .plain none).bind fun _ => .spanFrom _ fun _ => .pure _

theorem Closing.letCondition (hg : g.Closing) (lo : Int) : Closes (g.letCondition lo) :=
  .behind (.skip 1) fun _ => .behind (forward_pattern _) fun _ =>
    .behind .expect fun _ =>
      (hg.operand _ true).bind fun _ => .spanFrom _ fun _ => .pure _

/-- Behind the keyword of a jump there may be nothing. -/
theorem Closing.jumpRest (hg : g.Closing) (lo : Int) (kind : CompoundKind) (bare : Bool) :
    ∃ f : Unit → Parse Expr, g.jump lo kind bare = skip 1 >>= f ∧ ∀ u, Tidy (f u) := by
  refine ⟨_, rfl, fun _ => ?_⟩
  extract_lets last rest
  have hlast (value : List Expr) : Tidy (last value) := .spanFrom _ fun _ => .pure _
  have hrest (u : Unit) : Tidy (rest u) := by
    refine .ite (.looking (canStart_looks bare) fun _ => .ite ?_ (hlast _)) (hlast _)
    exact (hg.expr bare).tidy.bind fun _ => hlast _
  exact .ite ((Tidy.acceptKind (by decide)).bind fun _ => hrest ()) (hrest ())

theorem Closing.labeled (hg : g.Closing) (label : Token) (bare : Bool) : Closes (g.labeled label bare) :=
  .behind (.skip 1) fun _ => .behind .expect fun _ =>
    (hg.primary bare).bind fun _ => .pure _

theorem closes_qualifiedPath (lo : Int) : Closes (qualifiedPath lo) := by
  refine Closes.skipGenerics.bind fun _ => Tidy.bind (.iterate (fun _ => ?_) ()) fun _ => ?_
  · refine (Tidy.accept (by decide)).bind fun _ => .ite ?_ (.pure _)
    exact Closes.expectName.tidy.bind fun _ => .pure _
  · exact .spanFrom _ fun _ => .pure _

theorem Closing.punctPrimary (hg : g.Closing) (t : Token) (bare : Bool) :
    Closes (g.punctPrimary t bare) := by
  refine .ite (hg.closure _ bare false) (.ite ((hg.block .plain none).bind fun _ => .pure _) ?_)
  refine .ite hg.parenthesised (.ite hg.array (.ite ?_ ?_))
  · exact .behind .skipAttributes fun _ => hg.primary bare
  · exact .ite (closes_qualifiedPath _) (.ite (hg.pathLike bare) (.rejectAt _ _))

/-- What a keyword marks, if it marks anything. -/
theorem Closing.marked? (hg : g.Closing) (t : Token) (bare : Bool) (c : Cursor) :
    Makes (g.marked? t bare) c fun o c' => if o.isSome then c.Closed c' else c' = c := by
  have hnone : Makes (pure none : Parse (Option Expr)) c
      fun o c' => if o.isSome then c.Closed c' else c' = c := .pure rfl
  have hsome {n : Nat} {p : Parse Expr} (hp : Closes p) : Makes (do skip n; return some (← p)) c
      fun o c' => if o.isSome then c.Closed c' else c' = c :=
    .bind (Forward.skip n c) fun _ c₁ h₁ => .bind (hp c₁) fun _ _ h => .pure (.behind h₁ h)
  have hblock {n : Nat} (kind lo) : Makes (do skip n; return some (Expr.block (← g.block kind lo))) c
      fun o c' => if o.isSome then c.Closed c' else c' = c :=
    .bind (Forward.skip n c) fun _ c₁ h₁ => .bind (hg.block kind lo c₁) fun _ _ h => .pure (.behind h₁ h)
  refine .ite (fun _ => ?_) fun _ => .ite (fun _ => ?_) fun _ => .ite (fun _ => ?_) fun _ => hnone
  · exact .looksAtOneOf 1 _ (.ite (fun _ => hsome (hg.closure _ _ _)) fun _ => hnone)
  · refine .looksAt 1 _ (.ite (fun _ => hblock _ _) fun _ => ?_)
    refine .looksAt 1 _ (.ite (fun _ => ?_) fun _ => ?_)
    · refine .looksAt 2 _ (.ite (fun _ => hblock _ _) fun _ => ?_)
      refine .looksAtOneOf 2 _ (.ite (fun _ => ?_) fun _ => ?_)
      · exact hsome (hg.closure _ _ _)
      · exact .looksAtOneOf 1 _ (.ite (fun _ => hsome (hg.closure _ _ _)) fun _ => hnone)
    · exact .looksAtOneOf 1 _ (.ite (fun _ => hsome (hg.closure _ _ _)) fun _ => hnone)
  · exact .looksAt 1 _ (.ite (fun _ => hblock _ _) fun _ => hnone)

theorem Closing.wordPrimary (hg : g.Closing) {t : Token} {us : List Token} {c : Cursor}
    (hr : c.rest = t :: us) (hk : t.kind = .ident) (bare : Bool) :
    Makes (g.wordPrimary t bare) c fun _ c' => c.Closed c' := by
  have ht : t.isPunct "." = false := Token.not_dot_of_kind (by rw [hk]; decide)
  refine .ite (fun _ => .bind (.skipClosed hr ht) fun _ _ h => .pure h) fun _ => ?_
  refine .bind (hg.marked? t bare c) fun o c₁ h₁ => ?_
  cases o with
  | some e => exact .pure h₁
  | none =>
    obtain rfl : c₁ = c := h₁
    refine .ite (fun _ => hg.conditionalOf c₁) fun _ => .ite (fun _ => hg.choice c₁) fun _ => ?_
    refine .ite (fun _ => hg.loop _ c₁) fun _ => .ite (fun _ => hg.whileLoop _ c₁) fun _ => ?_
    refine .ite (fun _ => hg.forLoop _ c₁) fun _ => .ite (fun _ => hg.letCondition _ c₁) fun _ => ?_
    cases jump? t.value with
    | none => exact hg.pathLike bare c₁
    | some kind =>
      obtain ⟨f, hf, hrest⟩ := hg.jumpRest t.lo kind bare
      refine (congrArg (Makes · c₁ _) hf).mpr ?_
      exact .bind (.skipClosed hr ht) fun u c₂ h₂ => (hrest u c₂).imp fun _ _ h => h₂.keep h

theorem Closing.primaryOf (hg : g.Closing) (bare : Bool) : Closes (g.primaryOf bare) := by
  intro c
  refine .lookNext (fun _ => .rejectEnd _) fun t us hr => ?_
  have hlit {e : Expr} (ht : t.kind ≠ .punct) : Makes (do skip 1; return e) c fun _ c' => c.Closed c' :=
    .bind (.skipClosed hr (Token.not_dot_of_kind ht)) fun _ _ h => .pure h
  dsimp only
  split
  · next hk => exact hlit (by rw [hk]; decide)
  · next hk => exact hlit (by rw [hk]; decide)
  · next hk => exact hlit (by rw [hk]; decide)
  · exact hg.labeled t bare c
  · exact hg.punctPrimary t bare c
  · next hk => exact hg.wordPrimary hr hk bare

/-! ### From primary to full expressions -/

theorem Closing.member (hg : g.Closing) (e : Expr) : Closes (g.member e) := by
  refine .behind (.skip 1) fun _ c => .lookNext (fun _ => .rejectEnd _) fun t us hr => ?_
  refine .ite (fun hk => ?_) fun _ => ?_
  · exact .bind (.skipClosed hr (Token.not_dot_of_kind (by rw [hk]; decide))) fun _ _ h => .pure h
  refine Closes.bind .expectName (fun name => .ite (.pure _) ?_) c
  refine .looking (.looksAt 0 "::") fun _ => .looking (.looksAt 1 "<") fun _ => ?_
  extract_lets last
  have hlast (u : Unit) : Tidy (last u) :=
    .looking (.looksAt 0 "(") fun _ => .ite (hg.callArgs.tidy.bind fun _ => .pure _) (.pure _)
  exact .ite (Closes.behind (.skip 1) fun _ => Closes.skipGenerics.bind fun _ => hlast ()).tidy (hlast ())

theorem Closing.suffixes (hg : g.Closing) (e : Expr) : Tidy (g.suffixes e) := by
  refine .iterate (fun e c => ?_) e
  have hinl {p : Parse Expr} (hp : Closes p) : Tidy (do return .inl (← p) : Parse (Expr ⊕ Expr)) :=
    (hp.bind fun _ => .pure _).tidy
  refine .nextIs "?" (fun t us hr ht => ?_) fun _ => ?_
  · refine .bind (.nextClosed hr (Token.not_dot_of_is ht (by decide))) fun _ _ h => .pure (.inr h)
  refine Tidy.looking (.looksAt 0 ".") (fun _ => .ite (hinl (hg.member e)) ?_) c
  refine .looking (.looksAt 0 "(") fun _ => .ite (hg.callArgs.tidy.bind fun _ => .pure _) ?_
  refine .looking (.looksAt 0 "[") fun _ => .ite ?_ (.pure _)
  refine (Closes.behind (.skip 1) fun _ => .behind (hg.expr false).forward fun _ => ?_).tidy
  exact (Closes.expect (by decide)).bind fun _ => .pure _

theorem Closing.unaryOf (hg : g.Closing) (bare : Bool) : Closes (g.unaryOf bare) := by
  have hplain : Closes (do g.suffixes (← g.primaryOf bare)) :=
    (hg.primaryOf bare).bind fun e => hg.suffixes e
  have hoperand {f : Expr → Expr} : Closes (do let e ← g.unary bare; return f e) :=
    (hg.unary bare).bind fun _ => .pure _
  refine .looking (.look 0) fun o => ?_
  cases o with
  | none => exact hplain
  | some t =>
    refine .ite (.behind (.skip 1) fun _ => hoperand) (.ite ?_ hplain)
    exact .behind (.skip 1) fun _ => .behind .accept fun _ => hoperand

theorem Closing.casts (hg : g.Closing) (bare : Bool) : Closes (g.casts bare) := by
  refine (hg.unaryOf bare).bind fun e => .iterate (fun e => ?_) e
  refine (Tidy.accept (by decide)).bind fun _ => .ite (hg.ty.tidy.bind fun _ => ?_) (.pure _)
  exact .spanFrom _ fun _ => .pure _

theorem Closing.binaryFrom (hg : g.Closing) (strength : Nat) (bare : Bool) (left : Expr) :
    Tidy (g.binaryFrom strength bare left) := by
  refine .iterate (fun left => .looking pendingOperator_looks fun o => ?_) left
  match o with
  | none => exact .pure _
  | some (s, width) =>
    refine .ite (.pure _) (Closes.behind (.skip width) fun _ => ?_).tidy
    exact (hg.operand _ bare).bind fun _ => .pure _

theorem Closing.operandOf (hg : g.Closing) (strength : Nat) (bare : Bool) :
    Closes (g.operandOf strength bare) :=
  (hg.casts bare).bind fun e => hg.binaryFrom strength bare e

/-- The mark of a range ends in two dots or more. -/
theorem Makes.nextRange {c : Cursor} {β : Type} {p q : Parse β} {S : β → Cursor → Prop}
    (hp : ∀ t us, c.rest = t :: us → t.isPunct "." = false → Makes p c S) (hq : Makes q c S) :
    Makes (do if ← nextIsRange then p else q) c S := by
  refine .looksAtOneOf 0 _ (.ite (fun h => ?_) fun _ => hq)
  cases hr : c.rest with
  | nil => simp [hr] at h
  | cons t us =>
    refine hp t us hr ?_
    rw [hr, List.getElem?_cons_zero, Option.any_some, Token.isOneOf, Bool.and_eq_true] at h
    rw [Token.isPunct, Bool.and_eq_false_iff]
    refine .inr (beq_false_of_ne fun hv => ?_)
    rw [hv] at h
    exact absurd h.2 (by decide)

theorem Closing.rangeFrom (hg : g.Closing) (bare : Bool) (lower : Expr) :
    Tidy (g.rangeFrom bare lower) := by
  refine fun c => Makes.nextRange (fun t us hr ht => ?_) (.pure (.inl rfl))
  refine .bind (.nextClosed hr ht) fun _ c₁ h₁ => .looking (canStart_looks bare) fun _ _ => ?_
  refine .ite (fun _ => ?_) fun _ => .pure (.inr h₁)
  exact .bind (hg.operand 0 bare c₁) fun _ _ h => .pure (.inr (h₁.keep (.inr h)))

theorem Closing.rangeOf (hg : g.Closing) (bare : Bool) : Closes (g.rangeOf bare) := by
  refine fun c => Makes.nextRange (fun t us hr ht => ?_) ?_
  · refine .bind (.nextClosed hr ht) fun _ c₁ h₁ => .looking (canStart_looks bare) fun _ _ => ?_
    refine .ite (fun _ => ?_) fun _ => .pure h₁
    exact .bind (hg.operand 0 bare c₁) fun _ _ h => .pure (h₁.keep (.inr h))
  · exact (hg.operandOf 0 bare).bind (fun e => hg.rangeFrom bare e) c

theorem Closing.assignFrom (hg : g.Closing) (bare : Bool) (left : Expr) :
    Tidy (g.assignFrom bare left) := by
  refine .looking assignWidth_looks fun width => ?_
  cases width with
  | zero => exact .pure _
  | succ width => exact (Closes.behind (.skip _) fun _ => (hg.expr bare).bind fun _ => .pure _).tidy

theorem Closing.exprOf (hg : g.Closing) (bare : Bool) : Closes (g.exprOf bare) :=
  (hg.rangeOf bare).bind fun e => hg.assignFrom bare e

theorem Closing.exprFrom (hg : g.Closing) (left : Expr) : Tidy (g.exprFrom left) :=
  (hg.binaryFrom 0 false left).bind fun e => (hg.rangeFrom false e).bind fun e => hg.assignFrom false e

/-! ### Statements and blocks -/

theorem Closing.statementExprOf (hg : g.Closing) : Closes g.statementExprOf := by
  refine .looking startsBlockLike_looks fun _ => .ite ?_ (hg.exprOf false)
  refine (hg.primaryOf false).bind fun e => ?_
  refine .looking (.looksAtOneOf 0 _) fun _ => .ite ?_ (.pure _)
  exact (hg.suffixes e).bind fun e => hg.exprFrom e

theorem Closing.letStmt (hg : g.Closing) : Closes g.letStmt := by
  refine .behind .expect fun start => .behind (forward_pattern _) fun p => ?_
  refine .behind hg.declaredType.forward fun ty => .behind .accept fun _ => ?_
  extract_lets rest
  have hrest (r) : Closes (rest r) :=
    (Closes.expect (by decide)).bind fun _ => .spanFrom _ fun _ => .pure _
  refine .ite (.behind (hg.expr false).forward fun e => ?_) (hrest (none, none))
  refine .behind .accept fun _ => .ite ?_ (hrest (some e, none))
  exact .behind (hg.block .plain none).forward fun b => hrest (some e, some b)

theorem Closing.blockTurn (hg : g.Closing) : Forward g.blockTurn := by
  have hstmt : Forward g.exprStmt := by
    refine .looking (.look 0) fun _ => hg.statementExprOf.forward.bind fun e => ?_
    refine Forward.accept.bind fun _ => .ite ?_ (.looking (.looksAt 0 "\x7d") fun _ => ?_)
    · exact .spanFrom fun _ => .pure
    refine .ite .pure (.ite .pure (.looking (.look 0) fun o => ?_))
    cases o with
    | none => exact .throw
    | some t => exact .throw
  refine .looking (.looksAt 0 "\x7d") fun _ => .ite .pure (.looking (.look 0) fun _ => ?_)
  refine .ite (.throw) (Forward.accept.bind fun _ => .ite .pure ?_)
  refine .bind .skipAttributes fun _ => .looking (.looksAt 0 "\x7d") fun _ => .ite .pure ?_
  refine .looking (.looksAt 0 "let") fun _ => .ite (hg.letStmt.forward.bind fun _ => .pure) ?_
  refine .looking startsItem_looks fun _ => .ite (hg.item.forward.bind fun _ => .pure) hstmt

theorem Closing.blockOf (hg : g.Closing) (kind : BlockKind) (lo : Option Int) :
    Closes (g.blockOf kind lo) := by
  refine .behind .expect fun _ => .behind .skipAttributes fun _ => ?_
  refine .behind (.collect hg.blockTurn) fun _ => (Closes.expect (by decide)).bind fun _ => ?_
  exact .spanFrom _ fun _ => .pure _

/-! ### Items -/

theorem Closing.fnItem (hg : g.Closing) (lo : Int) : Closes (g.fnItem lo) := by
  have hparam : Forward g.fnParam := by
    refine .bind .skipAttributes fun _ => .looking (.look 0) fun o => ?_
    cases o with
    | none => exact .throw
    | some t =>
      refine .looking receiver?_looks fun o => ?_
      cases o with
      | some width =>
        refine .bind (.skip width) fun _ => hg.declaredType.forward.bind fun _ => ?_
        exact .spanFrom fun _ => .pure
      | none =>
        refine .bind (forward_pattern _) fun _ => hg.declaredType.forward.bind fun _ => ?_
        exact .spanFrom fun _ => .pure
  refine .behind .expect fun _ => .behind Closes.expectName.forward fun name => ?_
  refine .looking (.looksAt 0 "<") fun _ => ?_
  extract_lets rest
  have hrest (u : Unit) : Closes (rest u) := by
    refine .behind .expect fun _ => ?_
    refine .behind (forward_commaList hparam ")") fun r => .behind .expect fun _ => ?_
    refine .behind (Forward.sweep _ _ _) fun _ => .looking (.looksAt 0 "\x7b") fun _ => ?_
    extract_lets node
    have hnode (body : Option Block) : Tidy (node body) := .spanFrom _ fun _ => .pure _
    refine .ite ((hg.block .plain none).bind fun b => hnode (some b)) ?_
    exact (Closes.expect (by decide)).bind fun _ => hnode none
  exact .ite (.behind Closes.skipGenerics.forward fun _ => hrest ()) (hrest ())

theorem Closing.container (hg : g.Closing) (lo : Int) (kind : ContainerKind) :
    Closes (g.container lo kind) := by
  have hitems : Forward (items g.item true) := by
    refine .bind (.collect (.bind .skipAttributes fun _ => .looking (.look 0) fun _ => ?_))
      fun _ => .pure
    refine .ite (.ite .throw .pure) ?_
    refine .looking (.looksAt 0 "\x7d") fun _ => .ite .pure ?_
    refine Forward.accept.bind fun _ => .ite .pure ?_
    exact hg.item.forward.bind fun _ => .pure
  refine .behind (.skip 1) fun _ => .behind (Forward.sweep _ _ _) fun _ => .acceptOr (by decide) ?_ ?_
  · exact .spanFrom _ fun _ => .pure _
  · refine .behind .expect fun _ => .behind hitems fun _ => ?_
    exact (Closes.expect (by decide)).bind fun _ => .spanFrom _ fun _ => .pure _

theorem closes_macroItem (lo : Int) : Closes (macroItem lo) :=
  .behind (.skip 2) fun _ => .behind .acceptKind fun _ =>
    Closes.skipGroup.bind fun _ => (Tidy.accept (by decide)).bind fun _ => .spanFrom _ fun _ => .pure _

theorem closes_skipItemRest : Closes skipItemRest := by
  refine .behind (Forward.sweep _ _ _) fun _ => .acceptOr (by decide) (.pure _) ?_
  exact Closes.skipGroup.bind fun _ => (Tidy.accept (by decide)).bind fun _ => .pure _

theorem forward_qualifiers : Forward qualifiers := by
  have hqualifier : Forward qualifier := by
    refine .looking (.looksAtOneOf 0 _) fun _ => .ite (.bind (.skip 1) fun _ => .pure) ?_
    refine .looking (.looksAt 0 _) fun _ => .looking (.looksAtOneOf 1 _) fun _ => ?_
    refine .ite (.bind (.skip 1) fun _ => .pure) (.looking (.looksAt 0 _) fun _ => .ite ?_ .pure)
    refine .looking (.looksAt 1 _) fun _ => .looking (.looksAtKind 1 _) fun _ => ?_
    refine .looking (.looksAt 2 _) fun _ => ?_
    exact .ite (.bind (.skip 1) fun _ => Forward.acceptKind.bind fun _ => .pure) .pure
  refine Forward.accept.bind fun _ => ?_
  extract_lets rest
  have hrest (u : Unit) : Forward (rest u) := by
    refine .iterate (fun _ => hqualifier.bind fun _ => .ite ?_ ?_) ()
    · exact .pure
    · exact .pure
  refine .ite (.looking (.looksAt 0 "(") fun _ => .ite ?_ (hrest ())) (hrest ())
  exact Closes.skipGroup.forward.bind fun _ => hrest ()

theorem Closing.itemOf (hg : g.Closing) : Closes g.itemOf := by
  refine .behind .skipAttributes fun _ => .looking (.look 0) fun _ => ?_
  refine .behind forward_qualifiers fun _ => .looking (.look 0) fun o => ?_
  cases o with
  | none => exact .rejectEnd _
  | some t =>
    refine .ite (hg.fnItem _) (.ite ?_ ?_)
    · refine .behind .expect fun _ => .behind (hg.useTreeOf []) fun _ => ?_
      exact (Closes.expect (by decide)).bind fun _ => .spanFrom _ fun _ => .pure _
    cases container? t with
    | some kind => exact hg.container _ kind
    | none =>
      refine .ite (.rejectAt _ _) (.looking (.looksAt 1 _) fun _ => ?_)
      refine .ite (closes_macroItem _) (.ite ?_ ?_)
      · refine .behind (Forward.sweep _ _ _) fun _ => (Closes.expect (by decide)).bind fun _ => ?_
        exact .spanFrom _ fun _ => .pure _
      · exact closes_skipItemRest.bind fun _ => .spanFrom _ fun _ => .pure _

/-! ### All productions -/

theorem Closing.above (hg : g.Closing) : g.above.Closing where
  ty := hg.typeOf
  useTree := hg.useTreeOf
  expr := hg.exprOf
  operand := hg.operandOf
  unary := hg.unaryOf
  primary := hg.primaryOf
  statementExpr := hg.statementExprOf
  conditional := hg.conditionalOf
  block := hg.blockOf
  item := hg.itemOf

theorem closing_ofDepth (depth : Nat) : (ofDepth depth).Closing := by
  induction depth with
  | zero => exact ⟨.throw _, fun _ => .throw, fun _ => .throw _, fun _ _ => .throw _,
      fun _ => .throw _, fun _ => .throw _, .throw _, .throw _, fun _ _ => .throw _, .throw _⟩
  | succ depth ih => exact ih.above

end Grammar

end BuilderMigration
