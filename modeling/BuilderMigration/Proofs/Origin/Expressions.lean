import BuilderMigration.Proofs.Origin.Primary

/-! The productions from primary to full expressions. A method call is read from the end of its receiver
to its closing parenthesis; of its generic arguments nothing is left in the tree. -/

namespace BuilderMigration.Grammar

open Parse

variable {ts us : List Token} {m : Nat} {g : Grammar} {s c c' : Cursor} {t : Token} {e : Expr}

/-! ### Suffixes -/

/-- A method call behind what it is made on. -/
theorem sourced_methodCall {args : List Expr} {hi : Int} {name opening closing : Token}
    {generics inner : List Token} {c₁ c₂ : Cursor} (he : Traced ts s e.tree c) (hdot : c.Reads [t] c₁)
    (hmark : t.is "." = true) (hname : c₁.Reads [name] c₂) (hkind : name.kind = .ident)
    (hgenerics : c₂.Reads generics c') (hturbofish : Turbofish generics) {c'' : Cursor}
    (hargs : Arguments ts c' args hi c'' opening inner closing) :
    (Node.expr (.methodCall ⟨e.span.lo, hi, 0⟩ none e name.value args)).Sourced ts := by
  obtain ⟨mid, trail, hmid, hlast, htrail, hread⟩ := he.exists_end
  obtain ⟨before, hbefore, hend⟩ := hmid.reached
  have hall := (((hread.trans hdot).trans hname).trans hgenerics).trans hargs.reads
  refine ⟨⟨t, name, generics, opening, inner, closing⟩, ?_, hmark, hkind, rfl, hturbofish, hargs.opens,
    hargs.closes, hargs.ends.symm, List.forall_mem_map.2 hargs.within⟩
  refine ⟨before, trail, c''.rest, ?_, by rw [← hend, hlast, Expr.tree_span], htrail⟩
  rw [hbefore, hall.rest]
  simp [CallTokens.tokens]

/-- A member behind a dot. -/
theorem Traces.member (hg : g.Traces ts m) (hs : s.On ts) (hl : s.rest.length ≤ m)
    (he : Traced ts s e.tree c) (hr : c.rest = t :: us) (hdot : t.is "." = true) :
    Makes (g.member e) c fun e' c' => c.Passes ts c' ∧ Traced ts s e'.tree c' := by
  have hc := he.passes.on
  suffices hplaced : Makes (g.member e) c fun e' c' => Placed ts s e'.tree c' from
    ((hg.reads.member hs hl he.grown).makes.and hplaced).imp fun _ _ h => ⟨h.1.1, h.2, h.1.2⟩
  refine .bind (.skip hc [t] hr) fun _ c₁ ⟨h₁, hread₁⟩ => ?_
  refine .lookNext (fun _ => .rejectEnd _) fun u vs hu => ?_
  have hupTo (kind : CompoundKind) {c₂} (h : EndsAt ts u.hi c₂) :
      Placed ts s (Expr.compound ⟨e.span.lo, u.hi, 0⟩ none kind [e]).tree c₂ :=
    .extend he.toPlaced (by rw [Expr.tree_span]; rfl) h trivial nofun
  refine .ite (fun _ => ?_) fun _ => ?_
  · refine .bind (.skip h₁.on [u] hu) fun _ c₂ ⟨_, h₂⟩ => .pure (hupTo _ (.inl h₂.last.symm))
  refine .bind (.expectName h₁.on) fun name c₂ ⟨v, h₂, hkind, hvalue⟩ => ?_
  obtain ⟨rfl, -⟩ := List.cons.inj (hu.symm.trans h₂.rest)
  refine .ite (fun _ => .pure (hupTo _ (.inl h₂.last.symm))) fun _ => ?_
  refine .looksAt 0 "::" ?_
  extract_lets rest
  have hrest (generics : List Token) (c₃) (h₃ : c₂.Moves ts c₃) (hread : c₂.Reads generics c₃)
      (hturbofish : Turbofish generics) :
      Makes (rest ()) c₃ fun e' c' => Placed ts s e'.tree c' := by
    refine .looksAt 0 "(" (.ite (fun _ => ?_) fun _ => .pure (hupTo _ (.inr ?_)))
    · have hl₃ := (he.passes.moves.trans (h₁.trans (h₂.passes.moves.trans h₃))).le hl
      refine .bind (hg.callArgs h₃.on hl₃) fun r c₄ ⟨opening, inner, closing, hargs⟩ => .pure ?_
      refine .extend he.toPlaced (by rw [Expr.tree_span]; rfl) (.inl ?_) ?_
        (allSourced_exprTrees hargs.sourced)
      · rw [hargs.ends, hargs.reads.last]
        simp [endFrom_append, endFrom]
      · rw [← hvalue]
        exact sourced_methodCall he hread₁ hdot h₂.reads hkind hread hturbofish hargs
    · exact ⟨c₂, generics, h₂.passes.on, h₂.last, hturbofish, hread⟩
  refine .looksAt 1 "<" (.ite (fun hlook => ?_) fun _ => hrest [] c₂ h₂.passes.on.stays (.nil _) .nil)
  obtain ⟨a, b, ws, hws, ha, hb⟩ : ∃ a b ws, c₂.rest = a :: b :: ws ∧ a.is "::" = true ∧
      b.is "<" = true := by
    rw [Bool.and_eq_true] at hlook
    rcases hrest : c₂.rest with _ | ⟨a, _ | ⟨b, ws⟩⟩
    · simp [hrest] at hlook
    · simp [hrest] at hlook
    · exact ⟨a, b, ws, rfl, by simpa [hrest] using hlook⟩
  refine .bind (.skip h₂.passes.on [a] hws) fun _ c₃ ⟨h₃, hread₃⟩ => ?_
  refine .bind (Yields.skipGenerics h₃.on).makes fun _ c₄ h₄ => ?_
  obtain ⟨b', vs, hread₄⟩ := h₄.exists_reads h₃.on
  have hb' : b' = b := by
    have hrest := hread₃.rest.symm.trans hws
    rw [hread₄.rest] at hrest
    exact (List.cons.inj (List.cons.inj hrest).2).1
  exact hrest _ c₄ (h₃.trans h₄.moves) (hread₃.trans hread₄) (.inr ⟨a, b', vs, rfl, ha, hb' ▸ hb⟩)

/-- One suffix reads a token and makes a greater expression. -/
theorem Traces.suffix (hg : g.Traces ts m) (hs : s.On ts) (hl : s.rest.length ≤ m)
    (he : Traced ts s e.tree c) :
    Makes (g.suffix e) c (StepLeads ts (fun e c => Traced ts s (Expr.tree e) c)
      (fun e c => Traced ts s (Expr.tree e) c) c) := by
  have hc := he.passes.on
  -- what is known of where the greater expression lies is read off the other walk through the steps
  suffices hstep : Makes (g.suffix e) c fun r c' => match r with
      | .inl e' => Placed ts s e'.tree c'
      | .inr e' => Placed ts s e'.tree c' by
    refine ((hg.reads.suffix hs hl he.grown).makes.and hstep).imp fun r c' ⟨hgrown, hplaced⟩ => ?_
    cases r with
    | inl e' => exact ⟨hgrown.1, hplaced, hgrown.2⟩
    | inr e' => exact ⟨hplaced, hgrown⟩
  have hextend (kind : CompoundKind) {hi : Int} {parts : List Expr} {c₁} (h : EndsAt ts hi c₁)
      (hp : ∀ e ∈ parts, e.tree.Sourced ts) :
      Placed ts s (Expr.compound ⟨e.span.lo, hi, 0⟩ none kind (e :: parts)).tree c₁ :=
    .extend he.toPlaced (by rw [Expr.tree_span]; rfl) h trivial (allSourced_exprTrees hp)
  refine .looksAt 0 "?" (.ite (fun _ => ?_) fun _ => ?_)
  · exact .bind (Yields.next hc).makes fun t c₁ h₁ => .pure (hextend .question (.inl h₁.last.symm) nofun)
  refine .nextIs "." (fun t us hr hdot => ?_) fun _ => ?_
  · exact .bind (hg.member hs hl he hr hdot) fun _ _ h => .pure h.2.toPlaced
  refine .looksAt 0 "(" (.ite (fun _ => ?_) fun _ => ?_)
  · refine .bind (hg.callArgs hc (he.passes.moves.le hl)) fun r c₁ ⟨_, _, _, hargs⟩ => ?_
    refine .pure (hextend .call (.inl ?_) hargs.sourced)
    rw [hargs.ends, hargs.reads.last]
    simp [endFrom_append, endFrom]
  refine .looksAt 0 "[" (.ite (fun _ => ?_) fun _ => .pure he.toPlaced)
  refine .bind (Yields.skip_one hc).makes fun _ c₁ h₁ => ?_
  refine .bind (hg.expr h₁.on ((he.passes.trans h₁.moves).lt hl) false) fun index c₂ h₂ => ?_
  refine .bind (Yields.expect h₂.passes.on "]").makes fun close c₃ h₃ => .pure ?_
  exact hextend .index (.inl h₃.last.symm) (List.forall_mem_singleton.2 h₂.sourced)

theorem Traces.suffixes (hg : g.Traces ts m) (hs : s.On ts) (hl : s.rest.length ≤ m)
    (he : Traced ts s e.tree c) : Makes (g.suffixes e) c fun e c' => Traced ts s e.tree c' :=
  .iterate (I := fun e c => Traced ts s e.tree c) he.passes.on he fun _ _ _ he => hg.suffix hs hl he

/-! ### Prefixes, casts and operators -/

theorem Traces.unaryOf (hg : g.Traces ts m) (hc : c.On ts) (hl : c.rest.length ≤ m) (bare : Bool) :
    Makes (g.unaryOf bare) c fun e c' => Traced ts c e.tree c' := by
  have hplain : Makes (do g.suffixes (← g.primaryOf bare)) c fun e c' => Traced ts c e.tree c' :=
    .bind (hg.primaryOf hc hl bare) fun _ _ he => hg.suffixes hc hl he
  refine .lookNext (fun _ => hplain) fun t us hr => ?_
  have hnode (kind : CompoundKind) (operand : Expr) {c₁ c₂} (h₁ : c.Passes ts c₁)
      (h₂ : Traced ts c₁ operand.tree c₂) :
      Traced ts c (Expr.compound ⟨t.lo, operand.span.hi, 0⟩ none kind [operand]).tree c₂ := by
    have hspan : (Node.expr (.compound ⟨t.lo, operand.span.hi, 0⟩ none kind [operand])).span =
        ⟨c.ahead, operand.tree.span.hi, 0⟩ := by
      rw [Expr.tree_span, Cursor.ahead_of_rest hr]
      rfl
    exact ⟨.prefixed h₂.toPlaced hspan trivial, .prefixed hc h₁ h₂.grown hspan⟩
  refine .ite (fun _ => ?_) fun _ => .ite (fun _ => ?_) fun _ => hplain
  · refine .bind (Yields.skip_one hc).makes fun _ c₁ h₁ => ?_
    exact .bind (hg.unary h₁.on (h₁.lt hl) bare) fun operand c₂ h₂ => .pure (hnode .unary operand h₁ h₂)
  · refine .bind (Yields.skip_one hc).makes fun _ c₁ h₁ => ?_
    refine .bind (Yields.accept h₁.on "mut").makes fun _ c₂ h₂ => ?_
    have h := h₁.trans h₂.moves
    exact .bind (hg.unary h.on (h.lt hl) bare) fun operand c₃ h₃ => .pure (hnode .borrow operand h h₃)

theorem Traces.casts (hg : g.Traces ts m) (hc : c.On ts) (hl : c.rest.length ≤ m) (bare : Bool) :
    Makes (g.casts bare) c fun e c' => Traced ts c e.tree c' := by
  refine .bind (hg.unaryOf hc hl bare) fun e c₁ he => ?_
  refine .iterate (I := fun e c₁ => Traced ts c e.tree c₁) he.passes.on he fun e c₁ _ he => ?_
  refine .bind (Yields.accept he.passes.on "as").makes fun _ c₂ h₂ => .ite (fun hf => ?_) fun hf => ?_
  · have h₂' := h₂.passes hf
    refine .bind (hg.reads.ty h₂'.on ((he.passes.trans h₂'.moves).lt hl)).makes fun _ c₃ h₃ => ?_
    have h := h₂'.trans h₃.moves
    have hspan : (Node.expr (.compound ⟨e.span.lo, c₃.last, 0⟩ none .cast [e])).span =
        ⟨e.tree.span.lo, c₃.last, 0⟩ := by
      rw [Expr.tree_span]
      rfl
    refine .spanFrom _ (.pure ⟨h, .extend he.toPlaced hspan (.inl rfl) trivial nofun, ?_⟩)
    exact .extend hc he.grown (.nil h.moves) hspan
  · obtain rfl := h₂.stays (by simpa using hf)
    exact .pure he

theorem Traces.binaryFrom (hg : g.Traces ts m) (hl : s.rest.length ≤ m) (strength : Nat) (bare : Bool)
    (he : Traced ts s e.tree c) :
    Makes (g.binaryFrom strength bare e) c fun e c' => Traced ts s e.tree c' := by
  refine .iterate (I := fun e c => Traced ts s e.tree c) he.passes.on he fun left c₁ _ he => ?_
  refine .looking pendingOperator_looks fun o hw => ?_
  match o, hw with
  | none, _ => exact .pure he
  | some (strength', width), hw =>
    refine .ite (fun _ => .pure he) fun _ => ?_
    refine .bind (Yields.skip_pos he.passes.on (hw _ _ rfl)).makes fun _ c₂ h₂ => ?_
    refine .bind (hg.operand h₂.on ((he.passes.trans h₂.moves).lt hl) _ bare) fun right c₃ h₃ => .pure ?_
    exact ⟨h₂.trans h₃.passes.moves, .join he h₂.moves h₃ (by simp only [Expr.tree_span]; rfl) trivial⟩

theorem Traces.operandOf (hg : g.Traces ts m) (hc : c.On ts) (hl : c.rest.length ≤ m) (strength : Nat)
    (bare : Bool) : Makes (g.operandOf strength bare) c fun e c' => Traced ts c e.tree c' :=
  .bind (hg.casts hc hl bare) fun _ _ he => hg.binaryFrom hl strength bare he

/-! ### Ranges and assignments -/

theorem Traces.rangeFrom (hg : g.Traces ts m) (hs : s.On ts) (hl : s.rest.length ≤ m) (bare : Bool)
    (he : Traced ts s e.tree c) :
    Makes (g.rangeFrom bare e) c fun e c' => Traced ts s e.tree c' := by
  have hc := he.passes.on
  refine .looksAtOneOf 0 _ (.ite (fun _ => ?_) fun _ => .pure he)
  refine .bind (Yields.next hc).makes fun mark c₁ h₁ => .looking (canStart_looks bare) fun _ _ => ?_
  refine .ite (fun _ => ?_) fun _ => .pure ?_
  · have h := he.passes.trans h₁.passes.moves
    refine .bind (hg.operand h.on (h.lt hl) 0 bare) fun upper c₂ h₂ => .pure ?_
    exact .join he h₁.passes.moves h₂ (by simp only [Expr.tree_span]; rfl) trivial
  · have hspan : (Node.expr (.compound ⟨e.span.lo, mark.hi, 0⟩ none .range [e])).span =
        ⟨e.tree.span.lo, mark.hi, 0⟩ := by
      rw [Expr.tree_span]
      rfl
    exact ⟨.extend he.toPlaced hspan (.inl h₁.last.symm) trivial nofun,
      .extendToken hs he.grown hc.stays h₁.rest h₁.passes hspan⟩

theorem Traces.rangeOf (hg : g.Traces ts m) (hc : c.On ts) (hl : c.rest.length ≤ m) (bare : Bool) :
    Makes (g.rangeOf bare) c fun e c' => Traced ts c e.tree c' := by
  refine .traced (hg.reads.rangeOf hc hl bare) (.looksAtOneOf 0 _ (.ite (fun _ => ?_) fun _ => ?_))
  · refine .bind (Yields.next hc).makes fun mark c₁ h₁ => .looking (canStart_looks bare) fun _ _ => ?_
    refine .ite (fun _ => ?_) fun _ => .pure (.whole ?_ trivial nofun)
    · refine .bind (hg.operand h₁.passes.on (h₁.passes.lt hl) 0 bare) fun upper c₂ h₂ => .pure ?_
      exact .prefixed h₂.toPlaced (by rw [Expr.tree_span, Cursor.ahead_of_rest h₁.rest]; rfl) trivial
    · rw [Cursor.ahead_of_rest h₁.rest, h₁.last]
      rfl
  · refine .bind (hg.operandOf hc hl 0 bare) fun _ _ he => ?_
    exact (hg.rangeFrom hc hl bare he).imp fun _ _ h => h.toPlaced

theorem Traces.assignFrom (hg : g.Traces ts m) (hl : s.rest.length ≤ m) (bare : Bool)
    (he : Traced ts s e.tree c) :
    Makes (g.assignFrom bare e) c fun e c' => Traced ts s e.tree c' := by
  refine .looking assignWidth_looks fun width _ => ?_
  match width with
  | 0 => exact .pure he
  | width + 1 =>
    refine .bind (Yields.skip_pos he.passes.on (Nat.succ_pos width)).makes fun _ c₁ h₁ => ?_
    refine .bind (hg.expr h₁.on ((he.passes.trans h₁.moves).lt hl) bare) fun right c₂ h₂ => .pure ?_
    exact .join he h₁.moves h₂ (by simp only [Expr.tree_span]; rfl) trivial

theorem Traces.exprOf (hg : g.Traces ts m) (hc : c.On ts) (hl : c.rest.length ≤ m) (bare : Bool) :
    Makes (g.exprOf bare) c fun e c' => Traced ts c e.tree c' :=
  .bind (hg.rangeOf hc hl bare) fun _ _ he => hg.assignFrom hl bare he

theorem Traces.exprFrom (hg : g.Traces ts m) (hs : s.On ts) (hl : s.rest.length ≤ m)
    (he : Traced ts s e.tree c) : Makes (g.exprFrom e) c fun e c' => Traced ts s e.tree c' :=
  .bind (hg.binaryFrom hl 0 false he) fun _ _ he =>
    .bind (hg.rangeFrom hs hl false he) fun _ _ he => hg.assignFrom hl false he

end BuilderMigration.Grammar
