import BuilderMigration.Grammar.Types
import BuilderMigration.Grammar.Reading
import BuilderMigration.Proofs.Grammar.Group
import BuilderMigration.Proofs.Tree.Grown

/-! What is asked of the nonterminals that productions call, and the productions of types, patterns
and imports, which leave no tree and read at least one token. -/

namespace BuilderMigration

open Parse

/-- Two grammars that end alike on every rest of a text shorter than `n` tokens, with trees that lie
where they were read. Blocks and items are called where no token has been read, so of them one token
more is asked. A primary expression at a stray mark is endless in both. The first grammar is one of
the bounded ones. -/
structure Grammar.Reads (ts : List Token) (n : Nat) (g g' : Grammar) : Prop where
  bounded : ∃ depth, g = .ofDepth depth
  ty {c} (hc : c.On ts) (hl : c.rest.length < n) :
    Yields ts g.ty g'.ty c (fun _ c' => c.Passes ts c')
  useTree {c} (hc : c.On ts) (hl : c.rest.length < n) (path) :
    Yields ts (g.useTree path) (g'.useTree path) c (fun _ c' => c.Passes ts c')
  expr {c} (hc : c.On ts) (hl : c.rest.length < n) (bare) :
    Yields ts (g.expr bare) (g'.expr bare) c (fun e c' => Grown ts c e.tree c')
  operand {c} (hc : c.On ts) (hl : c.rest.length < n) (strength bare) :
    Yields ts (g.operand strength bare) (g'.operand strength bare) c
      (fun e c' => Grown ts c e.tree c')
  unary {c} (hc : c.On ts) (hl : c.rest.length < n) (bare) :
    Yields ts (g.unary bare) (g'.unary bare) c (fun e c' => Grown ts c e.tree c')
  primary {c} (hc : c.On ts) (hl : c.rest.length < n) (bare) :
    Yields ts (g.primary bare) (g'.primary bare) c (fun e c' => Grown ts c e.tree c')
  statementExpr {c} (hc : c.On ts) (hl : c.rest.length < n) :
    Yields ts g.statementExpr g'.statementExpr c (fun e c' => Grown ts c e.tree c')
  conditional {c} (hc : c.On ts) (hl : c.rest.length < n) :
    Yields ts g.conditional g'.conditional c (fun e c' => Grown ts c e.tree c')
  blockHere {c} (hc : c.On ts) (hn : 0 < n) (hl : c.rest.length ≤ n) (kind) :
    Yields ts (g.block kind none) (g'.block kind none) c (fun b c' => Grown ts c b.tree c')
  blockFrom {s c} (hs : s.On ts) (h : s.Moves ts c) (hl : c.rest.length < n) (kind) :
    Yields ts (g.block kind (some s.ahead)) (g'.block kind (some s.ahead)) c
      (fun b c' => Grown ts s b.tree c')
  itemHere {c} (hc : c.On ts) (hn : 0 < n) (hl : c.rest.length ≤ n) :
    Yields ts g.item g'.item c (fun i c' => Grown ts c i.tree c')
  stray {c} (hm : StrayMark c.rest) (bare) :
    g.primary bare c = .error .endless ∧ g'.primary bare c = .error .endless

namespace Grammar

variable {ts : List Token} {n : Nat} {g g' : Grammar} {c c' : Cursor}

theorem Reads.block (hg : g.Reads ts n g') (hc : c.On ts) (hl : c.rest.length < n)
    (kind : BlockKind) :
    Yields ts (g.block kind none) (g'.block kind none) c (fun b c' => Grown ts c b.tree c') :=
  hg.blockHere hc (Nat.zero_lt_of_lt hl) (Nat.le_of_lt hl) kind

/-! ### Types -/

/-- The end of a turn that reads one name of a path: it goes on behind a double colon. -/
theorem nameEnd_yields (h : c.Passes ts c') (name : String) :
    Yields ts (do
        if (← nextIs "::") && (← looksAtKind 1 .ident) then
          skip 1
          return .one name
        return .last name () : Parse (Turn String Unit)) (do
        if (← nextIs "::") && (← looksAtKind 1 .ident) then
          skip 1
          return .one name
        return .last name ()) c'
      (Turn.Leads ts (fun c _ _ c' => c.Passes ts c') c) := by
  refine .looksAt 0 "::" (.looksAtKind 1 .ident (.ite (fun _ => ?_) fun _ => .pure h))
  refine .bind (.skip_one h.on) fun _ c₂ h₂ => .pure ?_
  exact ⟨h.trans h₂.moves, fun _ _ _ h₃ => (h.trans h₂.moves).trans h₃.moves⟩

theorem Reads.pathType (hg : g.Reads ts n g') (hc : c.On ts) (hl : c.rest.length ≤ n) :
    Yields ts g.pathType g'.pathType c (fun _ c' => c.Passes ts c') := by
  apply Yields.bind (.accept hc "::")
  intro _ c₁ h₁
  refine .bind (Yields.collect (Q := fun c _ _ c' => c.Passes ts c') h₁.moves.on
    fun c₂ h₂ => ?_) fun _ c₂ h₂ => .pure (h₁.moves.trans_passes h₂)
  apply Yields.bind (.expectName h₂.on)
  intro name c₃ h₃
  refine .looksAt 0 "<" (.ite (fun _ => ?_) fun _ => ?_)
  · apply Yields.bind (.skipGenerics h₃.on)
    intro _ c₄ h₄
    exact nameEnd_yields (h₃.trans h₄.moves) name
  refine .looksAt 0 "::" (.looksAt 1 "<" (.ite (fun _ => ?_) fun _ => ?_))
  · apply Yields.bind (.skip_one h₃.on)
    intro _ c₄ h₄
    apply Yields.bind (.skipGenerics h₄.on)
    intro _ c₅ h₅
    exact nameEnd_yields (h₃.trans (h₄.trans h₅.moves).moves) name
  refine .looksAt 0 "(" (.ite (fun _ => ?_) fun _ => nameEnd_yields h₃ name)
  apply Yields.bind (.skipGroup h₃.on)
  intro _ c₄ h₄
  have h₄' := h₃.trans h₄.moves
  apply Yields.bind (.accept h₄.on "->")
  intro _ c₅ h₅
  have h₅' := h₄'.trans h₅.moves
  refine .ite (fun _ => ?_) fun _ => nameEnd_yields h₅' name
  apply Yields.bind (hg.ty h₅.moves.on ((h₂.trans_passes h₅').lt (h₁.moves.le hl)))
  intro _ c₆ h₆
  exact nameEnd_yields (h₅'.trans h₆.moves) name

theorem Reads.bounds (hg : g.Reads ts n g') (hc : c.On ts) (hl : c.rest.length ≤ n) :
    Yields ts g.bounds g'.bounds c (fun _ c' => c.Moves ts c') := by
  apply Yields.repeat hc
  intro c₁ h₁
  -- Whatever a bound is, another one may follow behind a plus sign.
  have hend (c₂) (h₂ : c₁.Passes ts c₂) : Yields ts
      (do if ← accept "+" then return .inl () else return .inr () : Parse (Unit ⊕ Unit))
      (do if ← accept "+" then return .inl () else return .inr ()) c₂
      (fun r c₃ => c₁.Moves ts c₃ ∧ (r.isLeft = true → c₁.Passes ts c₃)) := by
    apply Yields.bind (.accept h₂.on "+")
    intro _ c₃ h₃
    have h := h₂.trans h₃.moves
    exact .ite (fun _ => .pure ⟨h.moves, fun _ => h⟩) fun _ => .pure ⟨h.moves, fun _ => h⟩
  apply Yields.bind (.accept h₁.on "?")
  intro _ c₂ h₂
  apply Yields.bind (.acceptKind h₂.moves.on .lifetime)
  intro found c₃ h₃
  refine .ite (fun hf => hend c₃ (h₂.moves.trans_passes (h₃.passes hf))) fun _ => ?_
  have h₃' := h₂.moves.trans h₃.moves
  refine .looksAt 0 "(" (.ite (fun _ => ?_) fun _ => ?_)
  · apply Yields.bind (.skipGroup h₃.moves.on)
    intro _ c₄ h₄
    exact hend c₄ (h₃'.trans_passes h₄)
  apply Yields.bind (.accept h₃.moves.on "for")
  intro _ c₄ h₄
  have h₄' := h₃'.trans h₄.moves
  have hpath (c₅) (h₅ : c₄.Moves ts c₅) := hg.pathType h₅.on (h₅.le ((h₁.trans h₄').le hl))
  refine .ite (fun _ => ?_) fun _ => ?_
  · apply Yields.bind (.skipGenerics h₄.moves.on)
    intro _ c₅ h₅
    apply Yields.bind (hpath c₅ h₅.moves)
    intro _ c₆ h₆
    exact hend c₆ (h₄'.trans_passes (h₅.trans h₆.moves))
  · apply Yields.bind (hpath c₄ h₄.moves.on.stays)
    intro _ c₅ h₅
    exact hend c₅ (h₄'.trans_passes h₅)

theorem Reads.referenceType (hg : g.Reads ts n g') (hc : c.On ts) (hl : c.rest.length ≤ n)
    (mark : Token) : Yields ts (g.referenceType mark) (g'.referenceType mark) c
      (fun _ c' => c.Passes ts c') := by
  apply Yields.bind (.skip_one hc)
  intro _ c₁ h₁
  apply Yields.bind (.acceptKind h₁.on .lifetime)
  intro _ c₂ h₂
  apply Yields.bind (.accept h₂.moves.on "mut")
  intro _ c₃ h₃
  have h₃' := h₁.trans (h₂.moves.trans h₃.moves)
  exact .bind (hg.ty h₃'.on (h₃'.lt hl)) fun _ c₄ h₄ => .pure (h₃'.trans h₄.moves)

theorem Reads.pointerType (hg : g.Reads ts n g') (hc : c.On ts) (hl : c.rest.length ≤ n) :
    Yields ts g.pointerType g'.pointerType c (fun _ c' => c.Passes ts c') := by
  apply Yields.bind (.skip_one hc)
  intro _ c₁ h₁
  apply Yields.bind (.accept h₁.on "const")
  intro _ c₂ h₂
  have h₂' := h₁.trans h₂.moves
  extract_lets rest rest'
  have hrest (c₃) (h₃ : c.Passes ts c₃) :
      Yields ts (rest ()) (rest' ()) c₃ (fun _ c' => c.Passes ts c') :=
    .bind (hg.ty h₃.on (h₃.lt hl)) fun _ c₄ h₄ => .pure (h₃.trans h₄.moves)
  refine .ite (fun _ => hrest c₂ h₂') fun _ => ?_
  exact .bind (.expect h₂.moves.on "mut") fun _ c₃ h₃ => hrest c₃ (h₂'.trans h₃.passes.moves)

theorem Reads.tupleType (hg : g.Reads ts n g') (hc : c.On ts) (hl : c.rest.length ≤ n) :
    Yields ts g.tupleType g'.tupleType c (fun _ c' => c.Passes ts c') := by
  apply Yields.bind (.skip_one hc)
  intro _ c₁ h₁
  refine .bind (.commaList_moves h₁.on ")" fun c₂ h₂ => hg.ty h₂.on (h₂.lt (h₁.lt hl)))
    fun r c₂ h₂ => ?_
  apply Yields.bind (.expect h₂.on ")")
  intro _ c₃ h₃
  obtain ⟨elems, trailing⟩ := r
  have h := h₁.trans (h₂.trans h₃.passes.moves)
  split <;> exact .pure h

theorem Reads.qualifiedType (hg : g.Reads ts n g') (hc : c.On ts) (hl : c.rest.length ≤ n) :
    Yields ts g.qualifiedType g'.qualifiedType c (fun _ c' => c.Passes ts c') := by
  apply Yields.bind (.skipGenerics hc)
  intro _ c₁ h₁
  refine .bind (Yields.repeat h₁.on fun c₂ h₂ => ?_) fun _ c₂ h₂ => .pure (h₁.trans h₂)
  refine .bind (.accept h₂.on "::") fun _ c₃ h₃ => .ite (fun hf => ?_) fun _ => ?_
  · refine .bind (hg.pathType h₃.moves.on ((h₁.trans (h₂.trans h₃.moves)).moves.le hl))
      fun _ c₄ h₄ => ?_
    have h := h₃.moves.trans_passes h₄
    exact .pure ⟨h.moves, fun _ => h⟩
  · exact .pure ⟨h₃.moves, nofun⟩

theorem Reads.functionType (hg : g.Reads ts n g') (hc : c.On ts) (hl : c.rest.length ≤ n) :
    Yields ts g.functionType g'.functionType c (fun _ c' => c.Passes ts c') := by
  apply Yields.bind (.accept hc "unsafe")
  intro _ c₁ h₁
  apply Yields.bind (.accept h₁.moves.on "extern")
  intro _ c₂ h₂
  extract_lets last rest rest'
  have hrest (c₃) (h₃ : c.Moves ts c₃) :
      Yields ts (rest ()) (rest' ()) c₃ (fun _ c' => c.Passes ts c') := by
    apply Yields.bind (.expect h₃.on "fn")
    intro _ c₄ h₄
    apply Yields.bind (.skipGroup h₄.passes.on)
    intro _ c₅ h₅
    apply Yields.bind (.accept h₅.on "->")
    intro _ c₆ h₆
    have h := h₃.trans_passes (h₄.passes.trans (h₅.moves.trans h₆.moves))
    refine .ite (fun _ => ?_) fun _ => .pure h
    exact .bind (hg.ty h.on (h.lt hl)) fun _ c₇ h₇ => .pure (h.trans h₇.moves)
  refine .ite (fun _ => ?_) fun _ => ?_
  · apply Yields.bind (.acceptKind h₂.moves.on .string)
    intro _ c₃ h₃
    exact hrest c₃ (h₁.moves.trans (h₂.moves.trans h₃.moves))
  · exact hrest c₂ (h₁.moves.trans h₂.moves)

theorem Reads.typeOf (hg : g.Reads ts n g') (hc : c.On ts) (hl : c.rest.length ≤ n) :
    Yields ts g.typeOf g'.typeOf c (fun _ c' => c.Passes ts c') := by
  refine .lookNext (fun _ => .rejectEnd _) fun t us _ => ?_
  refine .ite (fun _ => hg.referenceType hc hl t) fun _ => ?_
  refine .ite (fun _ => hg.pointerType hc hl) fun _ => ?_
  refine .ite (fun _ => hg.tupleType hc hl) fun _ => ?_
  refine .ite (fun _ => .bind (.skipGroup hc) fun _ _ h => .pure h) fun _ => ?_
  refine .ite (fun _ => .bind (.skip_one hc) fun _ _ h => .pure h) fun _ => ?_
  refine .ite (fun _ => hg.qualifiedType hc hl) fun _ => ?_
  refine .ite (fun _ => ?_) fun _ => ?_
  · apply Yields.bind (.skip_one hc)
    intro _ c₁ h₁
    exact .bind (hg.bounds h₁.on (h₁.moves.le hl)) fun _ c₂ h₂ => .pure (h₁.trans h₂)
  refine .ite (fun _ => ?_) fun _ => ?_
  · refine .bind (.skip_one hc) fun _ c₁ h₁ => .bind (.skipGenerics h₁.on) fun _ c₂ h₂ => ?_
    have h := h₁.trans h₂.moves
    exact (hg.ty h.on (h.lt hl)).imp fun _ c₃ h₃ => h.trans h₃.moves
  refine .ite (fun _ => hg.functionType hc hl) fun _ => ?_
  refine .ite (fun _ => .bind (.skip_one hc) fun _ _ h => .pure h) fun _ => ?_
  exact .ite (fun _ => .bind (hg.pathType hc hl) fun _ _ h => .pure h) fun _ => .reject ..

theorem Reads.declaredType (hg : g.Reads ts n g') (hc : c.On ts) (hl : c.rest.length ≤ n) :
    Yields ts g.declaredType g'.declaredType c (fun _ c' => c.Moves ts c') := by
  refine .bind (.accept hc ":") fun _ c₁ h₁ => .ite (fun hf => ?_) fun _ => .pure h₁.moves
  have h := h₁.passes hf
  exact .bind (hg.ty h.on (h.lt hl)) fun _ c₂ h₂ => .pure (h.trans h₂.moves).moves

/-! ### Patterns -/

theorem patternTokens_yields (hc : c.On ts) (stops : List String) :
    Yields ts (patternTokens stops) (patternTokens stops) c (fun _ c' => c.Passes ts c') := by
  refine .peek (a := c) rfl (.bind (.sweep hc ..) fun _ c₁ h₁ => .peek (a := c₁) rfl ?_)
  dsimp only
  cases htake : c.rest.take (c.rest.length - c₁.rest.length) with
  | nil =>
    cases c₁.rest with
    | nil => exact .throw
    | cons t us => exact .reject ..
  | cons t us =>
    refine .pure (Cursor.Passes.of hc h₁.on ?_)
    have := congrArg List.length htake
    simp only [List.length_take, List.length_cons] at this
    omega

theorem pattern_yields (hc : c.On ts) (stops : List String) :
    Yields ts (pattern stops) (pattern stops) c (fun _ c' => c.Passes ts c') :=
  .bind (patternTokens_yields hc stops) fun _ _ h => .pure h

/-! ### Imports -/

theorem useName_yields (hc : c.On ts) (path : List String) (name : String) :
    Yields ts (useName path name) (useName path name) c (fun _ c' => c.Moves ts c') := by
  refine .bind (.accept hc "as") fun _ c₁ h₁ => .ite (fun _ => ?_) fun _ => .pure h₁.moves
  exact .bind (.expectName h₁.moves.on) fun _ c₂ h₂ => .pure (h₁.moves.trans h₂.moves)

theorem Reads.usePath (hg : g.Reads ts n g') (hc : c.On ts) (hl : c.rest.length ≤ n)
    (path : List String) :
    Yields ts (g.usePath path) (g'.usePath path) c (fun _ c' => c.Passes ts c') := by
  refine .iterate (I := fun _ c₁ => c.Moves ts c₁) hc hc.stays fun path c₁ h₁ _ => ?_
  apply Yields.bind (.expectName h₁.on)
  intro name c₂ h₂
  have h₂' := h₁.trans_passes h₂
  apply Yields.bind (.accept h₂.on "::")
  intro _ c₃ h₃
  have h₃' := h₂'.trans h₃.moves
  refine .ite (fun _ => ?_) fun _ => ?_
  · refine .looksAt 0 "\x7b" (.looksAt 0 "*" (.ite (fun _ => ?_) fun _ => ?_))
    · apply Yields.bind (hg.useTree h₃.moves.on (h₃'.lt hl) _)
      intro _ c₄ h₄
      exact .pure (h₃'.trans h₄.moves)
    · exact .pure ⟨h₂.trans h₃.moves, h₃'.moves⟩
  · apply Yields.bind (useName_yields h₃.moves.on path name)
    intro _ c₄ h₄
    exact .pure (h₃'.trans h₄)

theorem Reads.useTreeOf (hg : g.Reads ts n g') (hc : c.On ts) (hl : c.rest.length ≤ n)
    (path : List String) :
    Yields ts (g.useTreeOf path) (g'.useTreeOf path) c (fun _ c' => c.Passes ts c') := by
  apply Yields.bind (.accept hc "::")
  intro _ c₁ h₁
  refine .bind (.accept h₁.moves.on "\x7b") fun _ c₂ h₂ => .ite (fun hf => ?_) fun _ => ?_
  · have h := h₁.moves.trans_passes (h₂.passes hf)
    refine .bind (.commaList_moves h.on "\x7d" fun c₃ h₃ => hg.useTree h₃.on (h₃.lt (h.lt hl)) path)
      fun _ c₃ h₃ => .bind (.expect h₃.on "\x7d") fun _ c₄ h₄ => ?_
    exact .pure (h.trans (h₃.trans h₄.passes.moves))
  refine .bind (.accept h₂.moves.on "*") fun _ c₃ h₃ => .ite (fun hf => ?_) fun _ => ?_
  · exact .pure ((h₁.moves.trans h₂.moves).trans_passes (h₃.passes hf))
  · have h := h₁.moves.trans (h₂.moves.trans h₃.moves)
    exact (hg.usePath h.on (h.le hl) path).imp fun _ _ h' => h.trans_passes h'

end Grammar

end BuilderMigration
