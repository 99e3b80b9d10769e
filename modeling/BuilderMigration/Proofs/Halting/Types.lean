import BuilderMigration.Grammar.Reading
import BuilderMigration.Proofs.Halting.Halts

/-! The productions of types, patterns and imports halt: each takes a token before it calls another
nonterminal, so that one is left with fewer. -/

namespace BuilderMigration

open Parse

/-- Two grammars whose nonterminals halt alike, and take a token, where fewer than `n` are left.
Blocks and items are called before a token is taken, so of them one token more is asked. -/
structure Grammar.HaltsBelow (n : Nat) (g g' : Grammar) : Prop where
  ty : Halts n (fun _ => True) g.ty g'.ty
  useTree (path) : Halts n (fun _ => True) (g.useTree path) (g'.useTree path)
  expr (bare) : Halts n (fun _ => True) (g.expr bare) (g'.expr bare)
  operand (strength bare) :
    Halts n (fun _ => True) (g.operand strength bare) (g'.operand strength bare)
  unary (bare) : Halts n (fun _ => True) (g.unary bare) (g'.unary bare)
  primary (bare) : Halts n (fun _ => True) (g.primary bare) (g'.primary bare)
  statementExpr : Halts n (fun _ => True) g.statementExpr g'.statementExpr
  conditional : Halts n (fun _ => True) g.conditional g'.conditional
  blockHere (hn : 0 < n) (kind lo) :
    Halts (n + 1) (fun _ => True) (g.block kind lo) (g'.block kind lo)
  itemHere (hn : 0 < n) : Halts (n + 1) (fun _ => True) g.item g'.item

namespace Grammar

variable {n : Nat} {g g' : Grammar}

theorem HaltsBelow.block (hg : g.HaltsBelow n g') (kind : BlockKind) (lo : Option Int) :
    Halts n (fun _ => True) (g.block kind lo) (g'.block kind lo) := by
  cases n with
  | zero => exact .zero
  | succ n => exact (hg.blockHere (Nat.succ_pos n) kind lo).lower

/-! ### Types -/

/-- The end of a turn that reads one name of a path. -/
theorem nameEnd_halts (name : String) :
    Halts n (fun _ => False) (do
        if (← nextIs "::") && (← looksAtKind 1 .ident) then
          skip 1
          return .one name
        return .last name () : Parse (Turn String Unit)) (do
        if (← nextIs "::") && (← looksAtKind 1 .ident) then
          skip 1
          return .one name
        return .last name ()) := by
  refine .looking (.nextIs "::") fun _ _ => .looking (.looksAtKind 1 .ident) fun _ _ => ?_
  exact .ite (fun _ => .bind .skip_one fun _ => .pure id) fun _ => .pure id

theorem HaltsBelow.pathType (hg : g.HaltsBelow n g') :
    Halts (n + 1) (fun _ => True) g.pathType g'.pathType := by
  refine .bind (.accept "::") fun _ => .taken (.collect True ?_) fun _ => .pure id
  refine .past .expectName fun name => ?_
  have hend := nameEnd_halts (n := n) name
  refine .whether (.nextIs "<") (.bind .skipGenerics fun _ => hend) ?_
  refine .looking (.nextIs "::") fun _ _ => .looking (.looksAt 1 "<") fun _ _ => .ite (fun _ => ?_) fun _ => ?_
  · exact .bind .skip_one fun _ => .bind .skipGenerics fun _ => hend
  refine .looking (.nextIs "(") fun _ _ => .ite (fun _ => ?_) fun _ => hend
  refine .bind .skipGroup fun _ => .bind (.accept "->") fun _ => .ite (fun _ => ?_) fun _ => hend
  exact .bind hg.ty fun _ => hend

theorem HaltsBelow.bounds (hg : g.HaltsBelow n g') :
    Halts (n + 1) (fun _ => False) g.bounds g'.bounds := by
  refine .iterate _ (fun _ => ?_) ()
  -- Whatever a bound is, another one may follow behind a plus sign.
  have hend : Halts (n + 1) (fun _ => False)
      (do if ← accept "+" then return .inl () else return .inr () : Parse (Unit ⊕ Unit))
      (do if ← accept "+" then return .inl () else return .inr ()) :=
    .bind (.accept "+") fun _ => .ite (fun _ => .pure id) fun _ => .pure id
  refine .bind (.accept "?") fun _ => .branchIf (.acceptKind .lifetime) hend.lower ?_
  refine .whether (.nextIs "(") (.taken .skipGroup fun _ => hend) ?_
  refine .bind (.accept "for") fun _ => .ite (fun _ => ?_) fun _ => ?_
  · exact .taken .skipGenerics fun _ => .bind hg.pathType fun _ => hend
  · exact .taken hg.pathType fun _ => hend

theorem HaltsBelow.referenceType (hg : g.HaltsBelow n g') (mark : Token) :
    Halts (n + 1) (fun _ => True) (g.referenceType mark) (g'.referenceType mark) := by
  refine .past .skip_one fun _ => .bind (.acceptKind .lifetime) fun _ => .bind (.accept "mut") fun _ => ?_
  exact .bind hg.ty fun _ => .pure id

theorem HaltsBelow.pointerType (hg : g.HaltsBelow n g') :
    Halts (n + 1) (fun _ => True) g.pointerType g'.pointerType := by
  refine .past .skip_one fun _ => .bind (.accept "const") fun _ => ?_
  extract_lets rest rest'
  have hrest : Halts n (fun _ => False) (rest ()) (rest' ()) := .bind hg.ty fun _ => .pure id
  exact .ite (fun _ => hrest) fun _ => .bind (.expect "mut") fun _ => hrest

theorem HaltsBelow.tupleType (hg : g.HaltsBelow n g') :
    Halts (n + 1) (fun _ => True) g.tupleType g'.tupleType := by
  refine .past .skip_one fun _ => .bind (.commaList ")" hg.ty) fun r => .bind (.expect ")") fun _ => ?_
  obtain ⟨_ | ⟨ty, _ | ⟨ty', tys⟩⟩, _ | _⟩ := r <;> exact .pure id

theorem HaltsBelow.qualifiedType (hg : g.HaltsBelow n g') :
    Halts (n + 1) (fun _ => True) g.qualifiedType g'.qualifiedType := by
  refine .taken .skipGenerics fun _ => .bind (.iterate False (fun _ => ?_) ()) fun _ => .pure id
  exact .branchIf (.accept "::") (.bind hg.pathType.lower fun _ => .pure id) (.pure (by simp))

theorem HaltsBelow.functionType (hg : g.HaltsBelow n g') :
    Halts (n + 1) (fun _ => True) g.functionType g'.functionType := by
  refine .bind (.accept "unsafe") fun _ => .bind (.accept "extern") fun _ => ?_
  extract_lets last rest rest'
  have hrest : Halts (n + 1) (fun _ => True) (rest ()) (rest' ()) := by
    refine .past (.expect "fn") fun _ => .bind .skipGroup fun _ => .bind (.accept "->") fun _ => ?_
    exact .ite (fun _ => .bind hg.ty fun _ => .pure id) fun _ => .pure id
  exact .ite (fun _ => .bind (.acceptKind .string) fun _ => hrest) fun _ => hrest

theorem HaltsBelow.typeOf (hg : g.HaltsBelow n g') :
    Halts (n + 1) (fun _ => True) g.typeOf g'.typeOf := by
  refine .lookNext (.rejectEnd _) fun t _ => ?_
  refine .ite (fun _ => hg.referenceType t) fun _ => .ite (fun _ => hg.pointerType) fun _ => ?_
  refine .ite (fun _ => hg.tupleType) fun _ => ?_
  refine .ite (fun _ => .taken .skipGroup fun _ => .pure id) fun _ => ?_
  refine .ite (fun _ => .taken .skip_one fun _ => .pure id) fun _ => ?_
  refine .ite (fun _ => hg.qualifiedType) fun _ => ?_
  refine .ite (fun _ => .taken .skip_one fun _ => .bind hg.bounds fun _ => .pure id) fun _ => ?_
  refine .ite (fun _ => .past .skip_one fun _ => .bind .skipGenerics fun _ => hg.ty.keep) fun _ => ?_
  refine .ite (fun _ => hg.functionType) fun _ => ?_
  refine .ite (fun _ => .taken .skip_one fun _ => .pure id) fun _ => ?_
  exact .ite (fun _ => .taken hg.pathType fun _ => .pure id) fun _ => .reject _ _

theorem HaltsBelow.declaredType (hg : g.HaltsBelow n g') :
    Halts n (fun _ => False) g.declaredType g'.declaredType :=
  .bind (.accept ":") fun _ => .ite (fun _ => .bind hg.ty fun _ => .pure id) fun _ => .pure id

/-! ### Patterns -/

/-- A pattern without tokens is rejected. -/
theorem patternTokens_halts (stops : List String) :
    Halts n (fun _ => True) (patternTokens stops) (patternTokens stops) where
  run c hn hm := by
    refine .peek (a := c) rfl (((Halts.sweep _ _ _).run c hn hm).bind fun _ c₁ hs _ => ?_)
    by_cases hl : c₁.rest.length < c.rest.length
    · refine ⟨fun _ => False, .peek (a := c₁) rfl ?_, fun _ _ => .inr hl⟩
      extract_lets after
      cases c.rest.take (c.rest.length - after.length) with
      | cons t ts => exact .pure id
      | nil => cases after <;> exact ⟨rfl, nofun⟩
    · refine ⟨fun _ => True, .peek (a := c₁) rfl ?_, fun _ _ => .inl trivial⟩
      extract_lets after
      rw [Nat.sub_eq_zero_of_le (Nat.le_of_not_lt hl), List.take_zero]
      cases after <;> exact ⟨rfl, nofun⟩

theorem pattern_halts (stops : List String) :
    Halts n (fun _ => True) (pattern stops) (pattern stops) :=
  .taken (patternTokens_halts stops) fun _ => .pure id

/-! ### Imports -/

theorem useName_halts (path : List String) (name : String) :
    Halts n (fun _ => False) (useName path name) (useName path name) := by
  refine .bind (.accept "as") fun _ => .ite (fun _ => ?_) fun _ => .pure id
  exact .bind .expectName fun _ => .pure id

theorem HaltsBelow.usePath (hg : g.HaltsBelow n g') (path : List String) :
    Halts (n + 1) (fun _ => True) (g.usePath path) (g'.usePath path) := by
  refine .iterate _ (fun path => .past .expectName fun name => ?_) path
  refine .bind (.accept "::") fun _ => .ite (fun _ => ?_) fun _ => ?_
  · refine .looking (.nextIs "\x7b") fun _ _ => .looking (.nextIs "*") fun _ _ => ?_
    exact .ite (fun _ => .bind (hg.useTree _) fun _ => .pure id) fun _ => .pure id
  · exact .bind (useName_halts path name) fun _ => .pure id

theorem HaltsBelow.useTreeOf (hg : g.HaltsBelow n g') (path : List String) :
    Halts (n + 1) (fun _ => True) (g.useTreeOf path) (g'.useTreeOf path) := by
  refine .bind (.accept "::") fun _ => .branchIf (.accept "\x7b") ?_ ?_
  · refine .bind (.commaList "\x7d" (hg.useTree path)) fun _ => .bind (.expect "\x7d") fun _ => ?_
    exact .pure id
  · exact .branchIf (.accept "*") (.pure id) (hg.usePath path)

end Grammar

end BuilderMigration
