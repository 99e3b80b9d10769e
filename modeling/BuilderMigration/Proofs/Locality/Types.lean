import BuilderMigration.Proofs.Halting.Types
import BuilderMigration.Proofs.Locality.Local

/-! The productions of types, patterns and imports are local. Where one looks two tokens ahead the
next token closes no group, so that the one behind it is there. -/

namespace BuilderMigration

open Parse

/-- Whether some tokens are read as the arguments of a macro call, or given up, without a want of
tokens behind them. -/
def Grammar.ReadsWithin (g : Grammar) (d : Delimiter) (ts : List Token) : Prop :=
  ∀ e, g.macroList d ⟨ts, 0⟩ = .error e → ¬ e.AtEnd

/-- A grammar whose nonterminals are local in a group. The arguments of a macro call within the group
are tried first and then passed over; of these it is asked that the group holds all that is tried. -/
structure Grammar.LocalIn (G : TokenGroup) (outer : List Token) (g : Grammar) : Prop where
  ty {k} : Local G outer k g.ty
  useTree {k} (path) : Local G outer k (g.useTree path)
  expr {k} (bare) : Local G outer k (g.expr bare)
  operand {k} (strength bare) : Local G outer k (g.operand strength bare)
  unary {k} (bare) : Local G outer k (g.unary bare)
  primary {k} (bare) : Local G outer k (g.primary bare)
  statementExpr {k} : Local G outer k g.statementExpr
  conditional {k} : Local G outer k g.conditional
  block {k} (kind lo) : Local G outer k (g.block kind lo)
  item {k} : Local G outer k g.item
  macros {m us d} (hs : m :: us <:+ G.tokens) (hm : m.is "!" = true)
    (hd : us.head?.bind (·.opens?) = some d) : g.ReadsWithin d us

namespace Grammar

variable {G : TokenGroup} {outer : List Token} {k : Nat} {g : Grammar}

/-! ### Types -/

/-- The end of a turn that reads one name of a path. -/
theorem nameEnd_local (name : String) :
    Local G outer k (do
        if (← nextIs "::") && (← looksAtKind 1 .ident) then
          skip 1
          return .one name
        return .last name () : Parse (Turn String Unit)) :=
  .ahead (.inl rfl) (by decide) (fun _ => rfl) (.bind (.skip 1) fun _ => .pure) .pure

theorem LocalIn.pathType (hg : g.LocalIn G outer) : Local G outer k g.pathType := by
  refine .bind (.accept "::") fun _ => .bind (.collect ?_) fun _ => .pure
  refine .bind .expectName fun name => .whether (.nextIs "<") ?_ ?_
  · exact .bind .skipGenerics fun _ => nameEnd_local name
  refine .ahead (.inl rfl) (by decide) (fun _ => rfl) ?_ ?_
  · exact .bind (.skip 1) fun _ => .bind .skipGenerics fun _ => nameEnd_local name
  refine .looking (.nextIs "(") fun _ => .ite (fun _ => ?_) fun _ => nameEnd_local name
  refine .bind .skipGroup fun _ => .bind (.accept "->") fun _ => ?_
  refine .ite (fun _ => ?_) fun _ => nameEnd_local name
  exact .bind hg.ty fun _ => nameEnd_local name

theorem LocalIn.bounds (hg : g.LocalIn G outer) : Local G outer k g.bounds := by
  refine .iterate (fun _ => ?_) ()
  -- Whatever a bound is, another one may follow behind a plus sign.
  have hend : Local G outer 0
      (do if ← accept "+" then return .inl () else return .inr () : Parse (Unit ⊕ Unit)) :=
    .bind (.accept "+") fun _ => .ite (fun _ => .pure) fun _ => .pure
  refine .bind (.accept "?") fun _ => .bind (.acceptKind .lifetime) fun _ => ?_
  refine .ite (fun _ => hend) fun _ => .whether (.nextIs "(") (.bind .skipGroup fun _ => hend) ?_
  refine .bind (.accept "for") fun _ => .ite (fun _ => ?_) fun _ => ?_
  · exact .bind .skipGenerics fun _ => .bind hg.pathType fun _ => hend
  · exact .bind hg.pathType fun _ => hend

theorem LocalIn.referenceType (hg : g.LocalIn G outer) (mark : Token) :
    Local G outer k (g.referenceType mark) :=
  .bind (.skip 1) fun _ => .bind (.acceptKind .lifetime) fun _ => .bind (.accept "mut") fun _ =>
    .bind hg.ty fun _ => .pure

theorem LocalIn.pointerType (hg : g.LocalIn G outer) : Local G outer k g.pointerType := by
  refine .bind (.skip 1) fun _ => .bind (.accept "const") fun _ => ?_
  extract_lets rest
  have hrest : Local G outer 0 (rest ()) := .bind hg.ty fun _ => .pure
  exact .ite (fun _ => hrest) fun _ => .bind (.expect "mut") fun _ => hrest

theorem LocalIn.tupleType (hg : g.LocalIn G outer) : Local G outer k g.tupleType := by
  refine .bind (.skip 1) fun _ => .bind (.commaList ")" hg.ty) fun r => .bind (.expect ")") fun _ => ?_
  obtain ⟨_ | ⟨ty, _ | ⟨ty', tys⟩⟩, _ | _⟩ := r <;> exact .pure

theorem LocalIn.qualifiedType (hg : g.LocalIn G outer) : Local G outer k g.qualifiedType := by
  refine .bind .skipGenerics fun _ => .bind (.iterate (fun _ => ?_) ()) fun _ => .pure
  exact .bind (.accept "::") fun _ => .ite (fun _ => .bind hg.pathType fun _ => .pure) fun _ => .pure

theorem LocalIn.functionType (hg : g.LocalIn G outer) : Local G outer k g.functionType := by
  refine .bind (.accept "unsafe") fun _ => .bind (.accept "extern") fun _ => ?_
  extract_lets last rest
  have hrest : Local G outer 0 (rest ()) := by
    refine .bind (.expect "fn") fun _ => .bind .skipGroup fun _ => .bind (.accept "->") fun _ => ?_
    exact .ite (fun _ => .bind hg.ty fun _ => .pure) fun _ => .pure
  exact .ite (fun _ => .bind (.acceptKind .string) fun _ => hrest) fun _ => hrest

theorem LocalIn.typeOf (hg : g.LocalIn G outer) : Local G outer k g.typeOf := by
  refine .lookNext (.rejectEnd _) fun t => ?_
  refine .ite (fun _ => hg.referenceType t) fun _ => .ite (fun _ => hg.pointerType) fun _ => ?_
  refine .ite (fun _ => hg.tupleType) fun _ => ?_
  refine .ite (fun _ => .bind .skipGroup fun _ => .pure) fun _ => ?_
  refine .ite (fun _ => .bind (.skip 1) fun _ => .pure) fun _ => ?_
  refine .ite (fun _ => hg.qualifiedType) fun _ => ?_
  refine .ite (fun _ => .bind (.skip 1) fun _ => .bind hg.bounds fun _ => .pure) fun _ => ?_
  refine .ite (fun _ => .bind (.skip 1) fun _ => .bind .skipGenerics fun _ => hg.ty) fun _ => ?_
  refine .ite (fun _ => hg.functionType) fun _ => ?_
  refine .ite (fun _ => .bind (.skip 1) fun _ => .pure) fun _ => ?_
  exact .ite (fun _ => .bind hg.pathType fun _ => .pure) fun _ => .reject _ _

theorem LocalIn.declaredType (hg : g.LocalIn G outer) : Local G outer k g.declaredType :=
  .bind (.accept ":") fun _ => .ite (fun _ => .bind hg.ty fun _ => .pure) fun _ => .pure

/-! ### Patterns -/

/-- The tokens of a pattern are told by how many fewer are left behind it. -/
theorem patternTokens_local (stops : List String) : Local G outer k (patternTokens stops) where
  run c hs hk := by
    refine .standing ?_
    refine ((Local.sweep _ _ _).run c hs hk).bind fun _ c₁ _ hs₁ => ?_
    refine .standing ?_
    have htaken : (c.before outer).rest.take
        ((c.before outer).rest.length - (c₁.before outer).rest.length) =
          c.rest.take (c.rest.length - c₁.rest.length) := by
      simp only [Cursor.before, List.length_append, Nat.add_sub_add_right,
        List.take_append_of_le_length (Nat.sub_le _ _)]
    dsimp only
    rw [htaken]
    cases c.rest.take (c.rest.length - c₁.rest.length) with
    | cons t ts => exact .pure
    | nil =>
      cases hr : c₁.rest with
      | nil => exact .wanting rfl
      | cons t us =>
        rw [Cursor.before, hr]
        exact .reject t _ (by rw [hr]; exact List.cons_ne_nil t us)

theorem pattern_local (stops : List String) : Local G outer k (pattern stops) :=
  .bind (patternTokens_local stops) fun _ => .pure

/-! ### Imports -/

theorem useName_local (path : List String) (name : String) :
    Local G outer k (useName path name) := by
  refine .bind (.accept "as") fun _ => .ite (fun _ => ?_) fun _ => .pure
  exact .bind .expectName fun _ => .pure

theorem LocalIn.usePath (hg : g.LocalIn G outer) (path : List String) :
    Local G outer k (g.usePath path) := by
  refine .iterate (fun path => .bind .expectName fun name => ?_) path
  refine .bind (.accept "::") fun _ => .ite (fun _ => ?_) fun _ => ?_
  · refine .looking (.nextIs "\x7b") fun _ => .looking (.nextIs "*") fun _ => ?_
    exact .ite (fun _ => .bind (hg.useTree _) fun _ => .pure) fun _ => .pure
  · exact .bind (useName_local path name) fun _ => .pure

theorem LocalIn.useTreeOf (hg : g.LocalIn G outer) (path : List String) :
    Local G outer k (g.useTreeOf path) := by
  refine .bind (.accept "::") fun _ => .bind (.accept "\x7b") fun _ => .ite (fun _ => ?_) fun _ => ?_
  · refine .bind (.commaList "\x7d" (hg.useTree path)) fun _ => .bind (.expect "\x7d") fun _ => ?_
    exact .pure
  · exact .bind (.accept "*") fun _ => .ite (fun _ => .pure) fun _ => hg.usePath path

end Grammar

end BuilderMigration
