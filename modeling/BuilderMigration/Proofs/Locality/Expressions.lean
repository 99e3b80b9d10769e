import BuilderMigration.Proofs.Grammar.Expressions
import BuilderMigration.Proofs.Locality.Types

/-! The productions of expressions are local. A macro call within the group is where the group has to
hold more than what is read of it in the end: a list of arguments that is given up must not have been
tried beyond the group. -/

namespace BuilderMigration.Grammar

open Parse

variable {G : TokenGroup} {outer : List Token} {k : Nat} {g : Grammar} {lo : Int} {c : Cursor}

/-! ### Operators -/

theorem canStart_seesAt (bare : Bool) : SeesAt outer c (canStart bare) := by
  refine .lookNext .pure fun t us _ => ?_
  dsimp only
  split
  · exact .ite (fun _ => .pure) fun _ => .pure
  · exact .pure
  · exact .pure

/-- A closing delimiter is no part of an operator, whatever stands behind it. -/
theorem assignWidth_seesAt (hs : c.rest <:+ G.tokens) : SeesAt outer c assignWidth := by
  refine .lookNext .pure fun t us hr => .ite (fun _ => .pure) fun _ => .ite (fun _ => .pure) fun _ => ?_
  by_cases hv : t.value ∈ [")", "]", "\x7d"]
  · refine .regardless (b := 0) fun o => ?_
    cases o with
    | none => rfl
    | some u =>
      refine if_neg ?_
      simp only [List.mem_cons, List.not_mem_nil, or_false] at hv
      rcases hv with hv | hv | hv <;> simp [hv]
  · have hl := TokenGroup.goes_on hs (j := 0) (by rw [hr]; rfl) (Token.closes?_of_value hv)
    refine .bind (.look (.inr hl)) fun o _ => ?_
    cases o with
    | none => exact .pure
    | some u => exact .ite (fun _ => .pure) fun _ => .pure

theorem pendingOperator_seesAt (hs : c.rest <:+ G.tokens) : SeesAt outer c pendingOperator := by
  refine .lookNext .pure fun t us hr => .ite (fun _ => .pure) fun _ => .ite (fun h => ?_) fun _ => .pure
  have hv : t.value ∉ [")", "]", "\x7d"] := by
    rcases Bool.or_eq_true _ _ ▸ h with h | h <;> simp [beq_iff_eq.1 h]
  have hl := TokenGroup.goes_on hs (j := 0) (by rw [hr]; rfl) (Token.closes?_of_value hv)
  refine .bind (.look (.inr hl)) fun o _ => ?_
  cases o with
  | none => exact .pure
  | some u =>
    refine .ite (fun _ => .ite (fun _ => .pure) fun _ => ?_) fun _ => .pure
    exact .ite (fun _ => .pure) fun _ => .pure

theorem opensStruct_seesAt (hs : c.rest <:+ G.tokens) (hk : 2 ≤ c.rest.length) :
    SeesAt outer c opensStruct := by
  refine .looking (.inr hk) ?_
  cases ht : c.rest[1]? with
  | none => exact .pure
  | some t =>
    refine .ite (fun _ => .pure) fun _ => .ite (fun hkind => ?_) fun _ => .pure
    have hc : t.closes? = none := Token.closes?_of_kind (by grind)
    exact .bind (.look (.inr (TokenGroup.goes_on hs ht hc))) fun _ _ => .pure

/-! ### Lists of expressions -/

theorem LocalIn.callArgs (hg : g.LocalIn G outer) : Local G outer k g.callArgs :=
  .bind (.expect "(") fun _ => .bind (.commaList ")" (hg.expr false)) fun _ =>
    .bind (.expect ")") fun _ => .pure

theorem LocalIn.parenthesised (hg : g.LocalIn G outer) : Local G outer k g.parenthesised := by
  refine .bind (.expect "(") fun _ => .bind (.commaList ")" (hg.expr false)) fun r => ?_
  refine .bind (.expect ")") fun _ => ?_
  obtain ⟨_ | ⟨e, _ | ⟨e', es⟩⟩, _ | _⟩ := r <;> exact .pure

theorem LocalIn.array (hg : g.LocalIn G outer) : Local G outer k g.array := by
  refine .bind (.expect "[") fun _ => .bind (.collect ?_) fun _ => .bind (.expect "]") fun _ => .pure
  refine .whether (.nextIs "]") .pure (.bind (hg.expr false) fun _ => ?_)
  refine .bind (.accept ";") fun _ => .ite (fun _ => ?_) fun _ => ?_
  · exact .bind (hg.expr false) fun _ => .pure
  · exact .bind (.accept ",") fun _ => .ite (fun _ => .pure) fun _ => .pure

/-! ### Paths, struct literals and macro calls -/

theorem pathNames_local : Local G outer k pathNames := by
  refine .bind (.accept "::") fun _ => .bind (.collect ?_) fun _ => .pure
  refine .bind .expectName fun name => ?_
  refine .ahead (.inl rfl) (by decide) (fun _ => rfl) ?_ (nameEnd_local name)
  exact .bind (.skip 1) fun _ => .bind .skipGenerics fun _ => nameEnd_local name

theorem LocalIn.structLiteral (hg : g.LocalIn G outer) : Local G outer k (g.structLiteral lo) := by
  refine .bind (.expect "\x7b") fun _ => .bind (.collect ?_) fun _ =>
    .bind (.expect "\x7d") fun _ => .pure
  refine .whether (.nextIs "\x7d") .pure (.bind .skipAttributes fun _ => ?_)
  refine .bind (.accept "..") fun _ => .ite (fun _ => ?_) fun _ => .bind (.skip 1) fun _ => ?_
  · exact .whether (.nextIs "\x7d") .pure (.bind (hg.expr false) fun _ => .pure)
  refine .bind (.accept ":") fun _ => ?_
  extract_lets rest
  have hrest (value : List Expr) : Local G outer 0 (rest value) :=
    .bind (.accept ",") fun _ => .ite (fun _ => .pure) fun _ => .pure
  exact .ite (fun _ => .bind (hg.expr false) fun _ => hrest _) fun _ => hrest []

/-- The turns of the list, without the delimiters around it. -/
theorem LocalIn.macroTurn (hg : g.LocalIn G outer) (d : Delimiter) : Local G outer k (do
    if ← nextIs d.closing then return .stop ()
    let e ← g.expr false
    if (← accept ",") then return .one e
    if (← accept ";") then return .one e
    return .last e () : Parse (Turn Expr Unit)) := by
  refine .whether (.nextIs _) .pure (.bind (hg.expr false) fun _ => ?_)
  refine .bind (.accept ",") fun _ => .ite (fun _ => .pure) fun _ => ?_
  exact .bind (.accept ";") fun _ => .ite (fun _ => .pure) fun _ => .pure

theorem LocalIn.macroList (hg : g.LocalIn G outer) (d : Delimiter) :
    Local G outer k (g.macroList d) :=
  .bind (.skip 1) fun _ => .bind (.collect (hg.macroTurn d)) fun _ =>
    .bind (.expect _) fun _ => .pure

/-- A list of arguments does not depend on where the token in front of it ends. -/
theorem macroList_last (g : Grammar) (d : Delimiter) {ts : List Token} (hne : ts ≠ [])
    (last last' : Int) : g.macroList d ⟨ts, last⟩ = g.macroList d ⟨ts, last'⟩ := by
  obtain _ | ⟨t, ts⟩ := ts
  · exact absurd rfl hne
  · rfl

theorem ReadsWithin.at {d : Delimiter} {ts : List Token} (h : g.ReadsWithin d ts) (hne : ts ≠ [])
    (last : Int) (e : Failure) (he : g.macroList d ⟨ts, last⟩ = .error e) : ¬ e.AtEnd :=
  h e ((g.macroList_last d hne 0 last).trans he)

/-- The group of a macro call is read again from its opening where it is no list of expressions. -/
theorem LocalIn.macroArgs (hg : g.LocalIn G outer) {m : Token} {us : List Token} {d : Delimiter}
    (hs : m :: us <:+ G.tokens) (hm : m.is "!" = true) (hd : us.head?.bind (·.opens?) = some d)
    (last : Int) : LocalAt outer ⟨us, last⟩ (g.macroArgs d) (g.macroArgs d) := by
  have hus : us <:+ G.tokens := (List.suffix_cons m us).trans hs
  have hne : us ≠ [] := by
    rintro rfl
    nomatch hd
  refine .orElse ((hg.macros hs hm hd).at hne last) ((hg.macroList d).run _ hus (Nat.zero_le _)) ?_
  exact (Local.bind (k := 0) .skipGroup fun _ => .pure).run _ hus (Nat.zero_le _)

theorem LocalIn.pathLike (hg : g.LocalIn G outer) (bare : Bool) :
    Local G outer k (g.pathLike bare) := by
  refine .looking (.look (.inl rfl)) fun _ => .bind pathNames_local fun names => ?_
  extract_lets path rest
  have hpath {k : Nat} : Local G outer k (path ()) := .looking (.spanFrom _) fun _ => .pure
  have hrest : Local G outer 0 (rest ()) := by
    cases bare with
    | true => exact .looking (.nextIs "\x7b") fun _ => .ite (fun h => by simp at h) fun _ => hpath
    | false =>
      simp only [rest, Bool.not_false, Bool.and_true]
      refine .whetherAt (.inl rfl) (by decide) ?_ hpath
      exact .lookingAhead (fun _ hs hk => opensStruct_seesAt hs hk) fun _ =>
        .ite (fun _ => hg.structLiteral) fun _ => hpath
  refine .onNext (fun m us last hs hm => ?_) hrest
  have hl := TokenGroup.goes_on hs (j := 0) rfl (Token.closes?_of_is (by decide) hm)
  refine .peek (look_apply 1 _) (fun hne => by rw [look_apply, getElem?_before outer (.inr hl) hne]) ?_
  rw [List.getElem?_cons_succ, ← List.head?_eq_getElem?]
  cases hd : us.head?.bind (·.opens?) with
  | none => exact hrest.run _ hs (Nat.zero_le _)
  | some d =>
    refine ((Local.skip 1).run _ hs (Nat.zero_le _)).bind fun _ c₁ hc₁ _ => ?_
    obtain ⟨-, rfl⟩ := Prod.mk.inj (Except.ok.inj hc₁)
    refine (hg.macroArgs hs hm hd m.hi).bind fun args c₂ _ _ => ?_
    exact .seeing (.spanFrom _) fun _ => .pure

/-! ### Closures -/

theorem LocalIn.closureParam (hg : g.LocalIn G outer) : Local G outer k g.closureParam :=
  .bind .skipAttributes fun _ => .looking (.look (.inl rfl)) fun _ => .bind (pattern_local _) fun _ =>
    .bind hg.declaredType fun _ => .looking (.spanFrom _) fun _ => .pure

theorem LocalIn.closureParams (hg : g.LocalIn G outer) : Local G outer k g.closureParams := by
  refine .bind (.accept "||") fun _ => .ite (fun _ => .pure) fun _ => .bind (.expect "|") fun _ => ?_
  refine .bind (.commaList "|" hg.closureParam) fun _ => ?_
  exact .bind (.expect "|") fun _ => .pure

theorem LocalIn.closure (hg : g.LocalIn G outer) (bare captures : Bool) :
    Local G outer k (g.closure lo bare captures) := by
  refine .bind hg.closureParams fun _ => .bind (.accept "->") fun _ => .ite (fun _ => ?_) fun _ => ?_
  · exact .bind hg.ty fun _ => .bind (hg.block _ _) fun _ => .pure
  · exact .bind (hg.expr bare) fun _ => .pure

/-! ### Expressions with keywords -/

theorem LocalIn.conditionalOf (hg : g.LocalIn G outer) : Local G outer k g.conditionalOf := by
  refine .bind (.expect "if") fun _ => .bind (hg.expr true) fun _ => .bind (hg.block _ _) fun _ => ?_
  refine .bind (.accept "else") fun _ => ?_
  extract_lets node
  have hnode (otherwise : List Expr) : Local G outer 0 (node otherwise) :=
    .looking (.spanFrom _) fun _ => .pure
  refine .ite (fun _ => .whether (.nextIs "if") ?_ ?_) fun _ => hnode []
  · exact .bind hg.conditional fun _ => hnode _
  · exact .bind (hg.block _ _) fun _ => hnode _

theorem LocalIn.arm (hg : g.LocalIn G outer) : Local G outer k g.arm := by
  refine .bind .skipAttributes fun _ => .bind (.accept "|") fun _ => .bind (pattern_local _) fun _ => ?_
  refine .bind (.accept "if") fun _ => ?_
  extract_lets rest
  have hrest (guards : List Expr) : Local G outer 0 (rest guards) :=
    .bind (.expect "=>") fun _ => .bind hg.statementExpr fun _ => .bind (.accept ",") fun _ => .pure
  exact .ite (fun _ => .bind (hg.expr false) fun _ => hrest _) fun _ => hrest []

theorem LocalIn.choice (hg : g.LocalIn G outer) : Local G outer k g.choice := by
  refine .bind (.expect "match") fun _ => .bind (hg.expr true) fun _ => ?_
  refine .bind (.expect "\x7b") fun _ => .bind .skipAttributes fun _ => .bind (.collect ?_) fun _ => ?_
  · exact .whether (.nextIs "\x7d") .pure (.bind hg.arm fun _ => .pure)
  · exact .bind (.expect "\x7d") fun _ => .looking (.spanFrom _) fun _ => .pure

theorem LocalIn.loop (hg : g.LocalIn G outer) : Local G outer k (g.loop lo) :=
  .bind (.skip 1) fun _ => .bind (hg.block _ _) fun _ => .looking (.spanFrom _) fun _ => .pure

theorem LocalIn.whileLoop (hg : g.LocalIn G outer) : Local G outer k (g.whileLoop lo) :=
  .bind (.skip 1) fun _ => .bind (hg.expr true) fun _ => .bind (hg.block _ _) fun _ =>
    .looking (.spanFrom _) fun _ => .pure

theorem LocalIn.forLoop (hg : g.LocalIn G outer) : Local G outer k (g.forLoop lo) :=
  .bind (.skip 1) fun _ => .bind (pattern_local _) fun _ => .bind (.expect "in") fun _ =>
    .bind (hg.expr true) fun _ => .bind (hg.block _ _) fun _ =>
      .looking (.spanFrom _) fun _ => .pure

theorem LocalIn.letCondition (hg : g.LocalIn G outer) : Local G outer k (g.letCondition lo) :=
  .bind (.skip 1) fun _ => .bind (pattern_local _) fun _ => .bind (.expect "=") fun _ =>
    .bind (hg.operand _ true) fun _ => .looking (.spanFrom _) fun _ => .pure

theorem LocalIn.jump (hg : g.LocalIn G outer) (kind : CompoundKind) (bare : Bool) :
    Local G outer k (g.jump lo kind bare) := by
  refine .bind (.skip 1) fun _ => ?_
  extract_lets node rest
  have hnode (value : List Expr) : Local G outer 0 (node value) :=
    .looking (.spanFrom _) fun _ => .pure
  have hrest : Local G outer 0 (rest ()) := by
    refine .ite (fun _ => .whether (canStart_seesAt bare) ?_ (hnode [])) fun _ => hnode []
    exact .bind (hg.expr bare) fun _ => hnode _
  exact .ite (fun _ => .bind (.acceptKind .lifetime) fun _ => hrest) fun _ => hrest

/-! ### Primary expressions -/

theorem LocalIn.labeled (hg : g.LocalIn G outer) (label : Token) (bare : Bool) :
    Local G outer k (g.labeled label bare) :=
  .bind (.skip 1) fun _ => .bind (.expect ":") fun _ => .bind (hg.primary bare) fun _ => .pure

theorem qualifiedPath_local : Local G outer k (qualifiedPath lo) := by
  refine .bind .skipGenerics fun _ => .bind (.iterate (fun _ => ?_) ()) fun _ => ?_
  · refine .bind (.accept "::") fun _ => .ite (fun _ => ?_) fun _ => .pure
    exact .bind .expectName fun _ => .pure
  · exact .looking (.spanFrom _) fun _ => .pure

/-- At the token by which the expression is told. -/
theorem LocalIn.punctPrimary (hg : g.LocalIn G outer) (t : Token) (bare : Bool) :
    Local G outer 1 (g.punctPrimary t bare) := by
  refine .ite (fun _ => hg.closure bare false) fun _ => .ite (fun _ => ?_) fun _ => ?_
  · exact .bind (hg.block _ _) fun _ => .pure
  refine .ite (fun _ => hg.parenthesised) fun _ => .ite (fun _ => hg.array) fun _ => ?_
  refine .ite (fun _ => .bind .skipAttributes fun _ => hg.primary bare) fun _ => ?_
  refine .ite (fun _ => qualifiedPath_local) fun _ => ?_
  exact .ite (fun _ => hg.pathLike bare) fun _ => .reject _ _

/-- Behind the keyword there is a token. -/
theorem LocalIn.async? (hg : g.LocalIn G outer) (bare : Bool) :
    Local G outer 2 (g.async? lo bare) := by
  have hblock (n : Nat) {k : Nat} : Local G outer k (do
      skip n
      return some (Expr.block (← g.block .async (some lo)))) :=
    .bind (.skip n) fun _ => .bind (hg.block _ _) fun _ => .pure
  have hclosure (n : Nat) (captures : Bool) {k : Nat} : Local G outer k (do
      skip n
      return some (← g.closure lo bare captures)) :=
    .bind (.skip n) fun _ => .bind (hg.closure bare captures) fun _ => .pure
  have hlast : Local G outer 2 (do
      if ← looksAtOneOf 1 ["|", "||"] then
        skip 1
        return some (← g.closure lo bare false)
      return none) :=
    .lookingAhead (fun _ _ hk => .looksAtOneOf (.inr hk) _) fun _ =>
      .ite (fun _ => hclosure 1 false) fun _ => .pure
  refine .whetherAt (.inr (by decide)) (by decide) (hblock 1) ?_
  refine .whetherAt (.inr (by decide)) (by decide) ?_ hlast
  refine .whetherAt (.inr (by decide)) (by decide) (hblock 2) ?_
  exact .lookingAhead (fun _ _ hk => .looksAtOneOf (.inr hk) _) fun _ =>
    .ite (fun _ => hclosure 2 true) fun _ => hlast.mono (by decide)

theorem LocalIn.marked? (hg : g.LocalIn G outer) (t : Token) (bare : Bool) :
    Local G outer 2 (g.marked? t bare) := by
  unfold Grammar.marked?
  refine .ite (fun _ => ?_) fun _ => .ite (fun _ => hg.async? bare) fun _ =>
    .ite (fun _ => ?_) fun _ => .pure
  · refine .lookingAhead (fun _ _ hk => .looksAtOneOf (.inr hk) _) fun _ => .ite (fun _ => ?_) fun _ => ?_
    · exact .bind (.skip 1) fun _ => .bind (hg.closure bare true) fun _ => .pure
    · exact .pure
  · refine .whetherAt (.inr (by decide)) (by decide) ?_ .pure
    exact .bind (.skip 1) fun _ => .bind (hg.block _ _) fun _ => .pure

theorem LocalIn.plainWord (hg : g.LocalIn G outer) (t : Token) (bare : Bool) :
    Local G outer k (g.plainWord t bare) := by
  unfold Grammar.plainWord
  refine .ite (fun _ => hg.conditionalOf) fun _ => .ite (fun _ => hg.choice) fun _ => ?_
  refine .ite (fun _ => hg.loop) fun _ => .ite (fun _ => hg.whileLoop) fun _ => ?_
  refine .ite (fun _ => hg.forLoop) fun _ => .ite (fun _ => hg.letCondition) fun _ => ?_
  cases jump? t.value with
  | some kind => exact hg.jump kind bare
  | none => exact hg.pathLike bare

theorem LocalIn.wordPrimary (hg : g.LocalIn G outer) (t : Token) (bare : Bool) :
    Local G outer 2 (g.wordPrimary t bare) := by
  refine .ite (fun _ => .bind (.skip 1) fun _ => .pure) fun _ => .bind (hg.marked? t bare) fun o => ?_
  cases o with
  | some e => exact .pure
  | none => exact hg.plainWord t bare

theorem LocalIn.primaryOf (hg : g.LocalIn G outer) (bare : Bool) :
    Local G outer k (g.primaryOf bare) where
  run c hs _ := by
    refine .lookNext (.wanting rfl) fun t us hr => ?_
    have hl : 1 ≤ c.rest.length := by simp [hr]
    have hlit (kind : LitKind) : Local G outer 1
        (do skip 1; return Expr.lit ⟨t.lo, t.hi, 0⟩ kind : Parse Expr) :=
      .bind (.skip 1) fun _ => .pure
    dsimp only
    cases ht : t.kind with
    | string => exact (hlit .string).run c hs hl
    | char => exact (hlit .char).run c hs hl
    | number => exact (hlit .number).run c hs hl
    | lifetime => exact (hg.labeled t bare).run c hs hl
    | punct => exact (hg.punctPrimary t bare).run c hs hl
    | ident =>
      have hc : t.closes? = none := Token.closes?_of_kind (by simp [ht])
      exact (hg.wordPrimary t bare).run c hs (TokenGroup.goes_on hs (j := 0) (by rw [hr]; rfl) hc)

/-! ### From primary to full expressions -/

theorem LocalIn.member (hg : g.LocalIn G outer) (e : Expr) : Local G outer k (g.member e) := by
  refine .bind (.skip 1) fun _ => .lookNext (.rejectEnd _) fun t => ?_
  refine .ite (fun _ => .bind (.skip 1) fun _ => .pure) fun _ => .bind .expectName fun name => ?_
  refine .ite (fun _ => .pure) fun _ => ?_
  -- With generic arguments behind the name and without them it ends alike.
  refine .ahead (.inl rfl) (by decide) (fun _ => rfl)
    (.bind (.skip 1) fun _ => .bind .skipGenerics fun _ => ?_) ?_
  all_goals exact .whether (.nextIs "(") (.bind hg.callArgs fun _ => .pure) .pure

theorem LocalIn.suffix (hg : g.LocalIn G outer) (e : Expr) : Local G outer k (g.suffix e) := by
  refine .whether (.nextIs "?") (.bind .next fun _ => .pure) ?_
  refine .whether (.nextIs ".") (.bind (hg.member e) fun _ => .pure) ?_
  refine .whether (.nextIs "(") (.bind hg.callArgs fun _ => .pure) ?_
  refine .whether (.nextIs "[") ?_ .pure
  refine .bind (.skip 1) fun _ => .bind (hg.expr false) fun _ => ?_
  exact .bind (.expect "]") fun _ => .pure

theorem LocalIn.suffixes (hg : g.LocalIn G outer) (e : Expr) : Local G outer k (g.suffixes e) :=
  .iterate (fun e => hg.suffix e) e

theorem LocalIn.unaryOf (hg : g.LocalIn G outer) (bare : Bool) :
    Local G outer k (g.unaryOf bare) := by
  have hplain {k : Nat} : Local G outer k (do g.suffixes (← g.primaryOf bare)) :=
    .bind (hg.primaryOf bare) fun e => hg.suffixes e
  refine .lookNext hplain fun t => .ite (fun _ => ?_) fun _ => .ite (fun _ => ?_) fun _ => hplain
  · exact .bind (.skip 1) fun _ => .bind (hg.unary bare) fun _ => .pure
  · refine .bind (.skip 1) fun _ => .bind (.accept "mut") fun _ => ?_
    exact .bind (hg.unary bare) fun _ => .pure

theorem LocalIn.casts (hg : g.LocalIn G outer) (bare : Bool) : Local G outer k (g.casts bare) := by
  refine .bind (hg.unaryOf bare) fun e => .iterate (fun e => ?_) e
  refine .bind (.accept "as") fun _ => .ite (fun _ => ?_) fun _ => .pure
  exact .bind hg.ty fun _ => .looking (.spanFrom _) fun _ => .pure

theorem LocalIn.binaryFrom (hg : g.LocalIn G outer) (strength : Nat) (bare : Bool) (left : Expr) :
    Local G outer k (g.binaryFrom strength bare left) := by
  refine .iterate (fun left => .lookingAhead (fun c hs _ => pendingOperator_seesAt hs) fun o => ?_) left
  match o with
  | none => exact .pure
  | some (s, width) =>
    refine .ite (fun _ => .pure) fun _ => .bind (.skip width) fun _ => ?_
    exact .bind (hg.operand _ bare) fun _ => .pure

theorem LocalIn.operandOf (hg : g.LocalIn G outer) (strength : Nat) (bare : Bool) :
    Local G outer k (g.operandOf strength bare) :=
  .bind (hg.casts bare) fun e => hg.binaryFrom strength bare e

theorem LocalIn.rangeFrom (hg : g.LocalIn G outer) (bare : Bool) (lower : Expr) :
    Local G outer k (g.rangeFrom bare lower) := by
  refine .whether (.looksAtOneOf (.inl rfl) _) (.bind .next fun _ => ?_) .pure
  exact .whether (canStart_seesAt bare) (.bind (hg.operand 0 bare) fun _ => .pure) .pure

theorem LocalIn.rangeOf (hg : g.LocalIn G outer) (bare : Bool) :
    Local G outer k (g.rangeOf bare) := by
  refine .whether (.looksAtOneOf (.inl rfl) _) (.bind .next fun _ => ?_) ?_
  · exact .whether (canStart_seesAt bare) (.bind (hg.operand 0 bare) fun _ => .pure) .pure
  · exact .bind (hg.operandOf 0 bare) fun e => hg.rangeFrom bare e

theorem LocalIn.assignFrom (hg : g.LocalIn G outer) (bare : Bool) (left : Expr) :
    Local G outer k (g.assignFrom bare left) := by
  refine .lookingAhead (fun c hs _ => assignWidth_seesAt hs) fun width => ?_
  match width with
  | 0 => exact .pure
  | width + 1 => exact .bind (.skip _) fun _ => .bind (hg.expr bare) fun _ => .pure

theorem LocalIn.exprOf (hg : g.LocalIn G outer) (bare : Bool) : Local G outer k (g.exprOf bare) :=
  .bind (hg.rangeOf bare) fun e => hg.assignFrom bare e

theorem LocalIn.exprFrom (hg : g.LocalIn G outer) (left : Expr) :
    Local G outer k (g.exprFrom left) :=
  .bind (hg.binaryFrom 0 false left) fun e => .bind (hg.rangeFrom false e) fun e =>
    hg.assignFrom false e

end BuilderMigration.Grammar
