import BuilderMigration.Proofs.Grammar.Paths
import BuilderMigration.Proofs.Halting.Types

/-! The productions of expressions halt. Only attributes in front of an expression call for a look at
the text: their mark has to begin one, or nothing would be taken. -/

namespace BuilderMigration.Grammar

open Parse

variable {n : Nat} {g g' : Grammar} {lo : Int}

/-! ### Lists of expressions -/

theorem HaltsBelow.callArgs (hg : g.HaltsBelow n g') :
    Halts n (fun _ => True) g.callArgs g'.callArgs :=
  .taken (.expect "(") fun _ => .bind (.commaList ")" (hg.expr false)) fun _ =>
    .bind (.expect ")") fun _ => .pure id

theorem HaltsBelow.parenthesised (hg : g.HaltsBelow n g') :
    Halts (n + 1) (fun _ => True) g.parenthesised g'.parenthesised := by
  refine .past (.expect "(") fun _ => .bind (.commaList ")" (hg.expr false)) fun r => ?_
  refine .bind (.expect ")") fun _ => ?_
  obtain ⟨_ | ⟨e, _ | ⟨e', es⟩⟩, _ | _⟩ := r <;> exact .pure id

theorem HaltsBelow.array (hg : g.HaltsBelow n g') :
    Halts (n + 1) (fun _ => True) g.array g'.array := by
  refine .past (.expect "[") fun _ => .bind (.collect False ?_) fun _ =>
    .bind (.expect "]") fun _ => .pure id
  refine .whether (.nextIs "]") .stop (.taken (hg.expr false) fun _ => ?_)
  refine .bind (.accept ";") fun _ => .ite (fun _ => ?_) fun _ => ?_
  · exact .bind (hg.expr false) fun _ => .pure id
  · exact .bind (.accept ",") fun _ => .ite (fun _ => .pure id) fun _ => .pure id

/-! ### Paths, struct literals and macro calls -/

theorem pathNames_halts : Halts n (fun _ => True) pathNames pathNames := by
  refine .bind (.accept "::") fun _ => .taken (.collect True ?_) fun _ => .pure id
  refine .taken .expectName fun name => ?_
  refine .looking (.nextIs "::") fun _ _ => .looking (.looksAt 1 "<") fun _ _ => ?_
  refine .ite (fun _ => ?_) fun _ => nameEnd_halts name
  exact .bind .skip_one fun _ => .bind .skipGenerics fun _ => nameEnd_halts name

theorem HaltsBelow.structLiteral (hg : g.HaltsBelow n g') :
    Halts n (fun _ => True) (g.structLiteral lo) (g'.structLiteral lo) := by
  refine .taken (.expect "\x7b") fun _ => .bind (.collect False ?_) fun _ =>
    .bind (.expect "\x7d") fun _ => .pure id
  refine .whether (.nextIs "\x7d") .stop (.bind .skipAttributes fun _ => ?_)
  refine .bind (.accept "..") fun _ => .ite (fun _ => ?_) fun _ => .taken .skip_one fun _ => ?_
  · exact .whether (.nextIs "\x7d") .stop (.taken (hg.expr false) fun _ => .pure id)
  refine .bind (.accept ":") fun _ => ?_
  extract_lets rest
  have hrest (value : List Expr) : Halts n (fun _ => False) (rest value) (rest value) :=
    .bind (.accept ",") fun _ => .ite (fun _ => .pure id) fun _ => .pure id
  exact .ite (fun _ => .bind (hg.expr false) fun _ => hrest _) fun _ => hrest []

theorem HaltsBelow.macroList (hg : g.HaltsBelow n g') (d : Delimiter) :
    Halts n (fun _ => True) (g.macroList d) (g'.macroList d) := by
  refine .taken .skip_one fun _ => .bind (.collect False ?_) fun _ =>
    .bind (.expect _) fun _ => .pure id
  refine .whether (.nextIs _) .stop (.taken (hg.expr false) fun _ => ?_)
  refine .bind (.accept ",") fun _ => .ite (fun _ => .pure id) fun _ => ?_
  exact .bind (.accept ";") fun _ => .ite (fun _ => .pure id) fun _ => .pure id

/-- The group of a macro call is read again from its opening where it is no list of expressions, and
then it is passed over as a whole. -/
theorem HaltsBelow.macroArgs (hg : g.HaltsBelow n g') (d : Delimiter) :
    Halts n (fun _ => True) (g.macroArgs d) (g'.macroArgs d) :=
  .orElse (hg.macroList d) (.taken .skipGroup fun _ => .pure id)

theorem HaltsBelow.pathLike (hg : g.HaltsBelow n g') (bare : Bool) :
    Halts (n + 1) (fun _ => True) (g.pathLike bare) (g'.pathLike bare) := by
  refine .looking (.look 0) fun _ _ => .past pathNames_halts fun names => ?_
  refine .looking (.nextIs "!") fun _ _ => ?_
  extract_lets path rest rest'
  have hpath : Halts n (fun _ => False) (path ()) (path ()) :=
    .looking (.spanFrom _) fun _ _ => .pure id
  have hrest : Halts n (fun _ => False) (rest ()) (rest' ()) := by
    refine .looking (.nextIs "\x7b") fun _ _ => .ite (fun _ => ?_) fun _ => hpath
    exact .whether opensStruct_looks hg.structLiteral.keep hpath
  refine .ite (fun _ => .looking (.look 1) fun o _ => ?_) fun _ => hrest
  cases o.bind (·.opens?) with
  | none => exact hrest
  | some d =>
    refine .bind .skip_one fun _ => .bind (hg.macroArgs d) fun _ => ?_
    exact .looking (.spanFrom _) fun _ _ => .pure id

/-! ### Closures -/

theorem HaltsBelow.closureParam (hg : g.HaltsBelow n g') :
    Halts n (fun _ => True) g.closureParam g'.closureParam :=
  .bind .skipAttributes fun _ => .looking (.look 0) fun _ _ => .taken (pattern_halts _) fun _ =>
    .bind hg.declaredType fun _ => .looking (.spanFrom _) fun _ _ => .pure id

theorem HaltsBelow.closureParams (hg : g.HaltsBelow n g') :
    Halts (n + 1) (fun _ => True) g.closureParams g'.closureParams := by
  refine .branchIf (.accept "||") (.pure id) (.past (.expect "|") fun _ => ?_)
  refine .bind (.commaList "|" hg.closureParam) fun _ => ?_
  exact .bind (.expect "|") fun _ => .pure id

theorem HaltsBelow.closure (hg : g.HaltsBelow n g') (bare captures : Bool) :
    Halts (n + 1) (fun _ => True) (g.closure lo bare captures) (g'.closure lo bare captures) := by
  refine .past hg.closureParams fun _ => .bind (.accept "->") fun _ => .ite (fun _ => ?_) fun _ => ?_
  · exact .bind hg.ty fun _ => .bind (hg.block _ _) fun _ => .pure id
  · exact .bind (hg.expr bare) fun _ => .pure id

/-! ### Expressions with keywords -/

theorem HaltsBelow.conditionalOf (hg : g.HaltsBelow n g') :
    Halts (n + 1) (fun _ => True) g.conditionalOf g'.conditionalOf := by
  refine .past (.expect "if") fun _ => .bind (hg.expr true) fun _ => .bind (hg.block _ _) fun _ => ?_
  refine .bind (.accept "else") fun _ => ?_
  extract_lets node
  have hnode (otherwise : List Expr) : Halts n (fun _ => False) (node otherwise) (node otherwise) :=
    .looking (.spanFrom _) fun _ _ => .pure id
  refine .ite (fun _ => .whether (.nextIs "if") ?_ ?_) fun _ => hnode []
  · exact .bind hg.conditional fun _ => hnode _
  · exact .bind (hg.block _ _) fun _ => hnode _

theorem HaltsBelow.arm (hg : g.HaltsBelow n g') : Halts n (fun _ => True) g.arm g'.arm := by
  refine .bind .skipAttributes fun _ => .bind (.accept "|") fun _ => .taken (pattern_halts _) fun _ => ?_
  refine .bind (.accept "if") fun _ => ?_
  extract_lets rest rest'
  have hrest (guards : List Expr) : Halts n (fun _ => False) (rest guards) (rest' guards) :=
    .bind (.expect "=>") fun _ => .bind hg.statementExpr fun _ => .bind (.accept ",") fun _ => .pure id
  exact .ite (fun _ => .bind (hg.expr false) fun _ => hrest _) fun _ => hrest []

theorem HaltsBelow.choice (hg : g.HaltsBelow n g') :
    Halts (n + 1) (fun _ => True) g.choice g'.choice := by
  refine .past (.expect "match") fun _ => .bind (hg.expr true) fun _ => .bind (.expect "\x7b") fun _ => ?_
  refine .bind .skipAttributes fun _ => .bind (.collect False ?_) fun _ => ?_
  · exact .whether (.nextIs "\x7d") .stop (.taken hg.arm fun _ => .pure id)
  · exact .bind (.expect "\x7d") fun _ => .looking (.spanFrom _) fun _ _ => .pure id

theorem HaltsBelow.loop (hg : g.HaltsBelow n g') :
    Halts (n + 1) (fun _ => True) (g.loop lo) (g'.loop lo) :=
  .past .skip_one fun _ => .bind (hg.block _ _) fun _ => .looking (.spanFrom _) fun _ _ => .pure id

theorem HaltsBelow.whileLoop (hg : g.HaltsBelow n g') :
    Halts (n + 1) (fun _ => True) (g.whileLoop lo) (g'.whileLoop lo) :=
  .past .skip_one fun _ => .bind (hg.expr true) fun _ => .bind (hg.block _ _) fun _ =>
    .looking (.spanFrom _) fun _ _ => .pure id

theorem HaltsBelow.forLoop (hg : g.HaltsBelow n g') :
    Halts (n + 1) (fun _ => True) (g.forLoop lo) (g'.forLoop lo) :=
  .past .skip_one fun _ => .bind (pattern_halts _) fun _ => .bind (.expect "in") fun _ =>
    .bind (hg.expr true) fun _ => .bind (hg.block _ _) fun _ =>
      .looking (.spanFrom _) fun _ _ => .pure id

theorem HaltsBelow.letCondition (hg : g.HaltsBelow n g') :
    Halts (n + 1) (fun _ => True) (g.letCondition lo) (g'.letCondition lo) :=
  .past .skip_one fun _ => .bind (pattern_halts _) fun _ => .bind (.expect "=") fun _ =>
    .bind (hg.operand _ true) fun _ => .looking (.spanFrom _) fun _ _ => .pure id

theorem HaltsBelow.jump (hg : g.HaltsBelow n g') (kind : CompoundKind) (bare : Bool) :
    Halts (n + 1) (fun _ => True) (g.jump lo kind bare) (g'.jump lo kind bare) := by
  refine .past .skip_one fun _ => ?_
  extract_lets node rest rest'
  have hnode (value : List Expr) : Halts n (fun _ => False) (node value) (node value) :=
    .looking (.spanFrom _) fun _ _ => .pure id
  have hrest : Halts n (fun _ => False) (rest ()) (rest' ()) := by
    refine .ite (fun _ => .whether (canStart_looks bare) ?_ (hnode [])) fun _ => hnode []
    exact .bind (hg.expr bare) fun _ => hnode _
  exact .ite (fun _ => .bind (.acceptKind .lifetime) fun _ => hrest) fun _ => hrest

/-! ### Primary expressions -/

theorem HaltsBelow.labeled (hg : g.HaltsBelow n g') (label : Token) (bare : Bool) :
    Halts (n + 1) (fun _ => True) (g.labeled label bare) (g'.labeled label bare) :=
  .past .skip_one fun _ => .bind (.expect ":") fun _ => .bind (hg.primary bare) fun _ => .pure id

theorem qualifiedPath_halts : Halts n (fun _ => True) (qualifiedPath lo) (qualifiedPath lo) := by
  refine .taken .skipGenerics fun _ => .bind (.iterate False (fun _ => ?_) ()) fun _ => ?_
  · refine .bind (.accept "::") fun _ => .ite (fun _ => ?_) fun _ => .pure (by simp)
    exact .taken .expectName fun _ => .pure id
  · exact .looking (.spanFrom _) fun _ _ => .pure id

/-- Behind attributes an expression begins anew, with fewer tokens. -/
theorem HaltsBelow.attributed (hg : g.HaltsBelow n g') {c : Cursor} {t : Token} {us : List Token}
    (hr : c.rest = t :: us) (ht : t.isPunct "#" = true) (hn : c.rest.length < n + 1)
    (hm : ¬ HasStrayMark c.rest) (bare : Bool) :
    HaltsAt c (fun _ => True) (do skipAttributes; g.primary bare) (do skipAttributes; g'.primary bare) := by
  refine (skipAttributes_takes hr ht hm).bind fun _ c₁ hs htakes => ?_
  have hlt := htakes trivial
  exact ⟨_, (hg.primary bare).run c₁ (by omega) fun h => hm (h.of_suffix hs), fun _ _ => .inr hlt⟩

theorem HaltsBelow.punctPrimary (hg : g.HaltsBelow n g') {c : Cursor} {t : Token} {us : List Token}
    (hr : c.rest = t :: us) (ht : t.kind = .punct) (hn : c.rest.length < n + 1)
    (hm : ¬ HasStrayMark c.rest) (bare : Bool) :
    HaltsAt c (fun _ => True) (g.punctPrimary t bare) (g'.punctPrimary t bare) := by
  have hpos : 0 < n := by
    rw [hr, List.length_cons] at hn
    omega
  by_cases hv : t.value = "#"
  · simpa [Grammar.punctPrimary, hv] using
      hg.attributed hr (by simp [Token.isPunct, ht, hv]) hn hm bare
  suffices h : Halts (n + 1) (fun _ => True) (g.punctPrimary t bare) (g'.punctPrimary t bare) from
    h.run c hn hm
  refine .ite (fun _ => hg.closure bare false) fun _ => .ite (fun _ => ?_) fun _ => ?_
  · exact .taken (hg.blockHere hpos _ _) fun _ => .pure id
  refine .ite (fun _ => hg.parenthesised) fun _ => .ite (fun _ => hg.array) fun _ => ?_
  refine .ite (fun h => absurd h hv) fun _ => .ite (fun _ => qualifiedPath_halts) fun _ => ?_
  exact .ite (fun _ => hg.pathLike bare) fun _ => .reject _ _

/-- A block or closure behind `async` takes a token, and nothing is taken where none follows. -/
theorem HaltsBelow.async? (hg : g.HaltsBelow n g') (bare : Bool) :
    Halts (n + 1) (fun o => o.isSome = true) (g.async? lo bare) (g'.async? lo bare) := by
  have hblock (k : Nat) (hk : 0 < k) : Halts (n + 1) (fun o => o.isSome = true)
      (do
        skip k
        return some (Expr.block (← g.block .async (some lo))))
      (do
        skip k
        return some (Expr.block (← g'.block .async (some lo)))) :=
    .past (.skip_pos hk) fun _ => .bind (hg.block _ _) fun _ => .pure id
  have hclosure (k : Nat) (captures : Bool) : Halts (n + 1) (fun o => o.isSome = true)
      (do
        skip k
        return some (← g.closure lo bare captures))
      (do
        skip k
        return some (← g'.closure lo bare captures)) :=
    .bind (.skip k) fun _ => .taken (hg.closure bare captures) fun _ => .pure id
  have hlast : Halts (n + 1) (fun o => o.isSome = true)
      (do
        if ← looksAtOneOf 1 ["|", "||"] then
          skip 1
          return some (← g.closure lo bare false)
        return none)
      (do
        if ← looksAtOneOf 1 ["|", "||"] then
          skip 1
          return some (← g'.closure lo bare false)
        return none) :=
    .whether (.looksAtOneOf 1 _) (hclosure 1 false) (.pure nofun)
  refine .whether (.looksAt 1 "\x7b") (hblock 1 Nat.one_pos) ?_
  refine .whether (.looksAt 1 "move") ?_ hlast
  refine .whether (.looksAt 2 "\x7b") (hblock 2 Nat.two_pos) ?_
  exact .whether (.looksAtOneOf 2 _) (hclosure 2 true) hlast

theorem HaltsBelow.marked? (hg : g.HaltsBelow n g') (t : Token) (bare : Bool) :
    Halts (n + 1) (fun o => o.isSome = true) (g.marked? t bare) (g'.marked? t bare) := by
  unfold Grammar.marked?
  refine .ite (fun _ => .whether (.looksAtOneOf 1 _) ?_ (.pure nofun)) fun _ => ?_
  · exact .bind .skip_one fun _ => .taken (hg.closure bare true) fun _ => .pure id
  refine .ite (fun _ => hg.async? bare) fun _ => .ite (fun _ => ?_) fun _ => .pure nofun
  refine .whether (.looksAt 1 "\x7b") ?_ (.pure nofun)
  exact .past .skip_one fun _ => .bind (hg.block _ _) fun _ => .pure id

theorem HaltsBelow.plainWord (hg : g.HaltsBelow n g') (t : Token) (bare : Bool) :
    Halts (n + 1) (fun _ => True) (g.plainWord t bare) (g'.plainWord t bare) := by
  unfold Grammar.plainWord
  refine .ite (fun _ => hg.conditionalOf) fun _ => .ite (fun _ => hg.choice) fun _ => ?_
  refine .ite (fun _ => hg.loop) fun _ => .ite (fun _ => hg.whileLoop) fun _ => ?_
  refine .ite (fun _ => hg.forLoop) fun _ => .ite (fun _ => hg.letCondition) fun _ => ?_
  cases jump? t.value with
  | some kind => exact hg.jump kind bare
  | none => exact hg.pathLike bare

theorem HaltsBelow.wordPrimary (hg : g.HaltsBelow n g') (t : Token) (bare : Bool) :
    Halts (n + 1) (fun _ => True) (g.wordPrimary t bare) (g'.wordPrimary t bare) := by
  refine .ite (fun _ => .taken .skip_one fun _ => .pure id) fun _ => ?_
  refine .branch (hg.marked? t bare) (fun o ho => ?_) fun o ho => ?_
  · obtain ⟨e, rfl⟩ := Option.isSome_iff_exists.1 ho
    exact .pure id
  · obtain rfl := Option.not_isSome_iff_eq_none.1 ho
    exact hg.plainWord t bare

theorem HaltsBelow.primaryOf (hg : g.HaltsBelow n g') (bare : Bool) :
    Halts (n + 1) (fun _ => True) (g.primaryOf bare) (g'.primaryOf bare) where
  run c hn hm := by
    refine .peek (a := c.rest[0]?) rfl ?_
    cases hr : c.rest with
    | nil => exact ⟨rfl, nofun⟩
    | cons t us =>
      have hlit (k : LitKind) : Halts (n + 1) (fun _ => True)
          (do skip 1; return Expr.lit ⟨t.lo, t.hi, 0⟩ k : Parse Expr)
          (do skip 1; return .lit ⟨t.lo, t.hi, 0⟩ k) := .taken .skip_one fun _ => .pure id
      simp only [List.getElem?_cons_zero]
      cases ht : t.kind with
      | string => exact (hlit .string).run c hn hm
      | char => exact (hlit .char).run c hn hm
      | number => exact (hlit .number).run c hn hm
      | lifetime => exact (hg.labeled t bare).run c hn hm
      | punct => exact hg.punctPrimary hr ht hn hm bare
      | ident => exact (hg.wordPrimary t bare).run c hn hm

/-! ### From primary to full expressions -/

theorem HaltsBelow.member (hg : g.HaltsBelow n g') (e : Expr) :
    Halts n (fun _ => True) (g.member e) (g'.member e) := by
  refine .taken .skip_one fun _ => .lookNext (.rejectEnd _) fun t _ => ?_
  refine .ite (fun _ => .bind .skip_one fun _ => .pure id) fun _ => .bind .expectName fun name => ?_
  refine .ite (fun _ => .pure id) fun _ => .looking (.nextIs "::") fun _ _ => ?_
  extract_lets rest rest'
  have hrest : Halts n (fun _ => False) (rest ()) (rest' ()) :=
    .whether (.nextIs "(") (.bind hg.callArgs fun _ => .pure id) (.pure id)
  refine .looking (.looksAt 1 "<") fun _ _ => .ite (fun _ => ?_) fun _ => hrest
  exact .bind .skip_one fun _ => .bind .skipGenerics fun _ => hrest

theorem HaltsBelow.suffix (hg : g.HaltsBelow n g') (e : Expr) :
    Halts n (fun r => r.isLeft = true ∨ False) (g.suffix e) (g'.suffix e) := by
  refine .whether (.nextIs "?") (.taken .next fun _ => .pure id) ?_
  refine .whether (.nextIs ".") (.taken (hg.member e) fun _ => .pure id) ?_
  refine .whether (.nextIs "(") (.taken hg.callArgs fun _ => .pure id) ?_
  refine .whether (.nextIs "[") ?_ (.pure (by simp))
  refine .taken .skip_one fun _ => .bind (hg.expr false) fun _ => ?_
  exact .bind (.expect "]") fun _ => .pure id

theorem HaltsBelow.suffixes (hg : g.HaltsBelow n g') (e : Expr) :
    Halts n (fun _ => False) (g.suffixes e) (g'.suffixes e) := .iterate _ hg.suffix e

theorem HaltsBelow.unaryOf (hg : g.HaltsBelow n g') (bare : Bool) :
    Halts (n + 1) (fun _ => True) (g.unaryOf bare) (g'.unaryOf bare) := by
  have hplain : Halts (n + 1) (fun _ => True) (do g.suffixes (← g.primaryOf bare))
      (do g'.suffixes (← g'.primaryOf bare)) := .past (hg.primaryOf bare) hg.suffixes
  refine .lookNext hplain fun t _ => .ite (fun _ => ?_) fun _ => .ite (fun _ => ?_) fun _ => hplain
  · exact .past .skip_one fun _ => .bind (hg.unary bare) fun _ => .pure id
  · refine .past .skip_one fun _ => .bind (.accept "mut") fun _ => ?_
    exact .bind (hg.unary bare) fun _ => .pure id

theorem HaltsBelow.casts (hg : g.HaltsBelow n g') (bare : Bool) :
    Halts (n + 1) (fun _ => True) (g.casts bare) (g'.casts bare) := by
  refine .past (hg.unaryOf bare) fun e => .iterate _ (fun e => ?_) e
  refine .bind (.accept "as") fun _ => .ite (fun _ => ?_) fun _ => .pure (by simp)
  exact .taken hg.ty fun _ => .looking (.spanFrom _) fun _ _ => .pure id

theorem HaltsBelow.binaryFrom (hg : g.HaltsBelow n g') (strength : Nat) (bare : Bool) (left : Expr) :
    Halts n (fun _ => False) (g.binaryFrom strength bare left) (g'.binaryFrom strength bare left) := by
  refine .iterate _ (fun left => .looking pendingOperator_looks fun o hw => ?_) left
  match o, hw with
  | none, _ => exact .pure (by simp)
  | some (s, width), hw =>
    refine .ite (fun _ => .pure (by simp)) fun _ => .taken (.skip_pos (hw s width rfl)) fun _ => ?_
    exact .bind (hg.operand _ bare) fun _ => .pure id

theorem HaltsBelow.operandOf (hg : g.HaltsBelow n g') (strength : Nat) (bare : Bool) :
    Halts (n + 1) (fun _ => True) (g.operandOf strength bare) (g'.operandOf strength bare) :=
  .past (hg.casts bare) (hg.binaryFrom strength bare)

theorem HaltsBelow.rangeFrom (hg : g.HaltsBelow n g') (bare : Bool) (lower : Expr) :
    Halts n (fun _ => False) (g.rangeFrom bare lower) (g'.rangeFrom bare lower) := by
  refine .whether (.looksAtOneOf 0 _) (.bind .next fun _ => ?_) (.pure id)
  exact .whether (canStart_looks bare) (.bind (hg.operand 0 bare) fun _ => .pure id) (.pure id)

theorem HaltsBelow.rangeOf (hg : g.HaltsBelow n g') (bare : Bool) :
    Halts (n + 1) (fun _ => True) (g.rangeOf bare) (g'.rangeOf bare) := by
  refine .whether (.looksAtOneOf 0 _) (.past .next fun _ => ?_) ?_
  · exact .whether (canStart_looks bare) (.bind (hg.operand 0 bare) fun _ => .pure id) (.pure id)
  · exact .past (hg.operandOf 0 bare) (hg.rangeFrom bare)

theorem HaltsBelow.assignFrom (hg : g.HaltsBelow n g') (bare : Bool) (left : Expr) :
    Halts n (fun _ => False) (g.assignFrom bare left) (g'.assignFrom bare left) := by
  refine .looking assignWidth_looks fun width _ => ?_
  match width with
  | 0 => exact .pure id
  | width + 1 => exact .bind (.skip _) fun _ => .bind (hg.expr bare) fun _ => .pure id

theorem HaltsBelow.exprOf (hg : g.HaltsBelow n g') (bare : Bool) :
    Halts (n + 1) (fun _ => True) (g.exprOf bare) (g'.exprOf bare) :=
  .past (hg.rangeOf bare) (hg.assignFrom bare)

theorem HaltsBelow.exprFrom (hg : g.HaltsBelow n g') (left : Expr) :
    Halts n (fun _ => False) (g.exprFrom left) (g'.exprFrom left) :=
  .bind (hg.binaryFrom 0 false left) fun e => .bind (hg.rangeFrom false e) (hg.assignFrom false)

end BuilderMigration.Grammar
