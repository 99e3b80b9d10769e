import BuilderMigration.Grammar.Items
import BuilderMigration.Proofs.Likeness.Expressions
import BuilderMigration.Proofs.Grammar.Reading

/-! The productions of statements, blocks and items over tokens that are like others, and with them those
of whole files: such tokens are read as the same tree, relabeled, or fail in the same way. -/

namespace BuilderMigration.Grammar

open Parse

variable {M : Likeness} {b : Prop} {g : Grammar}

/-! ### Statements -/

theorem startsBlockLike_sees : Sees M startsBlockLike startsBlockLike := by
  refine .look 0 (.pure _) fun t t' ht => ?_
  have hwords : ∀ v ∈ ["if", "match", "loop", "while", "for"], Asked v := by decide
  have hunsafe : t'.value = "unsafe" ↔ t.value = "unsafe" := ht.value_eq_iff (by decide)
  have hconst : t'.value = "const" ↔ t.value = "const" := ht.value_eq_iff (by decide)
  have hasync : t'.value = "async" ↔ t.value = "async" := ht.value_eq_iff (by decide)
  simp only [ht.isPunct, ht.kind, ht.contains hwords, hunsafe, hconst, hasync]
  apply Sees.ite (.pure _)
  apply Sees.ite (.pure _)
  apply Sees.ite (.pure _)
  apply Sees.ite (.looksAt 1 (by decide))
  refine .ite (.bind (.looksAt 1 (by decide)) fun _ => ?_) (.pure _)
  apply Sees.ite (.pure _)
  exact .bind (.looksAt 1 (by decide)) fun _ => .bind (.looksAt 2 (by decide)) fun _ => .pure _

theorem startsItem_sees : Sees M startsItem startsItem := by
  refine .look 0 (.pure _) fun t t' ht => ?_
  have hwords : ∀ v ∈ itemKeywords, Asked v := by decide
  have hconst : t'.value = "const" ↔ t.value = "const" := ht.value_eq_iff (by decide)
  have hstatic : t'.value = "static" ↔ t.value = "static" := ht.value_eq_iff (by decide)
  have hunsafe : t'.value = "unsafe" ↔ t.value = "unsafe" := ht.value_eq_iff (by decide)
  have hasync : t'.value = "async" ↔ t.value = "async" := ht.value_eq_iff (by decide)
  have hrules : t'.value = "macro_rules" ↔ t.value = "macro_rules" := ht.value_eq_iff (by decide)
  simp only [ht.kind, ht.contains hwords, hconst, hstatic, hunsafe, hasync, hrules]
  apply Sees.ite (.pure _)
  apply Sees.ite (.pure _)
  apply Sees.ite
  · exact .bind (.looksAtKind 1 _) fun _ => .bind (.looksAt 1 (by decide)) fun _ => .pure _
  exact .ite (.looksAtOneOf 1 (by decide)) (.ite (.looksAt 1 (by decide)) (.pure _))

theorem Respects.statementExprOf (hg : g.Respects M) :
    Alike M b True g.statementExprOf g.statementExprOf (Mapped M.expr (Expr.Written M.Named)) := by
  apply Alike.seeing startsBlockLike_sees
  intro starts
  refine .ite ?_ (hg.exprOf false)
  apply Alike.bind (hg.primaryOf false)
  rintro e _ ⟨rfl, he⟩
  apply Alike.seeing (.looksAtOneOf 0 (by decide))
  intro goes
  refine .ite ?_ (.pure ⟨rfl, he⟩)
  apply Alike.bind (hg.suffixes he)
  rintro e _ ⟨rfl, he⟩
  exact hg.exprFrom he

theorem Respects.letStmt (hg : g.Respects M) :
    Alike M b True g.letStmt g.letStmt (Mapped M.stmt (Stmt.Written M.Named)) := by
  apply Alike.bind (.expect (by decide))
  intro start start' hstart
  rw [hstart.lo]
  apply Alike.bind (pattern_alike (by decide))
  rintro p _ ⟨rfl, hp⟩
  apply Alike.bind hg.declaredType
  rintro ty _ ⟨rfl, hty⟩
  have hrest (init : Option Expr) (otherwise : Option Block) (hi : ∀ e ∈ init, e.Written M.Named)
      (ho : ∀ block ∈ otherwise, block.Written M.Named) : Alike M True True
      (do
        let _ ← expect ";"
        return Stmt.letStmt (← spanFrom start.lo) p ty init otherwise)
      (do
        let _ ← expect ";"
        return .letStmt (← spanFrom (M.place start.lo)) (M.pattern p) (ty.map M.ty) (init.map M.expr)
          (otherwise.map M.block))
      (Mapped M.stmt (Stmt.Written M.Named)) := by
    apply Alike.bind (.expect (by decide))
    intro _ _ _
    apply Alike.bind (.spanFrom start.lo)
    rintro span _ rfl
    exact .pure ⟨M.stmt_letStmt .., Stmt.named_letStmt.2 ⟨hp, hty, hi, ho⟩⟩
  apply Alike.bind (.accept (by decide))
  rintro assigned _ rfl
  refine .ite ?_ (hrest none none nofun nofun)
  apply Alike.bind (hg.expr false)
  rintro e _ ⟨rfl, he⟩
  have hinit : ∀ e' ∈ some e, e'.Written M.Named := by simpa using he
  apply Alike.bind (.accept (by decide))
  rintro guarded _ rfl
  refine .ite ?_ (hrest (some e) none hinit nofun)
  apply Alike.bind (hg.block .plain none)
  rintro block _ ⟨rfl, hblock⟩
  exact hrest (some e) (some block) hinit (by simpa using hblock)

/-- What turns of a block find. -/
abbrev BlockTurns (M : Likeness) :
    Turn Stmt (Option Expr) → Turn Stmt (Option Expr) → Prop :=
  Turn.Like (Mapped M.stmt (Stmt.Written M.Named))
    (Mapped (Option.map M.expr) (∀ e ∈ ·, e.Written M.Named))

theorem Respects.exprStmt (hg : g.Respects M) :
    Alike M b True g.exprStmt g.exprStmt (BlockTurns M) := by
  refine .lookHead (fun _ _ => ⟨_, rfl, rfl⟩) fun t t' ht => ?_
  have hlo : ((some t').map (·.lo)).getD 0 = M.place t.lo := ht.lo
  rw [hlo]
  apply Alike.bind hg.statementExprOf
  rintro e _ ⟨rfl, he⟩
  apply Alike.bind (.accept (by decide))
  rintro semicolon _ rfl
  refine .ite ?_ ?_
  · apply Alike.bind (.spanFrom t.lo)
    rintro span _ rfl
    exact .pure (.one ⟨rfl, he⟩)
  apply Alike.seeing (.nextIs (by decide))
  intro closes
  apply Alike.ite (.pure (.stop ⟨rfl, by simpa using he⟩))
  rw [Relabeling.isBlockLike_expr]
  apply Alike.ite
  · rw [Relabeling.span_expr]
    exact .pure (.one ⟨rfl, he⟩)
  · exact .look 0 (.throw _) fun u u' hu => .reject hu (.expected _)

theorem Respects.blockTurn (hg : g.Respects M) :
    Alike M True True g.blockTurn g.blockTurn (BlockTurns M) := by
  apply Alike.seeing (.nextIs (by decide))
  intro closes
  apply Alike.ite (.pure (.stop ⟨rfl, nofun⟩))
  refine .look 0 (.rejectEnd _) fun t t' _ => ?_
  refine .ite (.rejectEnd _) (.bind (.accept (by decide)) ?_)
  rintro semicolon _ rfl
  refine .ite (.pure .skip) (.bind .skipAttributes fun _ _ _ => ?_)
  apply Alike.seeing (.nextIs (by decide))
  intro closes
  apply Alike.ite (.pure (.stop ⟨rfl, nofun⟩))
  apply Alike.seeing (.nextIs (by decide))
  intro binds
  apply Alike.ite (.bind hg.letStmt fun _ _ h => .pure (.one h))
  apply Alike.seeing startsItem_sees
  intro starts
  refine .ite (.bind hg.item ?_) hg.exprStmt
  rintro i _ ⟨rfl, hi⟩
  rw [Relabeling.span_item]
  exact .pure (.one ⟨rfl, hi⟩)

theorem Respects.blockOf (hg : g.Respects M) (kind : BlockKind) (lo : Option Int) :
    Alike M b True (g.blockOf kind lo) (g.blockOf kind (lo.map M.place))
      (Mapped M.block (Block.Written M.Named)) := by
  apply Alike.bind (.expect (by decide))
  intro brace brace' hbrace
  rw [hbrace.lo]
  apply Alike.bind .skipAttributes
  intro _ _ _
  apply Alike.bind (.collect hg.blockTurn)
  rintro ⟨stmts, tail⟩ ⟨_, _⟩ ⟨⟨rfl, hstmts⟩, rfl, htail⟩
  apply Alike.bind (.expect (by decide))
  intro _ _ _
  have hlo : (lo.map M.place).getD (M.place brace.lo) = M.place (lo.getD brace.lo) := by
    cases lo <;> rfl
  rw [hlo]
  apply Alike.bind (.spanFrom _)
  rintro span _ rfl
  exact .pure ⟨M.block_mk .., Block.named_mk.2 ⟨hstmts, htail⟩⟩

/-! ### Functions -/

theorem receiver?_sees : Sees M receiver? receiver? := by
  have hlast (before : Nat) : Sees M
      (do
        if (← looksAt before "self") && !(← looksAt (before + 1) "::") then return some (before + 1)
        return none)
      (do
        if (← looksAt before "self") && !(← looksAt (before + 1) "::") then return some (before + 1)
        return none) :=
    .bind (.looksAt before (by decide)) fun _ => .bind (.looksAt _ (by decide)) fun _ =>
      .ite (.pure _) (.pure _)
  have hmut (marks : Nat) : Sees M
      (do
        let before ← if ← looksAt marks "mut" then pure (marks + 1) else pure marks
        if (← looksAt before "self") && !(← looksAt (before + 1) "::") then return some (before + 1)
        return none)
      (do
        let before ← if ← looksAt marks "mut" then pure (marks + 1) else pure marks
        if (← looksAt before "self") && !(← looksAt (before + 1) "::") then return some (before + 1)
        return none) :=
    .bind (.looksAt marks (by decide)) fun _ => .ite (hlast _) (hlast _)
  refine .bind (.looksAt 0 (by decide)) fun _ => .ite ?_ (hmut 0)
  exact .bind (.looksAtKind 1 .lifetime) fun _ => .ite (hmut 2) (hmut 1)

/-- A parameter of the type that may be behind a colon. -/
theorem Respects.fnParam (hg : g.Respects M) :
    Alike M True True g.fnParam g.fnParam (Mapped M.param (Param.Written M.Named)) := by
  apply Alike.bind .skipAttributes
  intro _ _ _
  apply Alike.look 0 (.rejectEnd _)
  intro t t' ht
  dsimp -zeta only
  rw [ht.lo]
  apply Alike.seeing receiver?_sees
  intro receiver
  cases receiver with
  | some width =>
    apply Alike.bind (.skip width)
    intro _ _ _
    apply Alike.bind hg.declaredType
    rintro ty _ ⟨rfl, hty⟩
    apply Alike.bind (.spanFrom t.lo)
    rintro span _ rfl
    have hself : M.name "self" = "self" := (M.name_eq_iff (by decide) _).2 rfl
    refine .pure ⟨?_, .inr rfl, hty, Option.not_mem_none⟩
    simp only [Relabeling.param, Relabeling.pattern, hself]
  | none =>
    apply Alike.bind (pattern_alike (by decide))
    rintro p _ ⟨rfl, hp⟩
    apply Alike.bind hg.declaredType
    rintro ty _ ⟨rfl, hty⟩
    apply Alike.bind (.spanFrom t.lo)
    rintro span _ rfl
    exact .pure ⟨rfl, hp, hty, Option.not_mem_none⟩

theorem Respects.fnItem (hg : g.Respects M) (lo : Int) :
    Alike M b True (g.fnItem lo) (g.fnItem (M.place lo)) (Mapped M.item (Item.Written M.Named)) := by
  apply Alike.bind (.expect (by decide))
  intro _ _ _
  apply Alike.bind .expectName
  rintro name _ ⟨rfl, -⟩
  apply Alike.seeing (.nextIs (by decide))
  intro angle
  extract_lets rest rest'
  have hrest : Alike M True True (rest ()) (rest' ()) (Mapped M.item (Item.Written M.Named)) := by
    apply Alike.bind (.expect (by decide))
    intro _ _ _
    apply Alike.bind (.commaList (by decide) hg.fnParam)
    rintro ⟨params, _⟩ ⟨_, _⟩ ⟨⟨rfl, hparams⟩, -⟩
    apply Alike.bind (.expect (by decide))
    intro _ _ _
    apply Alike.bind (.skipTo (by decide))
    intro _ _ _
    have hnode (body : Option Block) (hbody : ∀ block ∈ body, block.Written M.Named) : Alike M True True
        (do return Item.fn (← spanFrom lo) name params body)
        (do return .fn (← spanFrom (M.place lo)) (M.name name) (params.map M.param) (body.map M.block))
        (Mapped M.item (Item.Written M.Named)) := by
      apply Alike.bind (.spanFrom lo)
      rintro span _ rfl
      exact .pure ⟨M.item_fn .., Item.named_fn.2 ⟨hparams, hbody⟩⟩
    apply Alike.seeing (.nextIs (by decide))
    intro opens
    apply Alike.ite
    · apply Alike.bind (hg.block .plain none)
      rintro block _ ⟨rfl, hblock⟩
      exact hnode (some block) (by simpa using hblock)
    · exact .bind (.expect (by decide)) fun _ _ _ => hnode none nofun
  exact .ite (.bind .skipGenerics fun _ _ _ => hrest) hrest

/-! ### Other items -/

theorem other_alike (lo : Int) : Alike M True True (do return Item.other (← spanFrom lo))
    (do return .other (← spanFrom (M.place lo))) (Mapped M.item (Item.Written M.Named)) := by
  apply Alike.bind (.spanFrom lo)
  rintro span _ rfl
  exact .pure ⟨rfl, trivial⟩

/-- What is taken from relabeled leaves is what is taken from the leaves, relabeled. -/
theorem filterMap_leaf {β : Type} {take : UseLeaf → Option β} {f : β → β}
    (h : ∀ leaf, take (M.leaf leaf) = (take leaf).map f) (leaves : List UseLeaf) :
    (leaves.map M.leaf).filterMap take = (leaves.filterMap take).map f := by
  rw [List.filterMap_map, List.map_filterMap]
  exact congrArg (List.filterMap · leaves) (funext h)

theorem Respects.useItem (hg : g.Respects M) (lo : Int) :
    Alike M b True (g.useItem lo) (g.useItem (M.place lo)) (Mapped M.item (Item.Written M.Named)) := by
  apply Alike.bind (.expect (by decide))
  intro _ _ _
  have hroot : ∀ s ∈ ([] : List String), M.Named s := nofun
  apply Alike.bind (hg.useTreeOf hroot)
  rintro leaves _ ⟨rfl, hleaves⟩
  apply Alike.bind (.expect (by decide))
  intro _ _ _
  apply Alike.bind (.spanFrom lo)
  rintro span _ rfl
  refine .pure ⟨?_, fun i hi => ?_, fun path hpath => ?_⟩
  · rw [filterMap_leaf (f := M.use), filterMap_leaf (f := List.map M.name)]
    · rfl
    · rintro (_ | _) <;> rfl
    · rintro (_ | _) <;> rfl
  · obtain ⟨leaf, hleaf, h⟩ := List.mem_filterMap.1 hi
    have hn := hleaves leaf hleaf
    cases leaf with
    | named j =>
      cases h
      exact hn
    | glob p => cases h
  · obtain ⟨leaf, hleaf, h⟩ := List.mem_filterMap.1 hpath
    have hn := hleaves leaf hleaf
    cases leaf with
    | named j => cases h
    | glob p =>
      cases h
      exact hn

theorem items_alike {item : Parse Item}
    (h : Alike M b b item item (Mapped M.item (Item.Written M.Named))) (braced : Bool) :
    Alike M b b (items item braced) (items item braced)
      (Mapped (List.map M.item) (∀ i ∈ ·, i.Written M.Named)) := by
  refine .bind (Alike.collect (m := M.item) (P := Item.Written M.Named) (S := (· = ·)) ?_) ?_
  · apply Alike.bind .skipAttributes
    intro _ _ _
    have hmore : Alike M b b
        (do
          if braced && (← nextIs "\x7d") then return .stop ()
          else if ← accept ";" then return .skip
          else return .one (← item) : Parse (Turn Item Unit))
        (do
          if braced && (← nextIs "\x7d") then return .stop ()
          else if ← accept ";" then return .skip
          else return .one (← item))
        (Turn.Like (Mapped M.item (Item.Written M.Named)) (· = ·)) := by
      apply Alike.seeing (.nextIs (by decide))
      intro closes
      refine .ite (.pure (.stop rfl)) (.bind (.accept (by decide)) ?_)
      rintro semicolon _ rfl
      exact .ite (.pure .skip) (.bind h fun _ _ hi => .pure (.one hi))
    apply Alike.look 0
    · exact .ite (.ite (.rejectEnd _) (.pure (.stop rfl))) hmore
    · intro t t' _
      exact .ite (.ite (.rejectEnd _) (.pure (.stop rfl))) hmore
  · rintro ⟨found, _⟩ ⟨_, _⟩ ⟨hfound, -⟩
    exact .pure hfound

theorem Respects.container (hg : g.Respects M) (lo : Int) (kind : ContainerKind) :
    Alike M b True (g.container lo kind) (g.container (M.place lo) kind)
      (Mapped M.item (Item.Written M.Named)) := by
  apply Alike.bind (.skip_succ 0)
  intro _ _ _
  apply Alike.bind (.skipTo (by decide))
  intro _ _ _
  apply Alike.bind (.accept (by decide))
  rintro semicolon _ rfl
  refine .ite (other_alike lo) ?_
  apply Alike.bind (.expect (by decide))
  intro _ _ _
  apply Alike.bind (items_alike hg.item true)
  rintro inner _ ⟨rfl, hinner⟩
  apply Alike.bind (.expect (by decide))
  intro _ _ _
  apply Alike.bind (.spanFrom lo)
  rintro span _ rfl
  refine .pure ⟨?_, ?_⟩
  · rw [Relabeling.item, M.items_eq_map]
  · rw [Item.Written, Item.Named]
    exact itemsNamed_iff.2 hinner

theorem macroItem_alike (lo : Int) : Alike M b True (macroItem lo) (macroItem (M.place lo))
    (Mapped M.item (Item.Written M.Named)) := by
  apply Alike.bind (.skip_succ 1)
  intro _ _ _
  apply Alike.bind (.acceptKind .ident)
  intro _ _ _
  apply Alike.bind .skipGroup
  intro _ _ _
  exact .bind (.accept (by decide)) fun _ _ _ => other_alike lo

theorem qualifiers_alike : Alike M b b qualifiers qualifiers fun _ _ => True := by
  have hskip : Alike M b b (do skip 1; return true) (do skip 1; return true) (· = ·) :=
    .bind (.skip 1) fun _ _ _ => .pure rfl
  have hqualifier : Alike M b b qualifier qualifier (· = ·) := by
    apply Alike.seeing (.looksAtOneOf 0 (by decide))
    intro plain
    apply Alike.ite hskip
    apply Alike.seeing (.nextIs (by decide))
    intro constant
    apply Alike.seeing (.looksAtOneOf 1 (by decide))
    intro follows
    apply Alike.ite hskip
    apply Alike.seeing (.nextIs (by decide))
    intro foreign
    refine .ite ?_ (.pure rfl)
    apply Alike.seeing (.looksAt 1 (by decide))
    intro follows
    apply Alike.seeing (.looksAtKind 1 _)
    intro abi
    apply Alike.seeing (.looksAt 2 (by decide))
    intro follows
    refine .ite ?_ (.pure rfl)
    apply Alike.bind (.skip 1)
    intro _ _ _
    exact .bind (.acceptKind .string) fun _ _ _ => .pure rfl
  have hrest : Alike M b b
      (Parse.iterate (fun (_ : Unit) => do if ← qualifier then return .inl () else return .inr ()) ())
      (Parse.iterate (fun (_ : Unit) => do if ← qualifier then return .inl () else return .inr ()) ())
      fun _ _ => True := by
    refine .repeat (.bind hqualifier ?_)
    rintro found _ rfl
    exact .ite (.pure rfl) (.pure rfl)
  apply Alike.bind (.accept (by decide))
  rintro visible _ rfl
  refine .ite (.seeing (.nextIs (by decide)) fun _ => ?_) hrest
  exact .ite (.past .skipGroup fun _ _ _ => hrest) hrest

theorem container?_like {t t' : Token} (ht : t.Like M t') : container? t' = container? t := by
  have hwords : ∀ p ∈ [("impl", ContainerKind.implementation), ("trait", .interface), ("mod", .module)],
      Asked p.1 := by decide
  rw [container?, container?, ht.kind, ht.lookup hwords]

theorem Respects.itemOf (hg : g.Respects M) :
    Alike M b True g.itemOf g.itemOf (Mapped M.item (Item.Written M.Named)) := by
  apply Alike.bind .skipAttributes
  intro _ _ _
  refine .lookHead (fun _ _ => ⟨_, rfl, rfl⟩) fun first first' hfirst => ?_
  have hlo : ((some first').map (·.lo)).getD 0 = M.place first.lo := hfirst.lo
  rw [hlo]
  apply Alike.bind qualifiers_alike
  intro _ _ _
  apply Alike.look 0 (.rejectEnd _)
  intro t t' ht
  have hfn : t'.isKeyword "fn" = t.isKeyword "fn" := ht.isKeyword (by decide)
  have huse : t'.isKeyword "use" = t.isKeyword "use" := ht.isKeyword (by decide)
  have hwords : ∀ v ∈ ["const", "static", "type"], Asked v := by decide
  simp only [hfn, huse, container?_like ht, ht.kind, ht.contains hwords]
  apply Alike.ite (hg.fnItem first.lo)
  apply Alike.ite (hg.useItem first.lo)
  cases container? t with
  | some kind => exact hg.container first.lo kind
  | none =>
    refine .ite (.reject ht .unexpectedToken) (.seeing (.looksAt 1 (by decide)) fun _ => ?_)
    apply Alike.ite (macroItem_alike first.lo)
    apply Alike.ite
    · apply Alike.bind (.skipTo (by decide))
      intro _ _ _
      exact .bind (.expect (by decide)) fun _ _ _ => other_alike first.lo
    · exact .bind .skipItemRest fun _ _ _ => other_alike first.lo

end BuilderMigration.Grammar

namespace BuilderMigration

open Parse

variable {M : Likeness} {ts ts' : List Token}

/-! ### Grammars -/

namespace Grammar

variable {g : Grammar}

theorem respects_exhausted : exhausted.Respects M where
  ty := .throw _
  useTree _ := .throw _
  expr _ := .throw _
  operand _ _ := .throw _
  unary _ := .throw _
  primary _ := .throw _
  statementExpr := .throw _
  conditional := .throw _
  block _ _ := .throw _
  item := .throw _

theorem Respects.above (hg : g.Respects M) : g.above.Respects M where
  ty := hg.typeOf
  useTree hp := hg.useTreeOf hp
  expr bare := hg.exprOf bare
  operand strength bare := hg.operandOf strength bare
  unary bare := hg.unaryOf bare
  primary bare := hg.primaryOf bare
  statementExpr := hg.statementExprOf
  conditional := hg.conditionalOf
  block kind lo := hg.blockOf kind lo
  item := hg.itemOf

theorem respects_ofDepth (M : Likeness) (depth : Nat) : (ofDepth depth).Respects M := by
  induction depth with
  | zero => exact respects_exhausted
  | succ depth ih => exact ih.above

theorem forTokens_eq (h : Together M ts ts') : forTokens ts' = forTokens ts := by
  rw [forTokens, forTokens, h.length_eq]

end Grammar

/-! ### Trees -/

/-- Outcomes alike: values in a relation, or failures alike. -/
inductive Outcomes {α : Type} (M : Likeness) (Q : α → α → Prop) :
    Except Failure α → Except Failure α → Prop where
  | ok {a a' : α} (h : Q a a') : Outcomes M Q (.ok a) (.ok a')
  | error {f f' : Failure} (h : f.Like M f') : Outcomes M Q (.error f) (.error f')

/-- What two ends that are alike give. -/
theorem Parse.Ends.outcomes {α : Type} {b : Prop} {Q : α → α → Prop}
    {r r' : Except Failure (α × Cursor)} (h : Ends M b Q r r') :
    Outcomes M Q ((·.1) <$> r) ((·.1) <$> r') := by
  cases h with
  | ok hq _ => exact .ok hq
  | error hf => exact .error hf

/-- At the start of a text no token has been read. -/
theorem Cursor.Beside.start (h : Together M ts ts') :
    Cursor.Beside M False ⟨ts, 0⟩ ⟨ts', 0⟩ := ⟨h, nofun⟩

theorem readItems_alike (h : Together M ts ts') :
    Outcomes M (Mapped (List.map M.item) (∀ i ∈ ·, i.Written M.Named)) (readItems ts)
      (readItems ts') := by
  have hitem : Alike M False False (Grammar.forTokens ts).item (Grammar.forTokens ts).item
      (Mapped M.item (Item.Written M.Named)) :=
    (Grammar.respects_ofDepth M _).item.keep fun _ => trivial
  simp only [readItems, Grammar.forTokens_eq h]
  exact (Grammar.items_alike hitem false _ _ (.start h)).outcomes

theorem readExprTokens_alike (h : Together M ts ts') :
    Outcomes M (Mapped M.expr (Expr.Written M.Named)) (readExprTokens ts) (readExprTokens ts') := by
  simp only [readExprTokens_eq, Grammar.forTokens_eq h]
  have hexpr : Alike M False True ((Grammar.forTokens ts).expr false) _
      (Mapped M.expr (Expr.Written M.Named)) := (Grammar.respects_ofDepth M _).expr false
  have hsole : Alike M False True (Grammar.forTokens ts).soleExpr (Grammar.forTokens ts).soleExpr
      (Mapped M.expr (Expr.Written M.Named)) :=
    hexpr.bind fun _ _ he => .look 0 (.pure he) fun _ _ ht => .reject ht .unexpectedToken
  exact (hsole _ _ (.start h)).outcomes

end BuilderMigration
