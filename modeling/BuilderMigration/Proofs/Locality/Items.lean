import BuilderMigration.Grammar.Items
import BuilderMigration.Proofs.Locality.Expressions

/-! The productions of statements and items are local. What they look ahead for begins with a name or
a keyword, behind which the group goes on. -/

namespace BuilderMigration.Grammar

open Parse

variable {G : TokenGroup} {outer : List Token} {k : Nat} {g : Grammar} {lo : Int} {c : Cursor}

/-- Behind a name there is a token. -/
theorem behind_ident {t : Token} {us : List Token} (hs : c.rest <:+ G.tokens) (hr : c.rest = t :: us)
    (hk : ¬ t.kind ≠ .ident) : 1 < c.rest.length :=
  TokenGroup.goes_on hs (j := 0) (by rw [hr]; rfl)
    (Token.closes?_of_kind fun h => hk (by rw [h]; exact nofun))

/-! ### Statements and blocks -/

theorem startsBlockLike_seesAt (hs : c.rest <:+ G.tokens) : SeesAt outer c startsBlockLike := by
  refine .lookNext .pure fun t us hr => ?_
  refine .ite (fun _ => .pure) fun _ => .ite (fun _ => .pure) fun hk => ?_
  have hl := behind_ident hs hr hk
  refine .ite (fun _ => .pure) fun _ => .ite (fun _ => .looksAt (.inr hl) _) fun _ => ?_
  refine .ite (fun _ => ?_) fun _ => .pure
  refine .bind (.looksAt (.inr hl) _) fun _ _ => .ite (fun _ => .pure) fun _ => ?_
  exact .ahead hs (.inr hl) (fun _ => Token.closes?_of_is (by decide)) (looksAt_apply 1 "move")
    (fun _ => rfl) (fun _ => rfl) fun _ _ => .pure

theorem startsItem_seesAt (hs : c.rest <:+ G.tokens) : SeesAt outer c startsItem := by
  refine .lookNext .pure fun t us hr => .ite (fun _ => .pure) fun hk => ?_
  have hl := behind_ident hs hr hk
  refine .ite (fun _ => .pure) fun _ => .ite (fun _ => ?_) fun _ => .ite (fun _ => ?_) fun _ => ?_
  · exact .bind (.looksAtKind (.inr hl) _) fun _ _ => .bind (.looksAt (.inr hl) _) fun _ _ => .pure
  · exact .looksAtOneOf (.inr hl) _
  · exact .ite (fun _ => .looksAt (.inr hl) _) fun _ => .pure

theorem LocalIn.statementExprOf (hg : g.LocalIn G outer) : Local G outer k g.statementExprOf := by
  refine .lookingAhead (fun _ hs _ => startsBlockLike_seesAt hs) fun _ =>
    .ite (fun _ => ?_) fun _ => hg.exprOf false
  refine .bind (hg.primaryOf false) fun e => .whether (.looksAtOneOf (.inl rfl) _) ?_ .pure
  exact .bind (hg.suffixes e) fun e => hg.exprFrom e

theorem LocalIn.letStmt (hg : g.LocalIn G outer) : Local G outer k g.letStmt := by
  refine .bind (.expect "let") fun start => .bind (pattern_local _) fun p => ?_
  refine .bind hg.declaredType fun ty => .bind (.accept "=") fun _ => ?_
  extract_lets rest
  have hrest (r : Option Expr × Option Block) : Local G outer 0 (rest r) :=
    .bind (.expect ";") fun _ => .looking (.spanFrom _) fun _ => .pure
  refine .ite (fun _ => .bind (hg.expr false) fun e => ?_) fun _ => hrest (none, none)
  refine .bind (.accept "else") fun _ => .ite (fun _ => ?_) fun _ => hrest (some e, none)
  exact .bind (hg.block _ _) fun b => hrest (some e, some b)

theorem LocalIn.exprStmt (hg : g.LocalIn G outer) : Local G outer k g.exprStmt := by
  refine .looking (.look (.inl rfl)) fun _ => .bind hg.statementExprOf fun e => ?_
  refine .bind (.accept ";") fun _ => .ite (fun _ => .looking (.spanFrom _) fun _ => .pure) fun _ => ?_
  refine .whether (.nextIs "\x7d") .pure (.ite (fun _ => .pure) fun _ => ?_)
  exact .lookNext (.throw trivial) fun _ => .reject _ _

theorem LocalIn.blockTurn (hg : g.LocalIn G outer) : Local G outer k g.blockTurn := by
  refine .whether (.nextIs "\x7d") .pure (.lookNext (.rejectEnd _) fun t => ?_)
  refine .bind (.accept ";") fun _ => .ite (fun _ => .pure) fun _ => .bind .skipAttributes fun _ => ?_
  refine .whether (.nextIs "\x7d") .pure (.whether (.nextIs "let") ?_ ?_)
  · exact .bind hg.letStmt fun _ => .pure
  refine .lookingAhead (fun _ hs _ => startsItem_seesAt hs) fun _ =>
    .ite (fun _ => ?_) fun _ => hg.exprStmt
  exact .bind hg.item fun _ => .pure

theorem LocalIn.blockOf (hg : g.LocalIn G outer) (kind : BlockKind) (lo : Option Int) :
    Local G outer k (g.blockOf kind lo) := by
  refine .bind (.expect "\x7b") fun brace => .bind .skipAttributes fun _ => ?_
  refine .bind (.collect hg.blockTurn) fun r => .bind (.expect "\x7d") fun _ => ?_
  exact .looking (.spanFrom _) fun _ => .pure

/-! ### Functions -/

/-- Each mark of a receiver closes no group, so that the next one can be looked for behind it. -/
theorem receiver?_seesAt (hs : c.rest <:+ G.tokens) (hk : 1 ≤ c.rest.length) :
    SeesAt outer c receiver? := by
  have hlast (before : Nat) (hl : before < c.rest.length) : SeesAt outer c (do
      if (← looksAt before "self") && !(← looksAt (before + 1) "::") then return some (before + 1)
      return none) :=
    .ahead hs (.inr hl) (fun _ => Token.closes?_of_is (by decide)) (looksAt_apply before "self")
      (looksAt_apply (before + 1) "::") (fun _ => rfl) fun _ _ => .ite (fun _ => .pure) fun _ => .pure
  have hmut (marks : Nat) (hl : marks < c.rest.length) : SeesAt outer c (do
      let before ← if ← looksAt marks "mut" then pure (marks + 1) else pure marks
      if (← looksAt before "self") && !(← looksAt (before + 1) "::") then return some (before + 1)
      return none) := by
    refine .bind (.looksAt (.inr hl) _) fun found hfound => .ite (fun h => ?_) fun _ => hlast _ hl
    have hmark := (Prod.mk.inj (Except.ok.inj hfound)).1.trans h
    exact hlast _ (goes_on_of_any hs (fun _ => Token.closes?_of_is (by decide)) hmark)
  refine .bind (.nextIs "&") fun found hfound => .ite (fun h => ?_) fun _ => hmut 0 hk
  have hmark := (Prod.mk.inj (Except.ok.inj hfound)).1.trans h
  have hl := goes_on_of_any hs (fun _ => Token.closes?_of_is (by decide)) hmark
  refine .bind (.looksAtKind (.inr hl) _) fun found hfound => .ite (fun h => ?_) fun _ => hmut 1 hl
  have hlifetime := (Prod.mk.inj (Except.ok.inj hfound)).1.trans h
  refine hmut 2 (goes_on_of_any hs (fun t ht => Token.closes?_of_kind ?_) hlifetime)
  rw [beq_iff_eq.1 ht]
  nofun

theorem LocalIn.fnParam (hg : g.LocalIn G outer) : Local G outer k g.fnParam := by
  refine .bind .skipAttributes fun _ => .lookNext (.rejectEnd _) fun t => ?_
  refine .lookingAhead (fun _ hs hk => receiver?_seesAt hs hk) fun o => ?_
  cases o with
  | some width =>
    refine .bind (.skip width) fun _ => .bind hg.declaredType fun _ => ?_
    exact .looking (.spanFrom _) fun _ => .pure
  | none =>
    refine .bind (pattern_local _) fun _ => .bind hg.declaredType fun _ => ?_
    exact .looking (.spanFrom _) fun _ => .pure

theorem LocalIn.fnItem (hg : g.LocalIn G outer) : Local G outer k (g.fnItem lo) := by
  refine .bind (.expect "fn") fun _ => .bind .expectName fun name => .looking (.nextIs "<") fun _ => ?_
  extract_lets rest
  have hrest : Local G outer 0 (rest ()) := by
    refine .bind (.expect "(") fun _ => .bind (.commaList ")" hg.fnParam) fun r => ?_
    refine .bind (.expect ")") fun _ => .bind (.skipTo _) fun _ => .looking (.nextIs "\x7b") fun _ => ?_
    extract_lets node
    have hnode (body : Option Block) : Local G outer 0 (node body) :=
      .looking (.spanFrom _) fun _ => .pure
    refine .ite (fun _ => .bind (hg.block _ _) fun b => hnode _) fun _ => ?_
    exact .bind (.expect ";") fun _ => hnode none
  exact .ite (fun _ => .bind .skipGenerics fun _ => hrest) fun _ => hrest

/-! ### Other items -/

theorem LocalIn.useItem (hg : g.LocalIn G outer) : Local G outer k (g.useItem lo) :=
  .bind (.expect "use") fun _ => .bind (hg.useTreeOf []) fun _ => .bind (.expect ";") fun _ =>
    .looking (.spanFrom _) fun _ => .pure

theorem LocalIn.items (hg : g.LocalIn G outer) (braced : Bool) :
    Local G outer k (items g.item braced) := by
  refine .bind (.collect (.bind .skipAttributes fun _ => ?_)) fun _ => .pure
  refine .lookNext (.ite (fun _ => .ite (fun _ => .rejectEnd _) fun _ => .pure) fun h => absurd rfl h)
    fun t => .ite (fun h => nomatch h) fun _ => .looking (.nextIs "\x7d") fun _ => ?_
  refine .ite (fun _ => .pure) fun _ => .bind (.accept ";") fun _ => .ite (fun _ => .pure) fun _ => ?_
  exact .bind hg.item fun _ => .pure

theorem LocalIn.container (hg : g.LocalIn G outer) (kind : ContainerKind) :
    Local G outer k (g.container lo kind) := by
  refine .bind (.skip 1) fun _ => .bind (.skipTo _) fun _ => .bind (.accept ";") fun _ => ?_
  refine .ite (fun _ => .looking (.spanFrom _) fun _ => .pure) fun _ => ?_
  refine .bind (.expect "\x7b") fun _ => .bind (hg.items true) fun _ => ?_
  exact .bind (.expect "\x7d") fun _ => .looking (.spanFrom _) fun _ => .pure

theorem macroItem_local : Local G outer k (macroItem lo) :=
  .bind (.skip 2) fun _ => .bind (.acceptKind .ident) fun _ => .bind .skipGroup fun _ =>
    .bind (.accept ";") fun _ => .looking (.spanFrom _) fun _ => .pure

theorem qualifier_local : Local G outer k qualifier := by
  have hskip {k : Nat} : Local G outer k (do skip 1; return true) :=
    .bind (.skip 1) fun _ => .pure
  refine .whether (.looksAtOneOf (.inl rfl) _) hskip ?_
  refine .ahead (.inl rfl) (by decide) (fun _ => rfl) hskip ?_
  refine .whetherAt (.inl rfl) (by decide) ?_ .pure
  refine .lookingAhead (fun _ _ hk => .looksAt (.inr hk) _) fun fn => ?_
  refine .aheadOf (.inr (by decide)) (P := (·.kind == .string)) ?_ (fun _ => rfl) (fun _ => rfl)
    (fun _ => rfl) fun _ _ => .ite (fun _ => ?_) fun _ => .pure
  · exact fun t ht => Token.closes?_of_kind (by rw [beq_iff_eq.1 ht]; nofun)
  · exact .bind (.skip 1) fun _ => .bind (.acceptKind .string) fun _ => .pure

theorem qualifiers_local : Local G outer k qualifiers := by
  refine .bind (.accept "pub") fun _ => ?_
  extract_lets rest
  have hrest : Local G outer 0 (rest ()) :=
    .iterate (fun _ => .bind qualifier_local fun _ => .ite (fun _ => .pure) fun _ => .pure) ()
  refine .ite (fun _ => .whether (.nextIs "(") ?_ hrest) fun _ => hrest
  exact .bind .skipGroup fun _ => hrest

theorem LocalIn.itemOf (hg : g.LocalIn G outer) : Local G outer k g.itemOf := by
  refine .bind .skipAttributes fun _ => .looking (.look (.inl rfl)) fun _ => ?_
  refine .bind qualifiers_local fun _ => ⟨fun c hs hk => ?_⟩
  refine .lookNext (.wanting rfl) fun t us hr => .ite (fun _ => hg.fnItem.run c hs hk) fun _ =>
    .ite (fun _ => hg.useItem.run c hs hk) fun _ => ?_
  cases container? t with
  | some kind => exact (hg.container kind).run c hs hk
  | none =>
    refine .ite (fun _ => .reject t _ (by simp [hr])) fun hkind => ?_
    refine Local.run (k := 2) (.lookingAhead (fun _ _ hk => .looksAt (.inr hk) _) fun _ => ?_) c hs
      (behind_ident hs hr hkind)
    refine .ite (fun _ => macroItem_local) fun _ => .ite (fun _ => ?_) fun _ => ?_
    · exact .bind (.skipTo _) fun _ => .bind (.expect ";") fun _ => .looking (.spanFrom _) fun _ => .pure
    · exact .bind .skipItemRest fun _ => .looking (.spanFrom _) fun _ => .pure

end BuilderMigration.Grammar
