import BuilderMigration.Proofs.Grammar.Items
import BuilderMigration.Proofs.Halting.Expressions

/-! Reading ends on every list of tokens in which each mark of an attribute begins one, wherever the
tokens stand. The depth of the grammar and the bounds of its loops are never what ends it. An item is
called where a turn of a block or of a file has taken no token, and so is a block at its brace: each
takes its first token itself. -/

namespace BuilderMigration.Grammar

open Parse

variable {n : Nat} {g g' : Grammar} {lo : Int}

/-! ### Statements and blocks -/

theorem HaltsBelow.statementExprOf (hg : g.HaltsBelow n g') :
    Halts (n + 1) (fun _ => True) g.statementExprOf g'.statementExprOf := by
  refine .whether startsBlockLike_looks (.past (hg.primaryOf false) fun e => ?_) (hg.exprOf false)
  exact .whether (.looksAtOneOf 0 _) (.bind (hg.suffixes e) hg.exprFrom) (.pure id)

theorem HaltsBelow.letStmt (hg : g.HaltsBelow n g') :
    Halts (n + 1) (fun _ => True) g.letStmt g'.letStmt := by
  refine .past (.expect "let") fun start => .bind (pattern_halts _) fun p => ?_
  refine .bind hg.declaredType fun ty => .bind (.accept "=") fun _ => ?_
  extract_lets rest
  have hrest (r : Option Expr × Option Block) : Halts n (fun _ => False) (rest r) (rest r) :=
    .bind (.expect ";") fun _ => .looking (.spanFrom _) fun _ _ => .pure id
  refine .ite (fun _ => .bind (hg.expr false) fun e => ?_) fun _ => hrest (none, none)
  refine .bind (.accept "else") fun _ => .ite (fun _ => ?_) fun _ => hrest (some e, none)
  exact .bind (hg.block _ _) fun b => hrest (some e, some b)

theorem HaltsBelow.exprStmt (hg : g.HaltsBelow n g') :
    Halts (n + 1) (fun _ => True) g.exprStmt g'.exprStmt := by
  refine .looking (.look 0) fun _ _ => .taken hg.statementExprOf fun e => ?_
  refine .bind (.accept ";") fun _ => .ite (fun _ => .looking (.spanFrom _) fun _ _ => .pure id) fun _ => ?_
  refine .whether (.nextIs "\x7d") (.pure id) (.ite (fun _ => .pure id) fun _ => ?_)
  exact .lookNext (.throw nofun) fun _ _ => .reject _ _

theorem HaltsBelow.blockTurn (hg : g.HaltsBelow n g') :
    Halts (n + 1) (fun t => t.GoesOn ∨ False) g.blockTurn g'.blockTurn := by
  refine .whether (.nextIs "\x7d") .stop (.lookNext (.rejectEnd _) fun t hn => ?_)
  refine .branchIf (.accept ";") (.pure id) (.bind .skipAttributes fun _ => ?_)
  refine .whether (.nextIs "\x7d") .stop (.whether (.nextIs "let") ?_ ?_)
  · exact .taken hg.letStmt fun _ => .pure id
  refine .whether startsItem_looks ?_ (hg.exprStmt.imp fun _ _ => trivial)
  exact .taken (hg.itemHere (by omega)) fun _ => .pure id

theorem HaltsBelow.blockOf (hg : g.HaltsBelow n g') (kind : BlockKind) (lo : Option Int) :
    Halts (n + 2) (fun _ => True) (g.blockOf kind lo) (g'.blockOf kind lo) := by
  refine .past (.expect "\x7b") fun brace => .bind .skipAttributes fun _ => ?_
  refine .bind (.collect False hg.blockTurn) fun r => .bind (.expect "\x7d") fun _ => ?_
  exact .looking (.spanFrom _) fun _ _ => .pure id

/-! ### Functions -/

theorem HaltsBelow.fnParam (hg : g.HaltsBelow n g') : Halts n (fun _ => True) g.fnParam g'.fnParam := by
  refine .bind .skipAttributes fun _ => .lookNext (.rejectEnd _) fun t _ => ?_
  refine .looking receiver?_looks fun o hw => ?_
  match o, hw with
  | some width, hw =>
    refine .taken (.skip_pos (hw width rfl)) fun _ => .bind hg.declaredType fun _ => ?_
    exact .looking (.spanFrom _) fun _ _ => .pure id
  | none, _ =>
    refine .taken (pattern_halts _) fun _ => .bind hg.declaredType fun _ => ?_
    exact .looking (.spanFrom _) fun _ _ => .pure id

theorem HaltsBelow.fnItem (hg : g.HaltsBelow n g') :
    Halts (n + 2) (fun _ => True) (g.fnItem lo) (g'.fnItem lo) := by
  refine .past (.expect "fn") fun _ => .past .expectName fun name => .looking (.nextIs "<") fun _ _ => ?_
  extract_lets rest rest'
  have hrest : Halts n (fun _ => False) (rest ()) (rest' ()) := by
    refine .bind (.expect "(") fun _ => .bind (.commaList ")" hg.fnParam) fun r => ?_
    refine .bind (.expect ")") fun _ => .bind (.skipTo _) fun _ => .looking (.nextIs "\x7b") fun _ _ => ?_
    extract_lets node
    have hnode (body : Option Block) : Halts n (fun _ => False) (node body) (node body) :=
      .looking (.spanFrom _) fun _ _ => .pure id
    refine .ite (fun _ => .bind (hg.block _ _) fun b => hnode _) fun _ => ?_
    exact .bind (.expect ";") fun _ => hnode none
  exact .ite (fun _ => .bind .skipGenerics fun _ => hrest) fun _ => hrest

/-! ### Other items -/

theorem HaltsBelow.useItem (hg : g.HaltsBelow n g') :
    Halts (n + 2) (fun _ => True) (g.useItem lo) (g'.useItem lo) :=
  .past (.expect "use") fun _ => .bind (hg.useTreeOf []) fun _ => .bind (.expect ";") fun _ =>
    .looking (.spanFrom _) fun _ _ => .pure id

/-- Each turn of a list of items takes a token, unless it is the last. -/
theorem HaltsBelow.items (hg : g.HaltsBelow n g') (braced : Bool) :
    Halts (n + 1) (fun _ => False) (items g.item braced) (Grammar.items g'.item braced) := by
  refine .bind (.collect False (.bind .skipAttributes fun _ => ?_)) fun _ => .pure id
  refine .lookNext (.ite (fun _ => .ite (fun _ => .rejectEnd _) fun _ => .stop) fun h => absurd rfl h)
    fun t hn => .ite (fun h => nomatch h) fun _ => .looking (.nextIs "\x7d") fun _ _ => ?_
  refine .ite (fun _ => .stop) fun _ => .branchIf (.accept ";") (.pure id) ?_
  exact .taken (hg.itemHere (by omega)) fun _ => .pure id

theorem HaltsBelow.container (hg : g.HaltsBelow n g') (kind : ContainerKind) :
    Halts (n + 2) (fun _ => True) (g.container lo kind) (g'.container lo kind) := by
  refine .past .skip_one fun _ => .bind (.skipTo _) fun _ => .bind (.accept ";") fun _ => ?_
  refine .ite (fun _ => .looking (.spanFrom _) fun _ _ => .pure id) fun _ => ?_
  refine .bind (.expect "\x7b") fun _ => .bind (hg.items true) fun _ => .bind (.expect "\x7d") fun _ => ?_
  exact .looking (.spanFrom _) fun _ _ => .pure id

theorem macroItem_halts : Halts n (fun _ => True) (macroItem lo) (macroItem lo) :=
  .taken (.skip_pos Nat.two_pos) fun _ => .bind (.acceptKind .ident) fun _ => .bind .skipGroup fun _ =>
    .bind (.accept ";") fun _ => .looking (.spanFrom _) fun _ _ => .pure id

theorem qualifier_halts : Halts n (fun found => found = true) qualifier qualifier := by
  have hskip : Halts n (fun found => found = true) (do skip 1; return true) (do skip 1; return true) :=
    .taken .skip_one fun _ => .pure id
  refine .whether (.looksAtOneOf 0 _) hskip ?_
  refine .looking (.nextIs "const") fun _ _ => .looking (.looksAtOneOf 1 _) fun _ _ => ?_
  refine .ite (fun _ => hskip) fun _ => .whether (.nextIs "extern") ?_ (.pure nofun)
  refine .looking (.looksAt 1 "fn") fun _ _ => .looking (.looksAtKind 1 .string) fun _ _ => ?_
  refine .looking (.looksAt 2 "fn") fun _ _ => .ite (fun _ => ?_) fun _ => .pure nofun
  exact .taken .skip_one fun _ => .bind (.acceptKind .string) fun _ => .pure id

theorem qualifiers_halts : Halts n (fun _ => False) qualifiers qualifiers := by
  refine .bind (.accept "pub") fun _ => ?_
  extract_lets rest
  have hrest : Halts n (fun _ => False) (rest ()) (rest ()) := by
    refine .iterate _ (fun _ => ?_) ()
    cases n with
    | zero => exact .zero
    | succ n => exact .branchIf qualifier_halts (.pure id) (.pure (by simp))
  refine .ite (fun _ => .whether (.nextIs "(") ?_ hrest) fun _ => hrest
  exact .bind .skipGroup fun _ => hrest

theorem HaltsBelow.itemOf (hg : g.HaltsBelow n g') :
    Halts (n + 2) (fun _ => True) g.itemOf g'.itemOf := by
  refine .bind .skipAttributes fun _ => .looking (.look 0) fun _ _ => .bind qualifiers_halts fun _ => ?_
  refine .lookNext (.rejectEnd _) fun t _ => .ite (fun _ => hg.fnItem) fun _ => ?_
  refine .ite (fun _ => hg.useItem) fun _ => ?_
  cases container? t with
  | some kind => exact hg.container kind
  | none =>
    refine .ite (fun _ => .reject _ _) fun _ => .whether (.looksAt 1 "!") macroItem_halts ?_
    refine .ite (fun _ => .bind (.skipTo _) fun _ => ?_) fun _ => ?_
    · exact .taken (.expect ";") fun _ => .looking (.spanFrom _) fun _ _ => .pure id
    · exact .taken .skipItemRest fun _ => .looking (.spanFrom _) fun _ _ => .pure id

end BuilderMigration.Grammar

/-! ### The whole grammar -/

namespace BuilderMigration

open Parse

namespace Grammar

variable {n : Nat} {g g' : Grammar}

/-- One more round of productions reads one more token. -/
theorem HaltsBelow.above (hg : g.HaltsBelow n g') : g.above.HaltsBelow (n + 1) g'.above where
  ty := hg.typeOf
  useTree := hg.useTreeOf
  expr := hg.exprOf
  operand := hg.operandOf
  unary := hg.unaryOf
  primary := hg.primaryOf
  statementExpr := hg.statementExprOf
  conditional := hg.conditionalOf
  blockHere _ := hg.blockOf
  itemHere _ := hg.itemOf

/-- A grammar halts where it is deeper than there are tokens, and every deeper one halts alike. -/
theorem haltsBelow_ofDepth (n more : Nat) : (ofDepth n).HaltsBelow n (ofDepth (n + more)) := by
  induction n with
  | zero =>
    exact {
      ty := .zero
      useTree := fun _ => .zero
      expr := fun _ => .zero
      operand := fun _ _ => .zero
      unary := fun _ => .zero
      primary := fun _ => .zero
      statementExpr := .zero
      conditional := .zero
      blockHere := fun hn => absurd hn (Nat.lt_irrefl 0)
      itemHere := fun hn => absurd hn (Nat.lt_irrefl 0) }
  | succ n ih =>
    rw [Nat.succ_add]
    exact ih.above

theorem HaltsBelow.soleExpr (hg : g.HaltsBelow n g') :
    Halts n (fun _ => True) g.soleExpr g'.soleExpr :=
  .taken (hg.expr false) fun _ => .lookNext (.pure id) fun _ _ => .reject _ _

end Grammar

/-! ### Marks astray -/

instance : DecidablePred StrayMark
  | [] => isFalse id
  | t :: ts => inferInstanceAs (Decidable (t.isPunct "#" ∧
      ¬ (ts[0]?.any (·.is "[") ∨ (ts[0]?.any (·.is "!") ∧ ts[1]?.any (·.is "[")))))

theorem not_hasStrayMark_nil : ¬ HasStrayMark [] := by
  rintro ⟨us, hs, hm⟩
  obtain rfl := List.suffix_nil.1 hs
  exact hm

theorem hasStrayMark_cons {t : Token} {ts : List Token} :
    HasStrayMark (t :: ts) ↔ StrayMark (t :: ts) ∨ HasStrayMark ts := by
  constructor
  · rintro ⟨us, hs, hm⟩
    rcases List.suffix_cons_iff.1 hs with rfl | hs
    · exact .inl hm
    · exact .inr ⟨us, hs, hm⟩
  · rintro (hm | h)
    · exact ⟨t :: ts, List.suffix_refl _, hm⟩
    · exact h.of_suffix (List.suffix_cons t ts)

instance decidableHasStrayMark : DecidablePred HasStrayMark
  | [] => isFalse not_hasStrayMark_nil
  | _ :: ts =>
    have := decidableHasStrayMark ts
    decidable_of_iff' _ hasStrayMark_cons

/-! ### Whole texts -/

variable {α : Type} {ts : List Token}

/-- What is read from the start of a text, of which readers that halt leave no endless run. -/
theorem Parse.Halts.start {n : Nat} {r : α → Prop} {p p' : Parse α} (h : Halts n r p p')
    (hn : ts.length < n) (hm : ¬ HasStrayMark ts) :
    (·.1) <$> p ⟨ts, 0⟩ ≠ .error .endless ∧ (·.1) <$> p ⟨ts, 0⟩ = (·.1) <$> p' ⟨ts, 0⟩ := by
  obtain ⟨a, c, hp, hp', -, -⟩ | ⟨e, hp, hp', he⟩ := (h.run ⟨ts, 0⟩ hn hm).cases
  · rw [hp, hp']
    exact ⟨nofun, rfl⟩
  · rw [hp, hp']
    exact ⟨fun h => he (Except.error.inj h), rfl⟩

/-- Reading ends, as a file and as one expression: with a tree or a rejection and not because the
depth of the grammar ran out, for a grammar of any greater depth comes to the same end. -/
theorem reading_ends (ts : List Token) (hm : ¬ HasStrayMark ts) :
    (readItems ts ≠ .error .endless ∧ ∀ depth, ts.length < depth →
      readItems ts =
        (·.1) <$> Grammar.items (Grammar.ofDepth depth).item false ⟨ts, 0⟩) ∧
    (readExprTokens ts ≠ .error .endless ∧ ∀ depth, ts.length < depth →
      readExprTokens ts = (·.1) <$> (Grammar.ofDepth depth).soleExpr ⟨ts, 0⟩) := by
  have hg (more : Nat) := Grammar.haltsBelow_ofDepth (ts.length + 1) more
  have hitems (more : Nat) := ((hg more).items false).lower.start (Nat.lt_succ_self _) hm
  have hexpr (more : Nat) := (hg more).soleExpr.start (Nat.lt_succ_self _) hm
  refine ⟨⟨(hitems 0).1, fun depth hd => ?_⟩, (hexpr 0).1, fun depth hd => ?_⟩
  · obtain ⟨more, rfl⟩ := Nat.exists_eq_add_of_le hd
    exact (hitems more).2
  · obtain ⟨more, rfl⟩ := Nat.exists_eq_add_of_le hd
    exact (hexpr more).2

/-- Tokens that all stand at one place: a closure behind an attribute, with a macro call for its body
whose group is read twice. -/
theorem reading_ends_heaped :
    let ts : List Token := [(.punct, "#"), (.punct, "["), (.ident, "a"), (.punct, "]"), (.punct, "|"),
      (.ident, "x"), (.punct, "|"), (.ident, "m"), (.punct, "!"), (.punct, "\x7b"), (.ident, "x"),
      (.punct, "=>"), (.punct, "#"), (.punct, "!"), (.punct, "["), (.punct, "]"),
      (.punct, "\x7d")].map fun (kind, value) => ⟨kind, value, 0, 0, 1, 0⟩
    ¬ HasStrayMark ts ∧ (readExprTokens ts).toOption.map (·.tree.preorder.length) = some 2 ∧
      readExprTokens ts ≠ .error .endless ∧ readItems ts ≠ .error .endless := by
  intro ts
  have hm : ¬ HasStrayMark ts := by decide +kernel
  obtain ⟨⟨hitems, -⟩, hexpr, -⟩ := reading_ends ts hm
  exact ⟨hm, by decide +kernel, hexpr, hitems⟩

end BuilderMigration
