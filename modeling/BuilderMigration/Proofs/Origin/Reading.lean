import BuilderMigration.Proofs.Origin.Expressions
import BuilderMigration.Proofs.Typing.Resolve

/-! The productions of statements, blocks and items, and every reading of a file: each method call and each
block of its tree is read from its tokens, before its types are known and after. A block is read from its
opening to its closing brace, and what stands in front of a statement is read before the statement
begins. -/

namespace BuilderMigration

open Parse

variable {ts us vs : List Token} {c c₁ c' : Cursor} {t : Rose Node} {stmts : List Stmt}
  {tail : Option Expr} {st : Stmt}

/-! ### Statements in a text -/

theorem Stmt.tree_span (s : Stmt) : s.tree.span = s.span := by
  cases s <;> rfl

/-- The tokens of a statement that is read between two cursors, whatever stands in front of it. -/
theorem exists_piece (hc : c.On ts) (h : Traced ts c t c') (hclosed : c.Closed c')
    (hopen : ¬ OpensAttribute c.rest) (hs : st.span = t.span) : ∃ own trail, c.Reads (own ++ trail) c' ∧
      ∀ leads : List Lead, (∀ l ∈ leads, l.WellFormed) → Piece.Of ⟨leads, own, trail⟩ st.span := by
  obtain ⟨mid, trail, hmid, hlast, htrail, hread⟩ := h.exists_end
  have hlo : t.span.lo = c.ahead := h.begins.resolve_left hopen
  have hlt := h.grown.proper.lt
  have hahead := hc.last_le_ahead
  have hpasses : c.Passes ts mid := by
    refine .of hc hmid (Nat.lt_of_not_le fun hle => ?_)
    have := hmid.last_le hc hle
    omega
  obtain ⟨u, us, hown⟩ := hpasses.exists_reads hc
  have hall := hown.trans hread
  refine ⟨u :: us, trail, hall, fun leads hleads =>
    ⟨hleads, ?_, ?_, htrail, hclosed.getLast? hall.rest⟩⟩
  · rw [hs, hlo, Cursor.ahead_of_rest hown.rest]
    rfl
  · rw [hs, ← hlast, hown.last]
    exact getLast?_hi _ u us

/-- What the turns of a block read: whatever may stand in front of the first of them, statements one
behind the other, and the rest up to the closing brace. -/
structure BlockTraced (ts : List Token) (c : Cursor) (stmts : List Stmt) (tail : Option Expr)
    (c' : Cursor) : Prop where
  moves : c.Moves ts c'
  pieces : ∃ us, c.Reads us c' ∧ ∀ leads : List Lead, (∀ l ∈ leads, l.WellFormed) →
    ∃ pieces rest, Lead.allTokens leads ++ us = pieces.flatMap Piece.tokens ++ rest ∧
      List.Forall₂ Piece.Of pieces (stmts.map Stmt.span)
  sourced : AllSourced ts (stmtTrees stmts ++ exprTrees tail.toList)

namespace BlockTraced

theorem stop (h : c.Moves ts c') (hread : c.Reads us c') (ht : ∀ e ∈ tail, e.tree.Sourced ts) :
    BlockTraced ts c [] tail c' := by
  refine ⟨h, ⟨us, hread, fun leads _ => ⟨[], _, rfl, .nil⟩⟩, ?_⟩
  exact allSourced_exprTrees fun e he => ht e (Option.mem_toList.1 he)

/-- Empty statements and attributes in front. -/
theorem lead (h : c.Moves ts c₁) (hread : c.Reads us c₁) (hus : Leading us)
    (hq : BlockTraced ts c₁ stmts tail c') : BlockTraced ts c stmts tail c' := by
  obtain ⟨more, hmore, rfl⟩ := hus
  obtain ⟨vs, hvs, hpieces⟩ := hq.pieces
  refine ⟨h.trans hq.moves, ⟨_, hread.trans hvs, fun leads hleads => ?_⟩, hq.sourced⟩
  obtain ⟨pieces, rest, heq, hall⟩ :=
    hpieces (leads ++ more) (List.forall_mem_append.2 ⟨hleads, hmore⟩)
  refine ⟨pieces, rest, ?_, hall⟩
  rw [← heq, ← List.append_assoc, Lead.allTokens, Lead.allTokens, ← List.flatMap_append]
  rfl

/-- One more statement in front. -/
theorem cons (hc : c.On ts) (hopen : ¬ OpensAttribute c.rest) (h : Traced ts c st.tree c₁)
    (hclosed : c.Closed c₁) (hq : BlockTraced ts c₁ stmts tail c') :
    BlockTraced ts c (st :: stmts) tail c' := by
  obtain ⟨vs, hvs, hpieces⟩ := hq.pieces
  obtain ⟨pieces, rest, heq, hall⟩ := hpieces [] nofun
  obtain ⟨own, trail, hown, hpiece⟩ := exists_piece hc h hclosed hopen st.tree_span.symm
  refine ⟨h.passes.moves.trans hq.moves, ⟨_, hown.trans hvs, fun leads hleads => ?_⟩, ?_⟩
  · refine ⟨⟨leads, own, trail⟩ :: pieces, rest, ?_, .cons (hpiece leads hleads) hall⟩
    simp only [List.flatMap_cons, Piece.tokens, List.append_assoc, ← heq]
    rfl
  · exact List.forall_mem_cons.2 ⟨h.sourced, hq.sourced⟩

/-- What a turn leaves is left from any place before that only empty statements and attributes stand
behind. -/
theorem before {r : Turn Stmt (Option Expr)} (h : c.Moves ts c₁) (hread : c.Reads us c₁)
    (hus : Leading us) (hr : Turn.Leads ts (BlockTraced ts) c₁ r c') :
    Turn.Leads ts (BlockTraced ts) c r c' := by
  cases r with
  | skip => exact ⟨h.trans_passes hr.1, fun as b c'' hq => lead h hread hus (hr.2 as b c'' hq)⟩
  | one a => exact ⟨h.trans_passes hr.1, fun as b c'' hq => lead h hread hus (hr.2 as b c'' hq)⟩
  | last a b => exact lead h hread hus hr
  | stop b => exact lead h hread hus hr

end BlockTraced

namespace Grammar

variable {m : Nat} {g : Grammar} {s : Cursor}

theorem Traces.statementExprOf (hg : g.Traces ts m) (hc : c.On ts) (hl : c.rest.length ≤ m) :
    Makes g.statementExprOf c fun e c' => Traced ts c e.tree c' := by
  refine .looking startsBlockLike_looks fun _ _ => .ite (fun _ => ?_) fun _ => hg.exprOf hc hl false
  refine .bind (hg.primaryOf hc hl false) fun e c₁ he => .looksAtOneOf 0 _ (.ite (fun _ => ?_) ?_)
  · exact .bind (hg.suffixes hc hl he) fun _ _ he => hg.exprFrom hc hl he
  · exact fun _ => .pure he

theorem Traces.letStmt (hg : g.Traces ts m) (hc : c.On ts) (hl : c.rest.length ≤ m) :
    Makes g.letStmt c fun st c' => Traced ts c st.tree c' := by
  refine .traced (hg.reads.letStmt hc hl) (.bind (.expect hc "let") fun start c₁ ⟨h₁, _⟩ => ?_)
  rw [← Cursor.ahead_of_rest h₁.rest]
  refine .bind (pattern_yields h₁.passes.on _).makes fun p c₂ h₂ => ?_
  have h₂' := h₁.passes.trans h₂.moves
  refine .bind (hg.reads.declaredType h₂.on (h₂'.moves.le hl)).makes fun ty c₃ h₃ => ?_
  refine .bind (Yields.accept h₃.on "=").makes fun _ c₄ h₄ => ?_
  have h₄' := h₂'.trans (h₃.trans h₄.moves)
  extract_lets rest
  have hrest (c₅) (init : Option Expr) (otherwise : Option Block)
      (hk : AllSourced ts (exprTrees init.toList ++ otherwise.toList.map Block.tree)) :
      Makes (rest (init, otherwise)) c₅ fun st c' => Placed ts c st.tree c' := by
    refine .bind .any fun _ c₆ _ => .spanFrom _ (.pure ?_)
    rw [Stmt.tree_letStmt]
    exact .whole rfl trivial hk
  refine .ite (fun _ => ?_) fun _ => hrest c₄ none none nofun
  refine .bind (hg.expr h₄'.on (h₄'.lt hl) false) fun e c₅ h₅ => ?_
  refine .bind (Yields.accept h₅.passes.on "else").makes fun _ c₆ h₆ => .ite (fun _ => ?_) fun _ => ?_
  · have h₆' := h₄'.trans (h₅.passes.moves.trans h₆.moves)
    refine .bind (hg.block h₆'.on (h₆'.lt hl) .plain) fun b c₇ h₇ => hrest c₇ (some e) (some b) ?_
    exact List.forall_mem_cons.2 ⟨h₅.sourced, List.forall_mem_singleton.2 h₇.sourced⟩
  · exact hrest c₆ (some e) none (List.forall_mem_singleton.2 h₅.sourced)

theorem Traces.exprStmt (hg : g.Traces ts m) (hc : c.On ts) (hl : c.rest.length ≤ m)
    (hopen : ¬ OpensAttribute c.rest) :
    Makes g.exprStmt c (Turn.Leads ts (BlockTraced ts) c) := by
  refine .lookAhead 0 (.bind ((hg.statementExprOf hc hl).and (hg.closing.statementExprOf c))
    fun e c₁ ⟨he, hclosed⟩ => ?_)
  rw [he.passes.begin]
  refine .bind ((Yields.accept he.passes.on ";").makes.and (Tidy.accept (by decide) c₁))
    fun found c₂ ⟨h₂, hsemi⟩ => .ite (fun _ => ?_) fun hf => ?_
  · have hst : Traced ts c (Stmt.semi ⟨c.ahead, c₂.last, 0⟩ e).tree c₂ :=
      ⟨.whole rfl trivial (List.forall_mem_singleton.2 he.sourced), .whole hc he.grown h₂.moves rfl⟩
    exact .spanFrom _ (.pure ⟨hst.passes, fun _ _ _ hq => .cons hc hopen hst (hclosed.keep hsemi) hq⟩)
  obtain rfl := h₂.stays (by simpa using hf)
  refine .looksAt 0 "\x7d" (.ite (fun _ => .pure ?_) fun _ => .ite (fun _ => .pure ?_) fun _ => ?_)
  · obtain ⟨us, hus⟩ := he.passes.moves.exists_reads hc
    refine .stop he.passes.moves hus fun e' he' => ?_
    obtain rfl := Option.some.inj he'
    exact he.sourced
  · have hst : Traced ts c (Stmt.expr e.span e).tree c₂ :=
      ⟨he.toPlaced.wrap (by rw [Expr.tree_span]; rfl) trivial,
        .wrap he.grown (by rw [Expr.tree_span]; rfl)⟩
    exact ⟨hst.passes, fun _ _ _ hq => .cons hc hopen hst hclosed hq⟩
  · exact .lookNext (fun _ => .throw _) fun _ _ _ => .rejectAt _ _

theorem Traces.blockTurn (hg : g.Traces ts m) (hc : c.On ts) (hl : c.rest.length ≤ m) :
    Makes g.blockTurn c (Turn.Leads ts (BlockTraced ts) c) := by
  have hstop {c} (hc : c.On ts) : Makes (pure (.stop none) : Parse (Turn Stmt (Option Expr))) c
      (Turn.Leads ts (BlockTraced ts) c) := .pure (.stop hc.stays (.nil c) nofun)
  refine .looksAt 0 "\x7d" (.ite (fun _ => hstop hc) fun _ => ?_)
  refine .lookNext (fun _ => .rejectEnd _) fun t us hr => ?_
  have hn : 0 < m := Nat.lt_of_lt_of_le (by simp [hr]) hl
  refine .bind (.accept hc ";") fun found c₁ ⟨h₁, hsemi⟩ => .ite (fun hf => .pure ?_) fun hf => ?_
  · obtain ⟨semi, hmark, hread⟩ := hsemi hf
    exact ⟨h₁.passes hf, fun _ _ _ hq => .lead h₁.moves hread (.single (.empty hmark)) hq⟩
  obtain rfl := h₁.stays (by simpa using hf)
  refine .bind (.skipAttributes hc) fun _ c₂ ⟨h₂, hopen, us, hus, hread⟩ => ?_
  refine Makes.imp ?_ fun _ _ hr => BlockTraced.before h₂ hread hus hr
  refine .looksAt 0 "\x7d" (.ite (fun _ => hstop h₂.on) fun _ => ?_)
  refine .looksAt 0 "let" (.ite (fun _ => ?_) fun _ => ?_)
  · refine .bind ((hg.letStmt h₂.on (h₂.le hl)).and (hg.closing.letStmt c₂))
      fun st c₃ ⟨h₃, hclosed⟩ => .pure ⟨h₃.passes, fun _ _ _ hq => ?_⟩
    exact .cons h₂.on hopen h₃ hclosed hq
  refine .looking startsItem_looks fun _ _ => .ite (fun _ => ?_) fun _ => hg.exprStmt h₂.on (h₂.le hl) hopen
  refine .bind ((hg.itemHere h₂.on hn (h₂.le hl)).and (hg.closing.item c₂))
    fun i c₃ ⟨h₃, hclosed⟩ => .pure ?_
  have hst : Traced ts c₂ (Stmt.item i.span i).tree c₃ :=
    ⟨h₃.toPlaced.wrap (by rw [Item.tree_span]; rfl) trivial,
      .wrap h₃.grown (by rw [Item.tree_span]; rfl)⟩
  exact ⟨hst.passes, fun _ _ _ hq => .cons h₂.on hopen hst hclosed hq⟩

/-- A block behind keywords that begin at `s`, if any are given. -/
theorem Traces.blockOf (hg : g.Traces ts m) (hs : s.On ts) (h : s.Moves ts c)
    (hl : c.rest.length ≤ m + 1) (kind : BlockKind) {lo : Option Int}
    (hlo : lo = none ∧ s = c ∨ lo = some s.ahead) :
    Makes (g.blockOf kind lo) c fun b c' => Traced ts s b.tree c' := by
  refine .traced (hg.reads.blockOf hs h hl kind hlo) ?_
  refine .bind (.expect h.on "\x7b") fun brace c₁ ⟨h₁, hopen⟩ => ?_
  have hat : lo.getD brace.lo = s.ahead := by
    obtain ⟨rfl, rfl⟩ | rfl := hlo
    · exact (Cursor.ahead_of_rest h₁.rest).symm
    · rfl
  have hl₁ : c₁.rest.length ≤ m := Nat.le_of_lt_succ (h₁.passes.lt hl)
  refine .bind (.skipAttributes h₁.passes.on) fun _ c₂ ⟨h₂, _, us, hus, hread⟩ => ?_
  refine .bind (Makes.collect (Q := BlockTraced ts) h₂.on fun c₃ h₃ =>
    hg.blockTurn h₃.on ((h₂.trans h₃).le hl₁)) fun r c₃ h₃ => ?_
  obtain ⟨stmts, tail⟩ := r
  refine .bind (.expect h₃.moves.on "\x7d") fun close c₄ ⟨h₄, hclose⟩ => .spanFrom _ (.pure ?_)
  rw [Block.tree_mk, hat]
  refine .whole rfl ?_ h₃.sourced
  obtain ⟨us, hread, hpieces⟩ := (h₃.lead h₂ hread hus).pieces
  obtain ⟨pieces, rest, heq, hall⟩ := hpieces [] nofun
  obtain ⟨before, hbefore, -⟩ := h.on.reached
  refine ⟨pieces, before, brace, rest, close, c₄.rest, ?_, hopen, hclose, h₄.last.symm, hall⟩
  rw [hbefore, h₁.rest, hread.rest, h₄.rest, ← List.append_assoc (pieces.flatMap _), ← heq]
  rfl

/-! ### Items -/

theorem Traces.fnItem (hg : g.Traces ts m) (hs : s.On ts) (h : s.Moves ts c)
    (hl : c.rest.length ≤ m + 1) :
    Makes (g.fnItem s.ahead) c fun i c' => Traced ts s i.tree c' := by
  refine .traced (hg.reads.fnItem hs h hl) (.bind (Yields.expect h.on "fn").makes fun _ c₁ h₁ => ?_)
  have hl₁ : c₁.rest.length ≤ m := Nat.le_of_lt_succ (h₁.passes.lt hl)
  refine .bind (.expectName h₁.passes.on) fun name c₂ ⟨_, h₂, _⟩ => .looksAt 0 "<" ?_
  extract_lets rest
  have hrest (c₃) (h₃ : c₁.Passes ts c₃) : Makes (rest ()) c₃ fun i c' => Placed ts s i.tree c' := by
    refine .bind (Yields.expect h₃.on "(").makes fun _ c₄ h₄ => ?_
    have h₄' := h₃.trans h₄.passes.moves
    refine .bind (Yields.commaList_moves h₄'.on ")" fun c₅ h₅ =>
      hg.reads.fnParam h₅.on ((h₄'.trans h₅).moves.le hl₁)).makes fun r c₅ h₅ => ?_
    obtain ⟨params, trailing⟩ := r
    refine .bind (Yields.expect h₅.on ")").makes fun _ c₆ h₆ => ?_
    refine .bind (Yields.skipTo h₆.passes.on _).makes fun _ c₇ h₇ => .looksAt 0 "\x7b" ?_
    have h₇' := h₄'.trans (h₅.trans (h₆.passes.moves.trans h₇))
    extract_lets node
    have hnode (c₈) (body : Option Block) (hbody : AllSourced ts (body.toList.map Block.tree)) :
        Makes (node body) c₈ fun i c' => Placed ts s i.tree c' := by
      refine .spanFrom _ (.pure ?_)
      rw [Item.tree_fn]
      exact .whole rfl trivial hbody
    refine .ite (fun _ => ?_) fun _ => .bind .any fun _ c₈ _ => hnode c₈ none nofun
    refine .bind (hg.block h₇.on (h₇'.lt hl₁) .plain) fun b c₈ h₈ => ?_
    exact hnode c₈ (some b) (List.forall_mem_singleton.2 h₈.sourced)
  refine .ite (fun _ => ?_) fun _ => hrest c₂ h₂.passes
  exact .bind (Yields.skipGenerics h₂.passes.on).makes fun _ c₃ h₃ => hrest c₃ (h₂.passes.trans h₃.moves)

theorem Traces.useItem (hg : g.Traces ts m) (hs : s.On ts) (h : s.Moves ts c)
    (hl : c.rest.length ≤ m + 1) :
    Makes (g.useItem s.ahead) c fun i c' => Traced ts s i.tree c' := by
  refine .traced (hg.reads.useItem hs h hl) ?_
  refine .bind .any fun _ _ _ => .bind .any fun leaves _ _ => .bind .any fun _ _ _ => ?_
  exact .spanFrom _ (.pure (.whole rfl trivial nofun))

/-- Items up to where they end. -/
theorem Traces.items (hg : g.Traces ts m) (hc : c.On ts) (hl : c.rest.length ≤ m) (braced : Bool) :
    Makes (items g.item braced) c fun is _ => ∀ i ∈ is, i.tree.Sourced ts := by
  refine .bind (Makes.collect (Q := fun _ is _ _ => ∀ i ∈ is, i.tree.Sourced ts) hc
    fun c₁ h₁ => ?_) fun r c₁ h₁ => .pure h₁
  refine .bind (Yields.skipAttributes h₁.on).makes fun _ c₂ h₂ => .lookNext (fun _ => ?_) fun t us hr => ?_
  · refine .ite (fun _ => ?_) fun h => absurd rfl h
    exact .ite (fun _ => .rejectEnd _) fun _ => .pure nofun
  have hn : 0 < m := Nat.lt_of_lt_of_le (by simp [hr]) (h₂.le (h₁.le hl))
  refine .looksAt 0 "\x7d" (.ite (fun _ => .pure nofun) fun _ => ?_)
  refine .bind (Yields.accept h₂.on ";").makes fun _ c₃ h₃ => .ite (fun hf => .pure ?_) fun _ => ?_
  · exact ⟨h₂.trans_passes (h₃.passes hf), fun _ _ _ hq => hq⟩
  · have h := h₂.trans h₃.moves
    refine .bind (hg.itemHere h.on hn (h.le (h₁.le hl))) fun i c₄ h₄ => .pure ?_
    exact ⟨h.trans_passes h₄.passes, fun _ _ _ hq => List.forall_mem_cons.2 ⟨h₄.sourced, hq⟩⟩

theorem itemTrees_eq_map (is : List Item) : itemTrees is = is.map Item.tree := by
  induction is with
  | nil => rfl
  | cons i is ih => rw [itemTrees, ih, List.map_cons]

theorem Traces.container (hg : g.Traces ts m) (hs : s.On ts) (h : s.Moves ts c)
    (hl : c.rest.length ≤ m + 1) (kind : ContainerKind) :
    Makes (g.container s.ahead kind) c fun i c' => Traced ts s i.tree c' := by
  refine .traced (hg.reads.container hs h hl kind) (.bind (Yields.skip_one h.on).makes fun _ c₁ h₁ => ?_)
  have hl₁ : c₁.rest.length ≤ m := Nat.le_of_lt_succ (h₁.lt hl)
  refine .bind (Yields.skipTo h₁.on _).makes fun _ c₂ h₂ => ?_
  refine .bind (Yields.accept h₂.on ";").makes fun _ c₃ h₃ => .ite (fun _ => ?_) fun _ => ?_
  · exact .spanFrom _ (.pure (.whole rfl trivial nofun))
  refine .bind (Yields.expect h₃.moves.on "\x7b").makes fun _ c₄ h₄ => ?_
  have h₄' := h₂.trans (h₃.moves.trans h₄.passes.moves)
  refine .bind (hg.items h₄'.on (h₄'.le hl₁) true) fun inner c₅ h₅ => .bind .any fun _ c₆ _ => ?_
  refine .spanFrom _ (.pure (.whole rfl trivial ?_))
  rw [itemTrees_eq_map]
  exact List.forall_mem_map.2 h₅

theorem macroItem_traced (hs : s.On ts) (h : s.Moves ts c) :
    Makes (macroItem s.ahead) c fun i c' => Traced ts s i.tree c' := by
  refine .traced (macroItem_yields hs h) ?_
  refine .bind .any fun _ _ _ => .bind .any fun _ _ _ => .bind .any fun _ _ _ => .bind .any fun _ _ _ => ?_
  exact .spanFrom _ (.pure (.whole rfl trivial nofun))

theorem Traces.itemOf (hg : g.Traces ts m) (hc : c.On ts) (hl : c.rest.length ≤ m + 1) :
    Makes g.itemOf c fun i c' => Traced ts c i.tree c' := by
  have hattributes : Makes skipAttributes c fun _ c₁ =>
      c.Moves ts c₁ ∧ (OpensAttribute c.rest ∨ c₁ = c) := by
    by_cases hopen : OpensAttribute c.rest
    · exact (Yields.skipAttributes hc).makes.imp fun _ _ h => ⟨h, .inl hopen⟩
    · intro _ _ h
      obtain ⟨-, rfl⟩ := Prod.mk.inj (Except.ok.inj ((Parse.skipAttributes_of_not_opens hopen).symm.trans h))
      exact ⟨hc.stays, .inr rfl⟩
  refine .bind hattributes fun _ c₁ ⟨h₁, hopen⟩ => ?_
  refine Makes.imp (Q := fun i c' => Traced ts c₁ i.tree c') ?_ fun _ _ h => hopen.elim
    (fun hopen => ⟨h.toPlaced.before hopen, h.grown.before hc h₁⟩) fun he => he ▸ h
  refine .lookAhead 0 (.bind (qualifiers_yields h₁.on).makes fun _ c₂ h₂ => ?_)
  refine .lookNext (fun _ => .rejectEnd _) fun t us hr => ?_
  rw [(h₂.trans_passes (h₂.on.passes hr)).begin]
  have hl₂ := h₂.le (h₁.le hl)
  refine .ite (fun _ => hg.fnItem h₁.on h₂ hl₂) fun _ => ?_
  refine .ite (fun _ => hg.useItem h₁.on h₂ hl₂) fun _ => ?_
  cases container? t with
  | some kind => exact hg.container h₁.on h₂ hl₂ kind
  | none =>
    refine .ite (fun _ => .rejectAt _ _) fun _ => .looksAt 1 _ (.ite (fun _ => ?_) fun _ => ?_)
    · exact macroItem_traced h₁.on h₂
    have hother (c₃) (h₃ : c₂.Passes ts c₃) :
        Traced ts c₁ (Item.other ⟨c₁.ahead, c₃.last, 0⟩).tree c₃ :=
      ⟨.whole rfl trivial nofun, .node h₁.on (h₂.trans_passes h₃) (.nil h₃.on.stays) rfl⟩
    refine .ite (fun _ => ?_) fun _ => ?_
    · refine .bind (Yields.skipTo h₂.on _).makes fun _ c₃ h₃ => ?_
      refine .bind (Yields.expect h₃.on ";").makes fun _ c₄ h₄ => .spanFrom _ (.pure ?_)
      exact hother c₄ (h₃.trans_passes h₄.passes)
    · refine .bind (Yields.skipItemRest h₂.on).makes fun _ c₃ h₃ => .spanFrom _ (.pure ?_)
      exact hother c₃ h₃

/-! ### All productions -/

/-- One more round of productions reads one more token. -/
theorem Traces.above (hg : g.Traces ts m) : g.above.Traces ts (m + 1) where
  reads := hg.reads.above
  closing := hg.closing.above
  expr hc hl bare := hg.exprOf hc (Nat.le_of_lt_succ hl) bare
  operand hc hl strength bare := hg.operandOf hc (Nat.le_of_lt_succ hl) strength bare
  unary hc hl bare := hg.unaryOf hc (Nat.le_of_lt_succ hl) bare
  primary hc hl bare := hg.primaryOf hc (Nat.le_of_lt_succ hl) bare
  statementExpr hc hl := hg.statementExprOf hc (Nat.le_of_lt_succ hl)
  conditional hc hl := hg.conditionalOf hc (Nat.le_of_lt_succ hl)
  blockHere hc _ hl kind := hg.blockOf hc hc.stays hl kind (.inl ⟨rfl, rfl⟩)
  blockFrom hs h hl kind := hg.blockOf hs h (Nat.le_of_lt hl) kind (.inr rfl)
  itemHere hc _ hl := hg.itemOf hc hl

theorem traces_ofDepth (ts : List Token) (depth : Nat) : (ofDepth depth).Traces ts depth := by
  induction depth with
  | zero =>
    exact {
      reads := reads_ofDepth ts 0 0
      closing := closing_ofDepth 0
      expr := fun _ hl => absurd hl (Nat.not_lt_zero _)
      operand := fun _ hl => absurd hl (Nat.not_lt_zero _)
      unary := fun _ hl => absurd hl (Nat.not_lt_zero _)
      primary := fun _ hl => absurd hl (Nat.not_lt_zero _)
      statementExpr := fun _ hl => absurd hl (Nat.not_lt_zero _)
      conditional := fun _ hl => absurd hl (Nat.not_lt_zero _)
      blockHere := fun _ hn => absurd hn (Nat.not_lt_zero _)
      blockFrom := fun _ _ hl => absurd hl (Nat.not_lt_zero _)
      itemHere := fun _ hn => absurd hn (Nat.not_lt_zero _) }
  | succ depth ih => exact ih.above

end Grammar

/-! ### Files -/

/-- Every method call and every block of a file is read from its tokens. -/
theorem readModule_sourced {code file : String} {start : Int} {m : Module}
    (h : readModule code start file = .ok m) (hs : 0 ≤ start) :
    ∃ ts, tokensOf code start = .ok ts ∧ m.tree.Sourced ts := by
  rw [readModule] at h
  cases ht : tokensOf code start with
  | error f => simp [ht, bind, Except.bind] at h
  | ok ts =>
    have hord : Ordered 0 ts := (tokensOf_eq_ok ht ▸ tokenize_ordered code start).mono hs
    rw [ht] at h
    change (readItems ts >>= _) = _ at h
    unfold readItems at h
    cases hi : Grammar.items (Grammar.forTokens ts).item false ⟨ts, 0⟩ with
    | error f => simp [hi, bind, Except.bind, Functor.map, Except.map] at h
    | ok r =>
      obtain rfl : m = ⟨⟨start, start + code.length, 0⟩, r.1, file⟩ := by
        simpa [hi, bind, Except.bind, pure, Except.pure, Functor.map, Except.map] using h.symm
      have hitems := (Grammar.traces_ofDepth ts (ts.length + 1)).items (.start hord) (Nat.le_succ _) false
        r.1 r.2 hi
      refine ⟨ts, rfl, Rose.sourced_node.2 ⟨trivial, ?_⟩⟩
      rw [Grammar.itemTrees_eq_map]
      exact List.forall_mem_map.2 hitems

end BuilderMigration
