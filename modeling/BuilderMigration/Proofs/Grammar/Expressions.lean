import BuilderMigration.Proofs.Grammar.Primary
import BuilderMigration.Grammar.Statements

/-! The productions from primary to full expressions, and those of statements and blocks. What the former
carry on from one step to the next is an expression that lies between the cursor where it began and the
one behind it. Among the latter is the one place where reading breaks off: an expression that is not like a
block, with the text at its end behind it. -/

namespace BuilderMigration.Grammar

open Parse

variable {ts us : List Token} {n : Nat} {g g' : Grammar} {s c c' : Cursor} {t : Token} {e : Expr}

/-! ### Suffixes -/

theorem Reads.member (hg : g.Reads ts n g') (hs : s.On ts) (hl : s.rest.length ≤ n)
    (he : Grown ts s e.tree c) :
    Yields ts (g.member e) (g'.member e) c
      (fun e' c' => c.Passes ts c' ∧ Grown ts s e'.tree c') := by
  apply Yields.bind (.skip_one he.passes.on)
  intro _ c₁ h₁
  refine .lookNext (fun _ => .rejectEnd _) fun t us hr => ?_
  have hupTo (kind : CompoundKind) (c₂) (h₂ : c₁.Passes ts c₂) : Grown ts s
      (Expr.compound ⟨e.span.lo, t.hi, 0⟩ none kind [e]).tree c₂ :=
    .extendToken hs he h₁.moves hr h₂ (by rw [Expr.tree_span]; rfl)
  refine .ite (fun _ => ?_) fun _ => ?_
  · exact .bind (.skip_one h₁.on) fun _ c₂ h₂ => .pure ⟨h₁.trans h₂.moves, hupTo _ c₂ h₂⟩
  apply Yields.bind (.expectName h₁.on)
  intro name c₂ h₂
  have h₂' := h₁.trans h₂.moves
  refine .ite (fun _ => .pure ⟨h₂', hupTo _ c₂ h₂⟩) fun _ => ?_
  refine .looksAt 0 "::" ?_
  extract_lets rest rest'
  have hrest (c₃) (h₃ : c₂.Moves ts c₃) : Yields ts (rest ()) (rest' ()) c₃
      (fun e' c' => c.Passes ts c' ∧ Grown ts s e'.tree c') := by
    have h := h₂'.trans h₃
    refine .looksAt 0 "(" (.ite (fun _ => ?_) fun _ => .pure ⟨h, hupTo _ c₃ (h₂.trans h₃)⟩)
    apply Yields.bind (hg.callArgs h₃.on ((he.passes.trans h.moves).moves.le hl))
    intro call c₄ hcall
    obtain ⟨hhi, -, h₄⟩ := hcall
    refine .pure ⟨h.trans h₄.moves, ?_⟩
    exact .extend hs he (h₄.before h.moves) (by rw [Expr.tree_span, ← hhi]; rfl)
  refine .looksAt 1 "<" (.ite (fun _ => ?_) fun _ => hrest c₂ h₂.on.stays)
  apply Yields.bind (.skip_one h₂.on)
  intro _ c₃ h₃
  exact .bind (.skipGenerics h₃.on) fun _ c₄ h₄ => hrest c₄ (h₃.trans h₄.moves).moves

/-- One suffix reads a token and makes a greater expression. -/
theorem Reads.suffix (hg : g.Reads ts n g') (hs : s.On ts) (hl : s.rest.length ≤ n)
    (he : Grown ts s e.tree c) :
    Yields ts (g.suffix e) (g'.suffix e) c
      (StepLeads ts (fun e c => Grown ts s e.tree c) (fun e c => Grown ts s e.tree c) c) := by
  have hc := he.passes.on
  refine .looksAt 0 "?" (.ite (fun _ => ?_) fun _ => ?_)
  · refine .bind (.next hc) fun t c₁ h₁ => .pure ⟨h₁.passes, ?_⟩
    exact .extendToken hs he hc.stays h₁.rest h₁.passes (by rw [Expr.tree_span]; rfl)
  refine .looksAt 0 "." (.ite (fun _ => .bind (hg.member hs hl he) fun _ _ h => .pure h) fun _ => ?_)
  refine .looksAt 0 "(" (.ite (fun _ => ?_) fun _ => ?_)
  · refine .bind (hg.callArgs hc (he.passes.moves.le hl)) fun ⟨args, hi⟩ c₁ ⟨hhi, h₁, hargs⟩ => ?_
    exact .pure ⟨h₁, .extend hs he hargs (by rw [Expr.tree_span, ← hhi]; rfl)⟩
  refine .looksAt 0 "[" (.ite (fun _ => ?_) fun _ => .pure he)
  apply Yields.bind (.skip_one hc)
  intro _ c₁ h₁
  have h₁' := he.passes.trans h₁.moves
  apply Yields.bind (hg.expr h₁.on (h₁'.lt hl) false)
  intro index c₂ h₂
  refine .bind (.expect h₂.passes.on "]") fun close c₃ h₃ => .pure ?_
  have h := h₂.passes.trans h₃.passes.moves
  refine ⟨h₁.trans h.moves, .extend hs he (((h₂.behind h₃.passes.moves).all h₁.on).before h₁.moves) ?_⟩
  rw [Expr.tree_span, h₃.last]
  rfl

theorem Reads.suffixes (hg : g.Reads ts n g') (hs : s.On ts) (hl : s.rest.length ≤ n)
    (he : Grown ts s e.tree c) :
    Yields ts (g.suffixes e) (g'.suffixes e) c (fun e c' => Grown ts s e.tree c') :=
  .iterate (I := fun e c => Grown ts s e.tree c) he.passes.on he
    fun _ _ _ he => hg.suffix hs hl he

/-! ### Prefixes, casts and operators -/

theorem Reads.unaryOf (hg : g.Reads ts n g') (hc : c.On ts) (hl : c.rest.length ≤ n)
    (bare : Bool) :
    Yields ts (g.unaryOf bare) (g'.unaryOf bare) c (fun e c' => Grown ts c e.tree c') := by
  have hplain : Yields ts (do g.suffixes (← g.primaryOf bare)) (do g'.suffixes (← g'.primaryOf bare))
      c (fun e c' => Grown ts c e.tree c') :=
    .bind (hg.primaryOf hc hl bare) fun _ _ he => hg.suffixes hc hl he
  refine .lookNext (fun _ => hplain) fun t us hr => .ite (fun _ => ?_) fun _ => ?_
  · apply Yields.bind (.skip_one hc)
    intro _ c₁ h₁
    refine .bind (hg.unary h₁.on (h₁.lt hl) bare) fun operand c₂ h₂ => .pure ?_
    exact .prefixed hc h₁ h₂ (by rw [Expr.tree_span, Cursor.ahead_of_rest hr]; rfl)
  refine .ite (fun _ => ?_) fun _ => hplain
  apply Yields.bind (.skip_one hc)
  intro _ c₁ h₁
  apply Yields.bind (.accept h₁.on "mut")
  intro _ c₂ h₂
  have h := h₁.trans h₂.moves
  refine .bind (hg.unary h.on (h.lt hl) bare) fun operand c₃ h₃ => .pure ?_
  exact .prefixed hc h h₃ (by rw [Expr.tree_span, Cursor.ahead_of_rest hr]; rfl)

theorem Reads.casts (hg : g.Reads ts n g') (hc : c.On ts) (hl : c.rest.length ≤ n)
    (bare : Bool) :
    Yields ts (g.casts bare) (g'.casts bare) c (fun e c' => Grown ts c e.tree c') := by
  apply Yields.bind (hg.unaryOf hc hl bare)
  intro e c₁ he
  refine .iterate (I := fun e c₁ => Grown ts c e.tree c₁) he.passes.on he fun e c₁ _ he => ?_
  refine .bind (.accept he.passes.on "as") fun _ c₂ h₂ => .ite (fun hf => ?_) fun hf => ?_
  · have h₂' := h₂.passes hf
    apply Yields.bind (hg.ty h₂'.on ((he.passes.trans h₂'.moves).lt hl))
    intro _ c₃ h₃
    have h := h₂'.trans h₃.moves
    exact .spanFrom _ (.pure ⟨h, .extend hc he (.nil h.moves) (by rw [Expr.tree_span]; rfl)⟩)
  · exact .pure (he.behind h₂.moves)

theorem Reads.binaryFrom (hg : g.Reads ts n g') (hl : s.rest.length ≤ n)
    (strength : Nat) (bare : Bool) (he : Grown ts s e.tree c) :
    Yields ts (g.binaryFrom strength bare e) (g'.binaryFrom strength bare e) c
      (fun e c' => Grown ts s e.tree c') := by
  refine .iterate (I := fun e c => Grown ts s e.tree c) he.passes.on he fun left c₁ _ he => ?_
  apply Yields.looking pendingOperator_looks
  intro o hw
  match o, hw with
  | none, _ => exact .pure he
  | some (strength', width), hw =>
    refine .ite (fun _ => .pure he) fun _ => ?_
    apply Yields.bind (.skip_pos he.passes.on (hw _ _ rfl))
    intro _ c₂ h₂
    apply Yields.bind (hg.operand h₂.on ((he.passes.trans h₂.moves).lt hl) _ bare)
    intro right c₃ h₃
    exact .pure ⟨h₂.trans h₃.passes.moves, .join he h₂.moves h₃ (by simp only [Expr.tree_span]; rfl)⟩

theorem Reads.operandOf (hg : g.Reads ts n g') (hc : c.On ts) (hl : c.rest.length ≤ n)
    (strength : Nat) (bare : Bool) :
    Yields ts (g.operandOf strength bare) (g'.operandOf strength bare) c
      (fun e c' => Grown ts c e.tree c') :=
  .bind (hg.casts hc hl bare) fun _ _ he => hg.binaryFrom hl strength bare he

/-! ### Ranges and assignments -/

theorem Reads.rangeFrom (hg : g.Reads ts n g') (hs : s.On ts) (hl : s.rest.length ≤ n)
    (bare : Bool) (he : Grown ts s e.tree c) :
    Yields ts (g.rangeFrom bare e) (g'.rangeFrom bare e) c (fun e c' => Grown ts s e.tree c') := by
  have hc := he.passes.on
  refine .looksAtOneOf 0 _ (.ite (fun _ => ?_) fun _ => .pure he)
  refine .bind (.next hc) fun mark c₁ h₁ => .looking (canStart_looks bare) fun _ _ => ?_
  refine .ite (fun _ => ?_) fun _ => .pure ?_
  · have h := he.passes.trans h₁.passes.moves
    refine .bind (hg.operand h.on (h.lt hl) 0 bare) fun upper c₂ h₂ => .pure ?_
    exact .join he h₁.passes.moves h₂ (by simp only [Expr.tree_span]; rfl)
  · exact .extendToken hs he hc.stays h₁.rest h₁.passes (by rw [Expr.tree_span]; rfl)

theorem Reads.rangeOf (hg : g.Reads ts n g') (hc : c.On ts) (hl : c.rest.length ≤ n)
    (bare : Bool) :
    Yields ts (g.rangeOf bare) (g'.rangeOf bare) c (fun e c' => Grown ts c e.tree c') := by
  refine .looksAtOneOf 0 _ (.ite (fun _ => ?_) fun _ => ?_)
  · refine .bind (.next hc) fun mark c₁ h₁ => .looking (canStart_looks bare) fun _ _ => ?_
    refine .ite (fun _ => ?_) fun _ => .pure (.token hc h₁.rest h₁.passes rfl)
    refine .bind (hg.operand h₁.passes.on (h₁.passes.lt hl) 0 bare) fun upper c₂ h₂ => .pure ?_
    exact .prefixed hc h₁.passes h₂ (by rw [Expr.tree_span, Cursor.ahead_of_rest h₁.rest]; rfl)
  · exact .bind (hg.operandOf hc hl 0 bare) fun _ _ he => hg.rangeFrom hc hl bare he

theorem Reads.assignFrom (hg : g.Reads ts n g') (hl : s.rest.length ≤ n) (bare : Bool)
    (he : Grown ts s e.tree c) :
    Yields ts (g.assignFrom bare e) (g'.assignFrom bare e) c (fun e c' => Grown ts s e.tree c') := by
  apply Yields.looking assignWidth_looks
  intro width _
  match width with
  | 0 => exact .pure he
  | width + 1 =>
    apply Yields.bind (.skip_pos he.passes.on (Nat.succ_pos width))
    intro _ c₁ h₁
    apply Yields.bind (hg.expr h₁.on ((he.passes.trans h₁.moves).lt hl) bare)
    intro right c₂ h₂
    exact .pure (.join he h₁.moves h₂ (by simp only [Expr.tree_span]; rfl))

theorem Reads.exprOf (hg : g.Reads ts n g') (hc : c.On ts) (hl : c.rest.length ≤ n)
    (bare : Bool) :
    Yields ts (g.exprOf bare) (g'.exprOf bare) c (fun e c' => Grown ts c e.tree c') :=
  .bind (hg.rangeOf hc hl bare) fun _ _ he => hg.assignFrom hl bare he

theorem Reads.exprFrom (hg : g.Reads ts n g') (hs : s.On ts) (hl : s.rest.length ≤ n)
    (he : Grown ts s e.tree c) :
    Yields ts (g.exprFrom e) (g'.exprFrom e) c (fun e c' => Grown ts s e.tree c') :=
  .bind (hg.binaryFrom hl 0 false he) fun _ _ he =>
    .bind (hg.rangeFrom hs hl false he) fun _ _ he => hg.assignFrom hl false he

/-! ### Statements and blocks -/

theorem startsBlockLike_looks : Looks startsBlockLike fun _ => True := by
  refine .bind (.look 0) fun o _ => ?_
  cases o with
  | none => exact .pure trivial
  | some t =>
    refine .ite (.pure trivial) (.ite (.pure trivial) (.ite (.pure trivial) ?_))
    refine .ite (.looksAt 1 _) (.ite (.bind (.looksAt 1 _) fun _ _ => ?_) (.pure trivial))
    refine .ite (.pure trivial) (.bind (.looksAt 1 _) fun _ _ => .bind (.looksAt 2 _) fun _ _ => ?_)
    exact .pure trivial

theorem startsItem_looks : Looks startsItem fun _ => True := by
  refine .bind (.look 0) fun o _ => ?_
  cases o with
  | none => exact .pure trivial
  | some t =>
    refine .ite (.pure trivial) (.ite (.pure trivial) (.ite ?_ (.ite ?_ (.ite ?_ ?_))))
    · exact .bind (.looksAtKind 1 _) fun _ _ => .bind (.looksAt 1 _) fun _ _ => .pure trivial
    · exact .looksAtOneOf 1 _
    · exact .looksAt 1 _
    · exact .pure trivial

theorem Reads.statementExprOf (hg : g.Reads ts n g') (hc : c.On ts) (hl : c.rest.length ≤ n) :
    Yields ts g.statementExprOf g'.statementExprOf c (fun e c' => Grown ts c e.tree c') := by
  refine .looking startsBlockLike_looks fun _ _ => .ite (fun _ => ?_) fun _ => hg.exprOf hc hl false
  refine .bind (hg.primaryOf hc hl false) fun e c₁ he => .looksAtOneOf 0 _ (.ite (fun _ => ?_) ?_)
  · exact .bind (hg.suffixes hc hl he) fun _ _ he => hg.exprFrom hc hl he
  · exact fun _ => .pure he

theorem Reads.letStmt (hg : g.Reads ts n g') (hc : c.On ts) (hl : c.rest.length ≤ n) :
    Yields ts g.letStmt g'.letStmt c (fun s c' => Grown ts c s.tree c') := by
  apply Yields.bind (.expect hc "let")
  intro start c₁ h₁
  rw [← Cursor.ahead_of_rest h₁.rest]
  apply Yields.bind (pattern_yields h₁.passes.on _)
  intro p c₂ h₂
  have h₂' := h₁.passes.trans h₂.moves
  apply Yields.bind (hg.declaredType h₂.on (h₂'.moves.le hl))
  intro ty c₃ h₃
  have h₃' := h₂'.trans h₃
  apply Yields.bind (.accept h₃.on "=")
  intro _ c₄ h₄
  extract_lets rest
  have hrest (c₄) (init : Option Expr) (otherwise : Option Block)
      (h₄ : AllGrown ts c₃ (exprTrees init.toList ++ otherwise.toList.map Block.tree) c₄) :
      Yields ts (rest (init, otherwise)) (rest (init, otherwise)) c₄
        (fun s c' => Grown ts c s.tree c') := by
    refine .bind (.expect h₄.moves.on ";") fun _ c₅ h₅ => .spanFrom _ (.pure ?_)
    rw [Stmt.tree_letStmt]
    exact .node hc h₃' (h₄.behind h₅.passes.moves) rfl
  refine .ite (fun _ => ?_) fun _ => ?_
  · have h₄' := h₃'.trans h₄.moves
    apply Yields.bind (hg.expr h₄'.on (h₄'.lt hl) false)
    intro e c₅ h₅
    have he := (h₅.all h₄'.on).before h₄.moves
    refine .bind (.accept h₅.passes.on "else") fun _ c₆ h₆ => .ite (fun _ => ?_) fun _ => ?_
    · have h₆' := h₄'.trans (h₅.passes.moves.trans h₆.moves)
      apply Yields.bind (hg.block h₆'.on (h₆'.lt hl) .plain)
      intro b c₇ h₇
      exact hrest c₇ (some e) (some b) (he.append ((h₇.all h₆'.on).before h₆.moves))
    · exact hrest c₆ (some e) none (he.behind h₆.moves)
  · exact hrest c₄ none none (.nil h₄.moves)

/-- What the turns of a block leave: statements and the value of the block. -/
def BlockGrown (ts : List Token) (c : Cursor) (stmts : List Stmt) (tail : Option Expr)
    (c' : Cursor) : Prop :=
  AllGrown ts c (stmtTrees stmts ++ exprTrees tail.toList) c'

/-- A statement is a turn that goes on. -/
theorem BlockGrown.one {st : Stmt} (hc : c.On ts) (h : Grown ts c st.tree c') :
    Turn.Leads ts (BlockGrown ts) c (.one st) c' :=
  ⟨h.passes, fun _ _ _ hq => h.cons hc hq⟩

/-- What a turn leaves is left from any place before. -/
theorem BlockGrown.before {r : Turn Stmt (Option Expr)} (h : s.Moves ts c)
    (hr : Turn.Leads ts (BlockGrown ts) c r c') : Turn.Leads ts (BlockGrown ts) s r c' := by
  cases r with
  | skip => exact ⟨h.trans_passes hr.1, fun as b c'' hq => AllGrown.before h (hr.2 as b c'' hq)⟩
  | one a => exact ⟨h.trans_passes hr.1, fun as b c'' hq => AllGrown.before h (hr.2 as b c'' hq)⟩
  | last a b => exact AllGrown.before h hr
  | stop b => exact AllGrown.before h hr

theorem Reads.exprStmt (hg : g.Reads ts n g') (hc : c.On ts) (hl : c.rest.length ≤ n) :
    Yields ts g.exprStmt g'.exprStmt c (Turn.Leads ts (BlockGrown ts) c) := by
  refine .lookAhead 0 (.bind_eq (hg.statementExprOf hc hl) fun e c₁ heq he => ?_)
  rw [he.passes.begin]
  refine .bind (.accept he.passes.on ";") fun found c₂ h₂ => .ite (fun _ => ?_) fun hf => ?_
  · exact .spanFrom _ (.pure (BlockGrown.one hc (.whole hc he h₂.moves rfl)))
  obtain rfl := h₂.stays (by simpa using hf)
  refine .looksAt 0 "\x7d" (.ite (fun _ => .pure (he.all hc)) fun _ => .ite (fun _ => ?_) fun hb => ?_)
  · exact .pure (BlockGrown.one hc (.wrap he (by rw [Expr.tree_span]; rfl)))
  refine .lookNext (fun hnil => ⟨rfl, ?_⟩) fun _ _ _ => .reject ..
  obtain ⟨depth, rfl⟩ := hg.bounded
  refine ⟨depth, c.last, c.rest, e, c₂.last, hc.suffix, by simpa using hb, heq.trans ?_⟩
  rw [← hnil]

theorem Reads.blockTurn (hg : g.Reads ts n g') (hc : c.On ts) (hl : c.rest.length ≤ n) :
    Yields ts g.blockTurn g'.blockTurn c (Turn.Leads ts (BlockGrown ts) c) := by
  refine .looksAt 0 "\x7d" (.ite (fun _ => .pure (.nil hc.stays)) fun _ => ?_)
  refine .lookNext (fun _ => .rejectEnd _) fun t us hr => ?_
  have hn : 0 < n := Nat.lt_of_lt_of_le (by simp [hr]) hl
  refine .bind (.accept hc ";") fun found c₁ h₁ => .ite (fun hf => .pure ?_) fun _ => ?_
  · exact ⟨h₁.passes hf, fun _ _ _ hq => AllGrown.before h₁.moves hq⟩
  apply Yields.bind (.skipAttributes h₁.moves.on)
  intro _ c₂ h₂
  have h := h₁.moves.trans h₂
  refine Yields.imp ?_ fun _ _ hr => BlockGrown.before h hr
  refine .looksAt 0 "\x7d" (.ite (fun _ => .pure (.nil h.on.stays)) fun _ => ?_)
  refine .looksAt 0 "let" (.ite (fun _ => ?_) fun _ => ?_)
  · exact .bind (hg.letStmt h.on (h.le hl)) fun _ _ h' => .pure (BlockGrown.one h.on h')
  refine .looking startsItem_looks fun _ _ => .ite (fun _ => ?_) fun _ => hg.exprStmt h.on (h.le hl)
  refine .bind (hg.itemHere h.on hn (h.le hl)) fun i c₃ h₃ => .pure ?_
  exact BlockGrown.one h.on (.wrap h₃ (by rw [Item.tree_span]; rfl))

/-- A block behind keywords that begin at `s`, if any are given. -/
theorem Reads.blockOf (hg : g.Reads ts n g') (hs : s.On ts) (h : s.Moves ts c)
    (hl : c.rest.length ≤ n + 1) (kind : BlockKind) {lo : Option Int}
    (hlo : lo = none ∧ s = c ∨ lo = some s.ahead) :
    Yields ts (g.blockOf kind lo) (g'.blockOf kind lo) c (fun b c' => Grown ts s b.tree c') := by
  apply Yields.bind (.expect h.on "\x7b")
  intro brace c₁ h₁
  have h₁' := h.trans_passes h₁.passes
  have hl₁ : c₁.rest.length ≤ n := Nat.le_of_lt_succ (h₁.passes.lt hl)
  have hat : lo.getD brace.lo = s.ahead := by
    obtain ⟨rfl, rfl⟩ | rfl := hlo
    · exact (Cursor.ahead_of_rest h₁.rest).symm
    · rfl
  apply Yields.bind (.skipAttributes h₁'.on)
  intro _ c₂ h₂
  refine .bind (Yields.collect (Q := BlockGrown ts) h₂.on fun c₃ h₃ =>
    hg.blockTurn h₃.on ((h₂.trans h₃).le hl₁)) fun r c₃ h₃ => ?_
  obtain ⟨stmts, tail⟩ := r
  refine .bind (.expect (AllGrown.moves h₃).on "\x7d") fun _ c₄ h₄ => .spanFrom _ (.pure ?_)
  rw [Block.tree_mk, hat]
  exact .node hs (h₁'.trans h₂) (AllGrown.behind h₃ h₄.passes.moves) rfl

end BuilderMigration.Grammar
