import BuilderMigration.Grammar.Expressions
import BuilderMigration.Proofs.Grammar.Types

/-! What expressions look ahead for, and the productions of their lists, paths, struct literals, macro
calls and closures. Each reads trees that lie between the cursors where it begins and ends. -/

namespace BuilderMigration.Grammar

open Parse

variable {ts us : List Token} {n : Nat} {g g' : Grammar} {s c c' : Cursor} {t : Token} {lo : Int}

/-! ### Operators -/

theorem canStart_looks (bare : Bool) : Looks (canStart bare) fun _ => True := by
  refine .bind (.look 0) fun o _ => ?_
  cases o with
  | none => exact .pure trivial
  | some t =>
    dsimp only
    split
    · exact .ite (.pure trivial) (.pure trivial)
    · exact .pure trivial
    · exact .pure trivial

theorem assignWidth_looks : Looks assignWidth fun _ => True := by
  refine .bind (.look 0) fun o _ => ?_
  cases o with
  | none => exact .pure trivial
  | some t =>
    refine .ite (.pure trivial) (.ite (.pure trivial) (.bind (.look 1) fun o _ => ?_))
    cases o with
    | none => exact .pure trivial
    | some u => exact .ite (.pure trivial) (.pure trivial)

/-- A pending operator takes a token. -/
theorem pendingOperator_looks :
    Looks pendingOperator fun o => ∀ s width, o = some (s, width) → 0 < width := by
  refine .bind (.look 0) fun o _ => ?_
  cases o with
  | none => exact .pure nofun
  | some t =>
    have hsingle : Looks (pure ((strength? t.value).map (·, 1))) fun o =>
        ∀ s width, o = some (s, width) → 0 < width := by
      refine .pure fun s width h => ?_
      obtain ⟨_, -, h⟩ := Option.map_eq_some_iff.1 h
      cases h
      exact Nat.one_pos
    have hshift : Looks (pure (some (shiftStrength, 2))) fun o =>
        ∀ s width, o = some (s, width) → 0 < width := by
      refine .pure fun s width h => ?_
      cases h
      exact Nat.two_pos
    refine .ite (.pure nofun) (.ite (.bind (.look 1) fun o _ => ?_) hsingle)
    cases o with
    | none => exact hsingle
    | some u => exact .ite (.ite hshift (.ite (.pure nofun) hsingle)) hsingle

theorem opensStruct_looks : Looks opensStruct fun _ => True := by
  refine .bind (.look 1) fun o _ => ?_
  cases o with
  | none => exact .pure trivial
  | some t =>
    refine .ite (.pure trivial) (.ite (.bind (.look 2) fun _ _ => ?_) (.pure trivial))
    exact .pure trivial

/-! ### Lists of expressions -/

theorem Reads.exprList (hg : g.Reads ts n g') (hc : c.On ts) (hl : c.rest.length < n)
    (close : String) :
    Yields ts (commaList close (g.expr false)) (commaList close (g'.expr false)) c
      (fun r c' => AllGrown ts c (exprTrees r.1) c') :=
  .commaList (Q := fun c es c' => AllGrown ts c (exprTrees es) c')
    (R := fun c e c' => Grown ts c e.tree c') hc close (fun _ h₁ => .nil h₁.stays)
    (fun _ _ _ _ _ _ h₁ hr h₃ hq => hr.cons h₁ (hq.before h₃))
    fun _ h₁ => (hg.expr h₁.on (h₁.lt hl) false).imp fun _ _ h => ⟨h.passes, h⟩

theorem Reads.callArgs (hg : g.Reads ts n g') (hc : c.On ts) (hl : c.rest.length ≤ n) :
    Yields ts g.callArgs g'.callArgs c
      (fun r c' => r.2 = c'.last ∧ c.Passes ts c' ∧ AllGrown ts c (exprTrees r.1) c') := by
  apply Yields.bind (.expect hc "(")
  intro _ c₁ h₁
  apply Yields.bind (hg.exprList h₁.passes.on (h₁.passes.lt hl) ")")
  intro r c₂ h₂
  apply Yields.bind (.expect h₂.moves.on ")")
  intro close c₃ h₃
  refine .pure ⟨h₃.last.symm, ?_, (h₂.behind h₃.passes.moves).before h₁.passes.moves⟩
  exact h₁.passes.trans (h₂.moves.trans h₃.passes.moves)

theorem Reads.parenthesised (hg : g.Reads ts n g') (hc : c.On ts) (hl : c.rest.length ≤ n) :
    Yields ts g.parenthesised g'.parenthesised c (fun e c' => Grown ts c e.tree c') := by
  apply Yields.bind (.expect hc "(")
  intro start c₁ h₁
  apply Yields.bind (hg.exprList h₁.passes.on (h₁.passes.lt hl) ")")
  intro r c₂ h₂
  apply Yields.bind (.expect h₂.moves.on ")")
  intro close c₃ h₃
  have h := h₂.behind h₃.passes.moves
  rw [← Cursor.ahead_of_rest h₁.rest, ← h₃.last]
  obtain ⟨_ | ⟨e, _ | ⟨e', es⟩⟩, _ | _⟩ := r <;> exact .pure (.node hc h₁.passes h rfl)

theorem Reads.array (hg : g.Reads ts n g') (hc : c.On ts) (hl : c.rest.length ≤ n) :
    Yields ts g.array g'.array c (fun e c' => Grown ts c e.tree c') := by
  apply Yields.bind (.expect hc "[")
  intro start c₁ h₁
  refine .bind (Yields.collect (Q := fun c es more c' => AllGrown ts c (exprTrees (es ++ more)) c')
    h₁.passes.on fun c₂ h₂ => ?_) fun r c₂ h₂ => ?_
  · have hl₂ := h₂.lt (h₁.passes.lt hl)
    refine .nextIs "]" (fun _ => .pure (.nil h₂.on.stays)) fun _ => ?_
    apply Yields.bind (hg.expr h₂.on hl₂ false)
    intro e c₃ h₃
    refine .bind (.accept h₃.passes.on ";") fun _ c₄ h₄ => .ite (fun _ => ?_) fun _ => ?_
    · refine .bind (hg.expr h₄.moves.on ((h₃.passes.moves.trans h₄.moves).lt hl₂) false)
        fun e' c₅ h₅ => ?_
      exact .pure (h₃.cons h₂.on ((h₅.all h₄.moves.on).before h₄.moves))
    apply Yields.bind (.accept h₄.moves.on ",")
    intro _ c₅ h₅
    have h := h₄.moves.trans h₅.moves
    refine .ite (fun _ => .pure ⟨h₃.passes.trans h, fun _ _ _ hq => ?_⟩) fun _ => .pure ?_
    · exact h₃.cons h₂.on (hq.before h)
    · exact (h₃.behind h).all h₂.on
  · apply Yields.bind (.expect h₂.moves.on "]")
    intro close c₃ h₃
    rw [← Cursor.ahead_of_rest h₁.rest, ← h₃.last]
    exact .pure (.node hc h₁.passes (h₂.behind h₃.passes.moves) rfl)

/-! ### Paths, struct literals and macro calls -/

theorem pathNames_yields (hc : c.On ts) :
    Yields ts pathNames pathNames c (fun _ c' => c.Passes ts c') := by
  apply Yields.bind (.accept hc "::")
  intro _ c₁ h₁
  refine .bind (Yields.collect (Q := fun c _ _ c' => c.Passes ts c') h₁.moves.on
    fun c₂ h₂ => ?_) fun _ c₂ h₂ => .pure (h₁.moves.trans_passes h₂)
  apply Yields.bind (.expectName h₂.on)
  intro name c₃ h₃
  refine .looksAt 0 "::" (.looksAt 1 "<" (.ite (fun _ => ?_) fun _ => nameEnd_yields h₃ name))
  apply Yields.bind (.skip_one h₃.on)
  intro _ c₄ h₄
  apply Yields.bind (.skipGenerics h₄.on)
  intro _ c₅ h₅
  exact nameEnd_yields (h₃.trans (h₄.trans h₅.moves).moves) name

/-- A struct literal behind names that begin at `s`. -/
theorem Reads.structLiteral (hg : g.Reads ts n g') (hs : s.On ts) (h : s.Passes ts c)
    (hl : s.rest.length ≤ n) :
    Yields ts (g.structLiteral s.ahead) (g'.structLiteral s.ahead) c
      (fun e c' => Grown ts s e.tree c') := by
  apply Yields.bind (.expect h.on "\x7b")
  intro _ c₁ h₁
  have h₁' := h.trans h₁.passes.moves
  refine .bind (Yields.collect (Q := fun c fields base c' =>
    AllGrown ts c (exprTrees (fields.flatten ++ base)) c') h₁.passes.on fun c₂ h₂ => ?_)
    fun r c₂ h₂ => ?_
  · have hl₂ := h₂.lt (h₁'.lt hl)
    refine .nextIs "\x7d" (fun _ => .pure (.nil h₂.on.stays)) fun _ => ?_
    apply Yields.bind (.skipAttributes h₂.on)
    intro _ c₃ h₃
    refine .bind (.accept h₃.on "..") fun _ c₄ h₄ => .ite (fun _ => ?_) fun _ => ?_
    · have h := h₃.trans h₄.moves
      refine .nextIs "\x7d" (fun _ => .pure (.nil h)) fun _ => ?_
      apply Yields.bind (hg.expr h.on (h.lt hl₂) false)
      intro e c₅ h₅
      exact .pure ((h₅.all h.on).before h)
    have h₄' := h₃.trans h₄.moves
    apply Yields.bind (.skip_one h₄.moves.on)
    intro _ c₅ h₅
    apply Yields.bind (.accept h₅.on ":")
    intro _ c₆ h₆
    extract_lets rest
    have hrest (c₆) (value : List Expr) (h₆ : AllGrown ts c₅ (exprTrees value) c₆) :
        Yields ts (rest value) (rest value) c₆ (Turn.Leads ts (fun c fields base c' =>
          AllGrown ts c (exprTrees (fields.flatten ++ base)) c') c₂) := by
      have hp := h₄'.trans_passes h₅
      apply Yields.bind (.accept h₆.moves.on ",")
      intro _ c₇ h₇
      have h := (h₆.behind h₇.moves).before hp.moves
      refine .ite (fun _ => .pure ⟨hp.trans (h₆.moves.trans h₇.moves), fun _ _ _ hq => ?_⟩)
        fun _ => .pure ?_
      · change AllGrown ts c₂ (exprTrees ((value :: _).flatten ++ _)) _
        rw [List.flatten_cons, List.append_assoc, exprTrees_append]
        exact h.append hq
      · change AllGrown ts c₂ (exprTrees ([value].flatten ++ [])) c₇
        rwa [List.flatten_singleton, List.append_nil]
    refine .ite (fun _ => ?_) fun _ => ?_
    · refine .bind (hg.expr h₆.moves.on ((h₄'.trans (h₅.trans h₆.moves).moves).lt hl₂) false)
        fun e c₇ h₇ => ?_
      exact hrest c₇ [e] ((h₇.all h₆.moves.on).before h₆.moves)
    · exact hrest c₆ [] (.nil h₆.moves)
  · apply Yields.bind (.expect h₂.moves.on "\x7d")
    intro close c₃ h₃
    rw [← h₃.last]
    exact .pure (.node hs h₁' (h₂.behind h₃.passes.moves) rfl)

theorem Reads.macroList (hg : g.Reads ts n g') (hc : c.On ts) (hl : c.rest.length ≤ n)
    (d : Delimiter) : Yields ts (g.macroList d) (g'.macroList d) c
      (fun es c' => c.Passes ts c' ∧ AllGrown ts c (exprTrees es) c') := by
  apply Yields.bind (.skip_one hc)
  intro _ c₁ h₁
  refine .bind (Yields.collect (Q := fun c es _ c' => AllGrown ts c (exprTrees es) c') h₁.on
    fun c₂ h₂ => ?_) fun r c₂ h₂ => ?_
  · refine .looksAt 0 _ (.ite (fun _ => .pure (.nil h₂.on.stays)) fun _ => ?_)
    apply Yields.bind (hg.expr h₂.on (h₂.lt (h₁.lt hl)) false)
    intro e c₃ h₃
    have hgo (c₄) (h₄ : c₃.Moves ts c₄) : Turn.Leads (β := Unit) ts
        (fun c es _ c' => AllGrown ts c (exprTrees es) c') c₂ (.one e) c₄ :=
      ⟨h₃.passes.trans h₄, fun _ _ _ hq => h₃.cons h₂.on (hq.before h₄)⟩
    apply Yields.bind (.accept h₃.passes.on ",")
    intro _ c₄ h₄
    refine .ite (fun _ => .pure (hgo c₄ h₄.moves)) fun _ => ?_
    apply Yields.bind (.accept h₄.moves.on ";")
    intro _ c₅ h₅
    have h := h₄.moves.trans h₅.moves
    exact .ite (fun _ => .pure (hgo c₅ h)) fun _ => .pure ((h₃.behind h).all h₂.on)
  · apply Yields.bind (.expect h₂.moves.on _)
    intro _ c₃ h₃
    have h := h₂.moves.trans h₃.passes.moves
    exact .pure ⟨h₁.trans h, (h₂.behind h₃.passes.moves).before h₁.moves⟩

/-- The arguments of a macro call, also where its group is passed over in the end. -/
theorem Reads.macroArgs (hg : g.Reads ts n g') (hc : c.On ts) (hl : c.rest.length ≤ n)
    (d : Delimiter) : Yields ts (g.macroArgs d) (g'.macroArgs d) c
      (fun es c' => c.Passes ts c' ∧ AllGrown ts c (exprTrees es) c') :=
  .orElse (hg.macroList hc hl d)
    (.bind (.skipGroup hc) fun _ _ h => .pure ⟨h, .nil h.moves⟩)

theorem Reads.pathLike (hg : g.Reads ts n g') (hc : c.On ts) (hl : c.rest.length ≤ n)
    (bare : Bool) :
    Yields ts (g.pathLike bare) (g'.pathLike bare) c (fun e c' => Grown ts c e.tree c') := by
  refine .lookAhead 0 (.bind (pathNames_yields hc) fun names c₁ h₁ => ?_)
  rw [h₁.begin]
  refine .looksAt 0 "!" ?_
  extract_lets path rest rest'
  have hpath : Yields ts (path ()) (path ()) c₁ (fun e c' => Grown ts c e.tree c') :=
    .spanFrom _ (.pure (.node hc h₁ (.nil h₁.on.stays) rfl))
  have hrest : Yields ts (rest ()) (rest' ()) c₁ (fun e c' => Grown ts c e.tree c') := by
    refine .looksAt 0 "\x7b" (.ite (fun _ => ?_) fun _ => hpath)
    refine .looking opensStruct_looks fun _ _ => .ite (fun _ => ?_) fun _ => hpath
    exact hg.structLiteral hc h₁ hl
  refine .ite (fun _ => .lookAhead 1 ?_) fun _ => hrest
  cases (c₁.rest[1]?).bind (·.opens?) with
  | none => exact hrest
  | some d =>
    apply Yields.bind (.skip_one h₁.on)
    intro _ c₂ h₂
    have h₂' := h₁.trans h₂.moves
    refine .bind (hg.macroArgs h₂.on (h₂'.moves.le hl) d) fun args c₃ ⟨_, h₃⟩ => ?_
    exact .spanFrom _ (.pure (.node hc h₂' h₃ rfl))

/-! ### Closures -/

theorem Reads.closureParam (hg : g.Reads ts n g') (hc : c.On ts) (hl : c.rest.length ≤ n) :
    Yields ts g.closureParam g'.closureParam c (fun _ c' => c.Passes ts c') := by
  refine .bind (.skipAttributes hc) fun _ c₁ h₁ => .lookAhead 0 ?_
  apply Yields.bind (pattern_yields h₁.on _)
  intro _ c₂ h₂
  have h := h₁.trans_passes h₂
  apply Yields.bind (hg.declaredType h₂.on (h.moves.le hl))
  intro _ c₃ h₃
  exact .spanFrom _ (.pure (h.trans h₃))

theorem Reads.closureParams (hg : g.Reads ts n g') (hc : c.On ts) (hl : c.rest.length ≤ n) :
    Yields ts g.closureParams g'.closureParams c (fun _ c' => c.Passes ts c') := by
  refine .bind (.accept hc "||") fun _ c₁ h₁ => .ite (fun hf => .pure (h₁.passes hf)) fun _ => ?_
  apply Yields.bind (.expect h₁.moves.on "|")
  intro _ c₂ h₂
  have h := h₁.moves.trans_passes h₂.passes
  refine .bind (.commaList_moves h.on "|" fun c₃ h₃ =>
    hg.closureParam h₃.on (h₃.le (h.moves.le hl))) fun _ c₃ h₃ => ?_
  exact .bind (.expect h₃.on "|") fun _ c₄ h₄ => .pure (h.trans (h₃.trans h₄.passes.moves))

/-- A closure behind keywords that begin at `s`. -/
theorem Reads.closure (hg : g.Reads ts n g') (hs : s.On ts) (h : s.Moves ts c)
    (hl : s.rest.length ≤ n) (bare captures : Bool) :
    Yields ts (g.closure s.ahead bare captures) (g'.closure s.ahead bare captures) c
      (fun e c' => Grown ts s e.tree c') := by
  apply Yields.bind (hg.closureParams h.on (h.le hl))
  intro params c₁ h₁
  have h₁' := h.trans_passes h₁
  have hend (c₂) (h₂ : c₁.Moves ts c₂) (body : Expr) (c₃) (h₃ : Grown ts c₂ body.tree c₃) :
      Yields ts (pure (Expr.closure ⟨s.ahead, body.span.hi, 0⟩ params body captures) : Parse Expr)
        (pure (.closure ⟨s.ahead, body.span.hi, 0⟩ params body captures)) c₃
        (fun e c' => Grown ts s e.tree c') :=
    .pure (.prefixed hs (h₁'.trans h₂) h₃ (by rw [Expr.tree_span]; rfl))
  refine .bind (.accept h₁.on "->") fun _ c₂ h₂ => .ite (fun _ => ?_) fun _ => ?_
  · have h₂' := h₁'.trans h₂.moves
    apply Yields.bind (hg.ty h₂'.on (h₂'.lt hl))
    intro _ c₃ h₃
    have h := h₂.moves.trans h₃.moves
    apply Yields.bind (hg.block h₃.on ((h₁'.trans h).lt hl) .plain)
    intro b c₄ h₄
    exact hend c₃ h (.block b) c₄ h₄
  · apply Yields.bind (hg.expr h₂.moves.on ((h₁'.trans h₂.moves).lt hl) bare)
    intro e c₃ h₃
    exact hend c₂ h₂.moves e c₃ h₃

end BuilderMigration.Grammar
