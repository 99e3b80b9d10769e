import BuilderMigration.Proofs.Origin.Endings
import BuilderMigration.Proofs.Origin.Sources

/-! What is asked of the nonterminals, and the productions of lists, paths, struct literals, macro calls
and closures. Where trees lie is known; what is added is that each begins and ends where reading does and
that its nodes are read from their tokens. -/

namespace BuilderMigration

open Parse

/-- Where a tree ends that is read up to `c'`: there, or in front of generic arguments that no field
takes. -/
def EndsAt (ts : List Token) (hi : Int) (c' : Cursor) : Prop :=
  hi = c'.last ∨ ∃ (mid : Cursor) (trail : List Token),
    mid.On ts ∧ mid.last = hi ∧ Turbofish trail ∧ mid.Reads trail c'

/-- A tree in its place: it begins with the first token, save where attributes stand there, and ends with
the last one. -/
structure Placed (ts : List Token) (s : Cursor) (t : Rose Node) (c' : Cursor) : Prop where
  begins : OpensAttribute s.rest ∨ t.span.lo = s.ahead
  ends : EndsAt ts t.span.hi c'
  sourced : t.Sourced ts

/-- A tree read from one cursor to another. -/
structure Traced (ts : List Token) (s : Cursor) (t : Rose Node) (c' : Cursor) : Prop
    extends Placed ts s t c' where
  grown : Grown ts s t c'

abbrev AllSourced (ts : List Token) (trees : List (Rose Node)) : Prop := ∀ t ∈ trees, t.Sourced ts

variable {ts us : List Token} {s c c₁ c' : Cursor} {n : Node} {t u : Rose Node} {hi : Int}
  {kids : List (Rose Node)} {es : List Expr}

theorem allSourced_exprTrees (h : ∀ e ∈ es, e.tree.Sourced ts) : AllSourced ts (exprTrees es) := by
  rw [exprTrees_eq_map]
  exact List.forall_mem_map.2 h

theorem Traced.passes (h : Traced ts s t c') : s.Passes ts c' := h.grown.passes

/-- The cursor at the end of a tree, and what is read behind it. -/
theorem Traced.exists_end (h : Traced ts s t c') : ∃ (mid : Cursor) (trail : List Token),
    mid.On ts ∧ mid.last = t.span.hi ∧ Turbofish trail ∧ mid.Reads trail c' :=
  h.ends.elim (fun hlast => ⟨c', [], h.passes.on, hlast.symm, .nil, .nil c'⟩) id

namespace Placed

theorem before (h : OpensAttribute s.rest) (ht : Placed ts c t c') : Placed ts s t c' :=
  ⟨.inl h, ht.ends, ht.sourced⟩

theorem whole (hn : n.span = ⟨s.ahead, c'.last, 0⟩) (hs : n.Sourced ts) (hk : AllSourced ts kids) :
    Placed ts s (.node n kids) c' :=
  ⟨.inr (congrArg Span.lo hn), .inl (congrArg Span.hi hn), Rose.sourced_node.2 ⟨hs, hk⟩⟩

/-- A node that stands where its only child does. -/
theorem wrap (ht : Placed ts s t c') (hn : n.span = t.span) (hs : n.Sourced ts) :
    Placed ts s (.node n [t]) c' := by
  refine ⟨?_, ?_, Rose.sourced_node.2 ⟨hs, List.forall_mem_singleton.2 ht.sourced⟩⟩
  · exact ht.begins.imp_right (congrArg Span.lo hn).trans
  · exact (congrArg (EndsAt ts · c') (congrArg Span.hi hn)).mpr ht.ends

theorem prefixed (ht : Placed ts c t c') (hn : n.span = ⟨s.ahead, t.span.hi, 0⟩) (hs : n.Sourced ts) :
    Placed ts s (.node n [t]) c' := by
  refine ⟨.inr (congrArg Span.lo hn), ?_, Rose.sourced_node.2 ⟨hs, ?_⟩⟩
  · exact (congrArg (EndsAt ts · c') (congrArg Span.hi hn)).mpr ht.ends
  · exact List.forall_mem_singleton.2 ht.sourced

theorem extend (ht : Placed ts s t c) (hn : n.span = ⟨t.span.lo, hi, 0⟩) (hend : EndsAt ts hi c')
    (hs : n.Sourced ts) (hk : AllSourced ts kids) : Placed ts s (.node n (t :: kids)) c' := by
  refine ⟨ht.begins.imp_right (congrArg Span.lo hn).trans, ?_, Rose.sourced_node.2 ⟨hs, ?_⟩⟩
  · exact (congrArg (EndsAt ts · c') (congrArg Span.hi hn)).mpr hend
  · exact List.forall_mem_cons.2 ⟨ht.sourced, hk⟩

end Placed

/-- What lies in place is traced where it is known to lie at all. -/
theorem Parse.Makes.traced {α : Type} {tree : α → Rose Node} {p p' : Parse α}
    (hp : Yields ts p p' c fun a c' => Grown ts s (tree a) c')
    (h : Makes p c fun a c' => Placed ts s (tree a) c') :
    Makes p c fun a c' => Traced ts s (tree a) c' :=
  (hp.makes.and h).imp fun _ _ h => ⟨h.2, h.1⟩

/-- A tree from the start of one to the end of another that is read behind it. -/
theorem Traced.join (ht : Traced ts s t c) (h : c.Moves ts c₁) (hu : Traced ts c₁ u c')
    (hn : n.span = t.span.through u.span) (hs : n.Sourced ts) : Traced ts s (.node n [t, u]) c' := by
  have hle : t.span.hi ≤ u.span.hi := by
    have := ht.grown.hi_le
    have := h.later
    have := h.on.last_le_ahead
    have := hu.grown.le_lo
    have := hu.grown.proper.lt
    omega
  have hn' : n.span = ⟨t.span.lo, u.span.hi, 0⟩ := by
    rw [hn, Span.through, ht.grown.proper.written, Int.max_eq_right hle]
  exact ⟨ht.toPlaced.extend hn' hu.ends hs (List.forall_mem_singleton.2 hu.sourced),
    ht.grown.join h hu.grown hn⟩

/-- A grammar whose nonterminals trace what they read on every rest of a text shorter than `n` tokens. -/
structure Grammar.Traces (ts : List Token) (n : Nat) (g : Grammar) : Prop where
  reads : g.Reads ts n g
  closing : g.Closing
  expr {c : Cursor} (hc : c.On ts) (hl : c.rest.length < n) (bare) :
    Makes (g.expr bare) c fun e c' => Traced ts c e.tree c'
  operand {c : Cursor} (hc : c.On ts) (hl : c.rest.length < n) (strength bare) :
    Makes (g.operand strength bare) c fun e c' => Traced ts c e.tree c'
  unary {c : Cursor} (hc : c.On ts) (hl : c.rest.length < n) (bare) :
    Makes (g.unary bare) c fun e c' => Traced ts c e.tree c'
  primary {c : Cursor} (hc : c.On ts) (hl : c.rest.length < n) (bare) :
    Makes (g.primary bare) c fun e c' => Traced ts c e.tree c'
  statementExpr {c : Cursor} (hc : c.On ts) (hl : c.rest.length < n) :
    Makes g.statementExpr c fun e c' => Traced ts c e.tree c'
  conditional {c : Cursor} (hc : c.On ts) (hl : c.rest.length < n) :
    Makes g.conditional c fun e c' => Traced ts c e.tree c'
  blockHere {c : Cursor} (hc : c.On ts) (hn : 0 < n) (hl : c.rest.length ≤ n) (kind) :
    Makes (g.block kind none) c fun b c' => Traced ts c b.tree c'
  blockFrom {s c : Cursor} (hs : s.On ts) (h : s.Moves ts c) (hl : c.rest.length < n) (kind) :
    Makes (g.block kind (some s.ahead)) c fun b c' => Traced ts s b.tree c'
  itemHere {c : Cursor} (hc : c.On ts) (hn : 0 < n) (hl : c.rest.length ≤ n) :
    Makes g.item c fun i c' => Traced ts c i.tree c'

namespace Grammar

variable {m : Nat} {g : Grammar} {v : Token}

theorem Traces.block (hg : g.Traces ts m) (hc : c.On ts) (hl : c.rest.length < m) (kind : BlockKind) :
    Makes (g.block kind none) c fun b c' => Traced ts c b.tree c' :=
  hg.blockHere hc (Nat.zero_lt_of_lt hl) (Nat.le_of_lt hl) kind

/-! ### Lists of expressions -/

theorem Traces.exprList (hg : g.Traces ts m) (hc : c.On ts) (hl : c.rest.length < m) (close : String) :
    Makes (commaList close (g.expr false)) c fun r c' =>
      AllGrown ts c (exprTrees r.1) c' ∧ ∀ e ∈ r.1, e.tree.Sourced ts :=
  (hg.reads.exprList hc hl close).makes.and (.commaList hc close fun _ h₁ =>
    (hg.expr h₁.on (h₁.lt hl) false).imp fun _ _ h => ⟨h.passes, h.sourced⟩)

/-- Arguments are read from a group in parentheses. -/
structure Arguments (ts : List Token) (c : Cursor) (args : List Expr) (hi : Int) (c' : Cursor)
    (opening : Token) (inner : List Token) (closing : Token) : Prop where
  reads : c.Reads (opening :: (inner ++ [closing])) c'
  opens : opening.is "(" = true
  closes : closing.is ")" = true
  ends : hi = closing.hi
  within : ∀ a ∈ args, opening.hi ≤ a.span.lo ∧ a.span.hi ≤ closing.lo
  sourced : ∀ a ∈ args, a.tree.Sourced ts

theorem Traces.callArgs (hg : g.Traces ts m) (hc : c.On ts) (hl : c.rest.length ≤ m) :
    Makes g.callArgs c fun r c' => ∃ opening inner closing,
      Arguments ts c r.1 r.2 c' opening inner closing := by
  refine .bind (.expect hc "(") fun opening c₁ ⟨h₁, hopen⟩ => ?_
  refine .bind (hg.exprList h₁.passes.on (h₁.passes.lt hl) ")") fun r c₂ ⟨h₂, hargs⟩ => ?_
  refine .bind (.expect h₂.moves.on ")") fun closing c₃ ⟨h₃, hclose⟩ => ?_
  obtain ⟨inner, hinner⟩ := h₂.moves.exists_reads h₁.passes.on
  refine .pure ⟨opening, inner, closing, ?_, hopen, hclose, rfl, fun a ha => ?_, hargs⟩
  · exact h₁.reads.trans (hinner.trans h₃.reads)
  · have hlaid := h₂.laid
    rw [exprTrees_eq_map, show r.1.map Expr.tree = (r.1.map Node.expr).map Node.tree by
      rw [List.map_map]; rfl] at hlaid
    obtain ⟨hlo, hhi⟩ := hlaid.nodes.1 _ (List.mem_map_of_mem ha)
    rw [← h₁.last]
    have := (h₂.moves.on.head h₃.rest).1
    exact ⟨hlo, Int.le_trans hhi this⟩

theorem Traces.parenthesised (hg : g.Traces ts m) (hc : c.On ts) (hl : c.rest.length ≤ m) :
    Makes g.parenthesised c fun e c' => Traced ts c e.tree c' := by
  refine .traced (hg.reads.parenthesised hc hl) (.bind (.expect hc "(") fun start c₁ ⟨h₁, _⟩ => ?_)
  refine .bind (hg.exprList h₁.passes.on (h₁.passes.lt hl) ")") fun r c₂ ⟨h₂, hargs⟩ => ?_
  refine .bind (Yields.expect h₂.moves.on ")").makes fun close c₃ h₃ => ?_
  rw [← Cursor.ahead_of_rest h₁.rest, ← h₃.last]
  have hkids := allSourced_exprTrees hargs
  obtain ⟨_ | ⟨e, _ | ⟨e', es⟩⟩, _ | _⟩ := r <;> exact .pure (.whole rfl trivial hkids)

theorem Traces.array (hg : g.Traces ts m) (hc : c.On ts) (hl : c.rest.length ≤ m) :
    Makes g.array c fun e c' => Traced ts c e.tree c' := by
  refine .traced (hg.reads.array hc hl) (.bind (.expect hc "[") fun start c₁ ⟨h₁, _⟩ => ?_)
  refine .bind (Makes.collect (Q := fun c es more c' => c.Moves ts c' ∧
    ∀ e ∈ es ++ more, e.tree.Sourced ts) h₁.passes.on fun c₂ h₂ => ?_) fun r c₂ ⟨h₂, hr⟩ => ?_
  · have hl₂ := h₂.lt (h₁.passes.lt hl)
    refine .nextIs "]" (fun _ _ _ _ => .pure ⟨h₂.on.stays, nofun⟩) fun _ => ?_
    refine .bind (hg.expr h₂.on hl₂ false) fun e c₃ h₃ => ?_
    refine .bind (Yields.accept h₃.passes.on ";").makes fun _ c₄ h₄ => .ite (fun _ => ?_) fun _ => ?_
    · have h := h₃.passes.moves.trans h₄.moves
      refine .bind (hg.expr h₄.moves.on (h.lt hl₂) false) fun e' c₅ h₅ => .pure ⟨?_, ?_⟩
      · exact h.trans h₅.passes.moves
      · exact List.forall_mem_cons.2 ⟨h₃.sourced, List.forall_mem_singleton.2 h₅.sourced⟩
    refine .bind (Yields.accept h₄.moves.on ",").makes fun _ c₅ h₅ => ?_
    have h := h₃.passes.trans (h₄.moves.trans h₅.moves)
    refine .ite (fun _ => .pure ⟨h, fun _ _ _ hq => ⟨h.moves.trans hq.1, ?_⟩⟩) fun _ => .pure ⟨h.moves, ?_⟩
    · exact List.forall_mem_cons.2 ⟨h₃.sourced, hq.2⟩
    · exact List.forall_mem_singleton.2 h₃.sourced
  · refine .bind (Yields.expect h₂.on "]").makes fun close c₃ h₃ => ?_
    rw [← Cursor.ahead_of_rest h₁.rest, ← h₃.last]
    exact .pure (.whole rfl trivial (allSourced_exprTrees hr))

/-! ### Paths, struct literals and macro calls -/

/-- A struct literal behind names that begin at `s`. -/
theorem Traces.structLiteral (hg : g.Traces ts m) (h : s.Passes ts c) (hl : s.rest.length ≤ m) :
    Makes (g.structLiteral s.ahead) c fun e c' => Placed ts s e.tree c' := by
  refine .bind (Yields.expect h.on "\x7b").makes fun _ c₁ h₁ => ?_
  have h₁' := h.trans h₁.passes.moves
  refine .bind (Makes.collect (Q := fun c fields base c' => c.Moves ts c' ∧
    ∀ e ∈ fields.flatten ++ base, e.tree.Sourced ts) h₁.passes.on fun c₂ h₂ => ?_)
    fun r c₂ ⟨h₂, hr⟩ => ?_
  · have hl₂ := h₂.lt (h₁'.lt hl)
    refine .nextIs "\x7d" (fun _ _ _ _ => .pure ⟨h₂.on.stays, nofun⟩) fun _ => ?_
    refine .bind (Yields.skipAttributes h₂.on).makes fun _ c₃ h₃ => ?_
    refine .bind (Yields.accept h₃.on "..").makes fun _ c₄ h₄ => ?_
    have h₄' := h₃.trans h₄.moves
    refine .ite (fun _ => ?_) fun _ => ?_
    · refine .nextIs "\x7d" (fun _ _ _ _ => .pure ⟨h₄', nofun⟩) fun _ => ?_
      refine .bind (hg.expr h₄'.on (h₄'.lt hl₂) false) fun e c₅ h₅ => .pure ⟨?_, ?_⟩
      · exact h₄'.trans h₅.passes.moves
      · exact List.forall_mem_singleton.2 h₅.sourced
    refine .bind (Yields.skip_one h₄.moves.on).makes fun _ c₅ h₅ => ?_
    refine .bind (Yields.accept h₅.on ":").makes fun _ c₆ h₆ => ?_
    extract_lets rest
    have h₆' := h₄'.trans_passes (h₅.trans h₆.moves)
    have hrest (c₇) (value : List Expr) (h₇ : c₂.Passes ts c₇) (hv : ∀ e ∈ value, e.tree.Sourced ts) :
        Makes (rest value) c₇ (Turn.Leads ts (fun c fields base c' => c.Moves ts c' ∧
          ∀ e ∈ fields.flatten ++ base, e.tree.Sourced ts) c₂) := by
      refine .bind (Yields.accept h₇.on ",").makes fun _ c₈ h₈ => ?_
      have h := h₇.trans h₈.moves
      refine .ite (fun _ => .pure ⟨h, fun _ _ _ hq => ⟨h.moves.trans hq.1, ?_⟩⟩)
        fun _ => .pure ⟨h.moves, ?_⟩
      · rw [List.flatten_cons, List.append_assoc]
        exact List.forall_mem_append.2 ⟨hv, hq.2⟩
      · rwa [List.flatten_singleton, List.append_nil]
    refine .ite (fun _ => ?_) fun _ => hrest c₆ [] h₆' nofun
    refine .bind (hg.expr h₆.moves.on (h₆'.moves.lt hl₂) false) fun e c₇ h₇ => ?_
    exact hrest c₇ [e] (h₆'.trans h₇.passes.moves) (List.forall_mem_singleton.2 h₇.sourced)
  · refine .bind (Yields.expect h₂.on "\x7d").makes fun close c₃ h₃ => ?_
    rw [← h₃.last]
    exact .pure (.whole rfl trivial (allSourced_exprTrees hr))

theorem Traces.macroArgs (hg : g.Traces ts m) (hc : c.On ts) (hl : c.rest.length ≤ m) (d : Delimiter) :
    Makes (g.macroArgs d) c fun es _ => ∀ e ∈ es, e.tree.Sourced ts := by
  refine .orElse (.bind (Yields.skip_one hc).makes fun _ c₁ h₁ => ?_)
    (.bind (Yields.skipGroup hc).makes fun _ _ _ => .pure nofun)
  refine .bind (Makes.collect (Q := fun _ es _ _ => ∀ e ∈ es, e.tree.Sourced ts) h₁.on
    fun c₂ h₂ => ?_) fun r c₂ hr => ?_
  · refine .looksAt 0 _ (.ite (fun _ => .pure nofun) fun _ => ?_)
    refine .bind (hg.expr h₂.on (h₂.lt (h₁.lt hl)) false) fun e c₃ h₃ => ?_
    have hgo (c₄) (h₄ : c₃.Moves ts c₄) : Turn.Leads (β := Unit) ts
        (fun _ es _ _ => ∀ e ∈ es, e.tree.Sourced ts) c₂ (.one e) c₄ :=
      ⟨h₃.passes.trans h₄, fun _ _ _ hq => List.forall_mem_cons.2 ⟨h₃.sourced, hq⟩⟩
    refine .bind (Yields.accept h₃.passes.on ",").makes fun _ c₄ h₄ => ?_
    refine .ite (fun _ => .pure (hgo c₄ h₄.moves)) fun _ => ?_
    refine .bind (Yields.accept h₄.moves.on ";").makes fun _ c₅ h₅ => ?_
    exact .ite (fun _ => .pure (hgo c₅ (h₄.moves.trans h₅.moves)))
      fun _ => .pure (List.forall_mem_singleton.2 h₃.sourced)
  · exact .bind .any fun _ _ _ => .pure hr

theorem Traces.pathLike (hg : g.Traces ts m) (hc : c.On ts) (hl : c.rest.length ≤ m) (bare : Bool) :
    Makes (g.pathLike bare) c fun e c' => Traced ts c e.tree c' := by
  refine .traced (hg.reads.pathLike hc hl bare) (.lookAhead 0 ?_)
  refine .bind (pathNames_yields hc).makes fun names c₁ h₁ => ?_
  rw [h₁.begin]
  refine .looksAt 0 "!" ?_
  extract_lets path rest
  have hpath : Makes (path ()) c₁ fun e c' => Placed ts c e.tree c' :=
    .spanFrom _ (.pure (.whole rfl trivial nofun))
  have hrest : Makes (rest ()) c₁ fun e c' => Placed ts c e.tree c' := by
    refine .looksAt 0 "\x7b" (.ite (fun _ => ?_) fun _ => hpath)
    refine .looking opensStruct_looks fun _ _ => .ite (fun _ => ?_) fun _ => hpath
    exact hg.structLiteral h₁ hl
  refine .ite (fun _ => .lookAhead 1 ?_) fun _ => hrest
  cases (c₁.rest[1]?).bind (·.opens?) with
  | none => exact hrest
  | some d =>
    refine .bind (Yields.skip_one h₁.on).makes fun _ c₂ h₂ => ?_
    refine .bind (hg.macroArgs h₂.on ((h₁.trans h₂.moves).moves.le hl) d) fun args c₃ hargs => ?_
    exact .spanFrom _ (.pure (.whole rfl trivial (allSourced_exprTrees hargs)))

/-! ### Closures -/

/-- A closure behind keywords that begin at `s`. -/
theorem Traces.closure (hg : g.Traces ts m) (hs : s.On ts) (h : s.Moves ts c) (hl : s.rest.length ≤ m)
    (bare captures : Bool) :
    Makes (g.closure s.ahead bare captures) c fun e c' => Traced ts s e.tree c' := by
  refine .traced (hg.reads.closure hs h hl bare captures) ?_
  refine .bind (hg.reads.closureParams h.on (h.le hl)).makes fun params c₁ h₁ => ?_
  have h₁' := h.trans_passes h₁
  refine .bind (Yields.accept h₁.on "->").makes fun _ c₂ h₂ => ?_
  have h₂' := h₁'.trans h₂.moves
  refine .ite (fun _ => ?_) fun _ => ?_
  · refine .bind (hg.reads.ty h₂'.on (h₂'.lt hl)).makes fun _ c₃ h₃ => ?_
    have h₃' := h₂'.trans h₃.moves
    refine .bind (hg.block h₃.on (h₃'.lt hl) .plain) fun b c₄ h₄ => .pure ?_
    exact .prefixed h₄.toPlaced (by rw [Expr.tree_span]; rfl) trivial
  · refine .bind (hg.expr h₂.moves.on (h₂'.lt hl) bare) fun e c₃ h₃ => .pure ?_
    exact .prefixed h₃.toPlaced (by rw [Expr.tree_span]; rfl) trivial

end Grammar

end BuilderMigration
