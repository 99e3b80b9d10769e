import BuilderMigration.Grammar.Items
import BuilderMigration.Proofs.Grammar.Expressions

/-! The productions of items. -/

namespace BuilderMigration.Grammar

open Parse

variable {ts us : List Token} {n : Nat} {g g' : Grammar} {s c c' : Cursor} {t : Token}

/-! ### Functions -/

/-- A receiver takes a token. -/
theorem receiver?_looks : Looks receiver? fun o => ∀ width, o = some width → 0 < width := by
  have hlast (before : Nat) : Looks
      (do
        if (← looksAt before "self") && !(← looksAt (before + 1) "::") then return some (before + 1)
        return none) fun o => ∀ width, o = some width → 0 < width := by
    refine .bind (.looksAt before _) fun _ _ => .bind (.looksAt _ _) fun _ _ => ?_
    refine .ite (.pure fun width h => ?_) (.pure nofun)
    cases h
    exact Nat.succ_pos before
  have hmut (marks : Nat) : Looks
      (do
        let before ← if ← looksAt marks "mut" then pure (marks + 1) else pure marks
        if (← looksAt before "self") && !(← looksAt (before + 1) "::") then return some (before + 1)
        return none) fun o => ∀ width, o = some width → 0 < width :=
    .bind (.looksAt marks _) fun _ _ => .ite (hlast _) (hlast _)
  refine .bind (.looksAt 0 "&") fun _ _ => .ite ?_ (hmut 0)
  exact .bind (.looksAtKind 1 .lifetime) fun _ _ => .ite (hmut 2) (hmut 1)

theorem Reads.fnParam (hg : g.Reads ts n g') (hc : c.On ts) (hl : c.rest.length ≤ n) :
    Yields ts g.fnParam g'.fnParam c (fun _ c' => c.Passes ts c') := by
  apply Yields.bind (.skipAttributes hc)
  intro _ c₁ h₁
  refine .lookNext (fun _ => .rejectEnd _) fun t us _ => .looking receiver?_looks fun o hw => ?_
  match o, hw with
  | some width, hw =>
    apply Yields.bind (.skip_pos h₁.on (hw width rfl))
    intro _ c₂ h₂
    have h := h₁.trans_passes h₂
    apply Yields.bind (hg.declaredType h₂.on (h.moves.le hl))
    intro ty c₃ h₃
    exact .spanFrom _ (.pure (h.trans h₃))
  | none, _ =>
    apply Yields.bind (pattern_yields h₁.on _)
    intro p c₂ h₂
    have h := h₁.trans_passes h₂
    apply Yields.bind (hg.declaredType h₂.on (h.moves.le hl))
    intro ty c₃ h₃
    exact .spanFrom _ (.pure (h.trans h₃))

theorem Reads.fnItem (hg : g.Reads ts n g') (hs : s.On ts) (h : s.Moves ts c)
    (hl : c.rest.length ≤ n + 1) :
    Yields ts (g.fnItem s.ahead) (g'.fnItem s.ahead) c (fun i c' => Grown ts s i.tree c') := by
  apply Yields.bind (.expect h.on "fn")
  intro _ c₁ h₁
  have hs₁ := h.trans_passes h₁.passes
  have hl₁ : c₁.rest.length ≤ n := Nat.le_of_lt_succ (h₁.passes.lt hl)
  apply Yields.bind (.expectName h₁.passes.on)
  intro name c₂ h₂
  refine .looksAt 0 "<" ?_
  extract_lets rest rest'
  have hrest (c₃) (h₃ : c₁.Passes ts c₃) :
      Yields ts (rest ()) (rest' ()) c₃ (fun i c' => Grown ts s i.tree c') := by
    apply Yields.bind (.expect h₃.on "(")
    intro _ c₄ h₄
    have h₄' := h₃.trans h₄.passes.moves
    refine .bind (.commaList_moves h₄'.on ")" fun c₅ h₅ =>
      hg.fnParam h₅.on ((h₄'.trans h₅).moves.le hl₁)) fun r c₅ h₅ => ?_
    obtain ⟨params, trailing⟩ := r
    apply Yields.bind (.expect h₅.on ")")
    intro _ c₆ h₆
    apply Yields.bind (.skipTo h₆.passes.on _)
    intro _ c₇ h₇
    have h₇' := h₄'.trans (h₅.trans (h₆.passes.moves.trans h₇))
    refine .looksAt 0 "\x7b" ?_
    extract_lets node
    have hnode (c₈) (body : Option Block)
        (h₈ : AllGrown ts c₇ (body.toList.map Block.tree) c₈) :
        Yields ts (node body) (node body) c₈ (fun i c' => Grown ts s i.tree c') := by
      refine .spanFrom _ (.pure ?_)
      rw [Item.tree_fn]
      exact .node hs (hs₁.trans h₇'.moves) h₈ rfl
    refine .ite (fun _ => ?_) fun _ => ?_
    · exact .bind (hg.block h₇.on (h₇'.lt hl₁) .plain) fun b c₈ h₈ =>
        hnode c₈ (some b) (h₈.all h₇.on)
    · exact .bind (.expect h₇.on ";") fun _ c₈ h₈ => hnode c₈ none (.nil h₈.passes.moves)
  refine .ite (fun _ => ?_) fun _ => hrest c₂ h₂
  exact .bind (.skipGenerics h₂.on) fun _ c₃ h₃ => hrest c₃ (h₂.trans h₃.moves)

/-! ### Other items -/

theorem Reads.useItem (hg : g.Reads ts n g') (hs : s.On ts) (h : s.Moves ts c)
    (hl : c.rest.length ≤ n + 1) :
    Yields ts (g.useItem s.ahead) (g'.useItem s.ahead) c (fun i c' => Grown ts s i.tree c') := by
  apply Yields.bind (.expect h.on "use")
  intro _ c₁ h₁
  apply Yields.bind (hg.useTreeOf h₁.passes.on (Nat.le_of_lt_succ (h₁.passes.lt hl)) [])
  intro leaves c₂ h₂
  refine .bind (.expect h₂.on ";") fun _ c₃ h₃ => .spanFrom _ (.pure ?_)
  exact .node hs (h.trans_passes h₁.passes) (.nil (h₂.moves.trans h₃.passes.moves)) rfl

/-- Items up to where they end. -/
theorem Reads.items (hg : g.Reads ts n g') (hc : c.On ts) (hl : c.rest.length ≤ n)
    (braced : Bool) :
    Yields ts (items g.item braced) (items g'.item braced) c
      (fun is c' => AllGrown ts c (itemTrees is) c') := by
  refine .bind (Yields.collect (Q := fun c is _ c' => AllGrown ts c (itemTrees is) c') hc
    fun c₁ h₁ => ?_) fun r c₁ h₁ => .pure h₁
  refine .bind (.skipAttributes h₁.on) fun _ c₂ h₂ => .lookNext (fun _ => ?_) fun t us hr => ?_
  · refine .ite (fun _ => ?_) fun h => absurd rfl h
    exact .ite (fun _ => .rejectEnd _) fun _ => .pure (AllGrown.nil h₂)
  have hn : 0 < n :=
    Nat.lt_of_lt_of_le (by simp [hr]) (h₂.le (h₁.le hl))
  refine .looksAt 0 "\x7d" (.ite (fun _ => .pure (AllGrown.nil h₂)) fun _ => ?_)
  refine .bind (.accept h₂.on ";") fun _ c₃ h₃ => .ite (fun hf => .pure ?_) fun _ => ?_
  · have h := h₂.trans_passes (h₃.passes hf)
    exact ⟨h, fun _ _ _ hq => hq.before h.moves⟩
  · have h := h₂.trans h₃.moves
    refine .bind (hg.itemHere h.on hn (h.le (h₁.le hl))) fun i c₄ h₄ => .pure ?_
    have hi := h₄.before h₁.on h
    exact ⟨hi.passes, fun _ _ _ hq => hi.cons h₁.on hq⟩

theorem Reads.container (hg : g.Reads ts n g') (hs : s.On ts) (h : s.Moves ts c)
    (hl : c.rest.length ≤ n + 1) (kind : ContainerKind) :
    Yields ts (g.container s.ahead kind) (g'.container s.ahead kind) c
      (fun i c' => Grown ts s i.tree c') := by
  apply Yields.bind (.skip_one h.on)
  intro _ c₁ h₁
  have hl₁ : c₁.rest.length ≤ n := Nat.le_of_lt_succ (h₁.lt hl)
  apply Yields.bind (.skipTo h₁.on _)
  intro _ c₂ h₂
  have hs₂ := h.trans_passes (h₁.trans h₂)
  refine .bind (.accept h₂.on ";") fun _ c₃ h₃ => .ite (fun _ => .spanFrom _ (.pure ?_)) fun _ => ?_
  · exact .node hs hs₂ (.nil h₃.moves) rfl
  apply Yields.bind (.expect h₃.moves.on "\x7b")
  intro _ c₄ h₄
  have h₄' := h₂.trans (h₃.moves.trans h₄.passes.moves)
  apply Yields.bind (hg.items h₄'.on (h₄'.le hl₁) true)
  intro inner c₅ h₅
  refine .bind (.expect h₅.moves.on "\x7d") fun _ c₆ h₆ => .spanFrom _ (.pure ?_)
  exact .node hs ((h.trans_passes h₁).trans h₄') (h₅.behind h₆.passes.moves) rfl

theorem macroItem_yields (hs : s.On ts) (h : s.Moves ts c) :
    Yields ts (macroItem s.ahead) (macroItem s.ahead) c (fun i c' => Grown ts s i.tree c') := by
  apply Yields.bind (.skip_pos h.on Nat.two_pos)
  intro _ c₁ h₁
  apply Yields.bind (.acceptKind h₁.on .ident)
  intro _ c₂ h₂
  apply Yields.bind (.skipGroup h₂.moves.on)
  intro _ c₃ h₃
  refine .bind (.accept h₃.on ";") fun _ c₄ h₄ => .spanFrom _ (.pure ?_)
  exact .node hs (h.trans_passes h₁) (.nil (h₂.moves.trans (h₃.moves.trans h₄.moves))) rfl

theorem qualifier_yields (hc : c.On ts) :
    Yields ts qualifier qualifier c
      (fun found c' => c.Moves ts c' ∧ (found = true → c.Passes ts c')) := by
  have hskip : Yields ts (do skip 1; return true) (do skip 1; return true) c
      (fun found c' => c.Moves ts c' ∧ (found = true → c.Passes ts c')) :=
    .bind (.skip_one hc) fun _ c₁ h₁ => .pure ⟨h₁.moves, fun _ => h₁⟩
  have hnone : Yields ts (pure false) (pure false) c
      (fun found c' => c.Moves ts c' ∧ (found = true → c.Passes ts c')) :=
    .pure ⟨hc.stays, nofun⟩
  refine .looksAtOneOf 0 _ (.ite (fun _ => hskip) fun _ => ?_)
  refine .looksAt 0 _ (.looksAtOneOf 1 _ (.ite (fun _ => hskip) fun _ => ?_))
  refine .looksAt 0 _ (.ite (fun _ => ?_) fun _ => hnone)
  refine .looksAt 1 _ (.looksAtKind 1 _ (.looksAt 2 _ (.ite (fun _ => ?_) fun _ => hnone)))
  refine .bind (.skip_one hc) fun _ c₁ h₁ => .bind (.acceptKind h₁.on .string) fun _ c₂ h₂ => ?_
  have h := h₁.trans h₂.moves
  exact .pure ⟨h.moves, fun _ => h⟩

theorem qualifiers_yields (hc : c.On ts) :
    Yields ts qualifiers qualifiers c (fun _ c' => c.Moves ts c') := by
  refine .bind (.accept hc "pub") fun _ c₁ h₁ => ?_
  extract_lets rest
  have hrest (c₁) (h₁ : c.Moves ts c₁) :
      Yields ts (rest ()) (rest ()) c₁ (fun _ c' => c.Moves ts c') := by
    refine (Yields.repeat h₁.on fun c₂ h₂ => ?_).imp fun _ _ h => h₁.trans h
    refine .bind (qualifier_yields h₂.on) fun found c₃ ⟨h₃, hp⟩ => .ite (fun hf => ?_) fun _ => ?_
    · exact .pure ⟨h₃, fun _ => hp hf⟩
    · exact .pure ⟨h₃, nofun⟩
  refine .ite (fun _ => .looksAt 0 "(" (.ite (fun _ => ?_) fun _ => hrest c₁ h₁.moves)) fun _ =>
    hrest c₁ h₁.moves
  exact .bind (.skipGroup h₁.moves.on) fun _ c₂ h₂ => hrest c₂ (h₁.moves.trans h₂.moves)

theorem Reads.itemOf (hg : g.Reads ts n g') (hc : c.On ts) (hl : c.rest.length ≤ n + 1) :
    Yields ts g.itemOf g'.itemOf c (fun i c' => Grown ts c i.tree c') := by
  refine .bind (.skipAttributes hc) fun _ c₁ h₁ => .lookAhead 0 ?_
  refine .bind (qualifiers_yields h₁.on) fun _ c₂ h₂ => .lookNext (fun _ => .rejectEnd _) ?_
  intro t us hr
  rw [(h₂.trans_passes (h₂.on.passes hr)).begin]
  refine Yields.imp ?_ fun _ _ h => Grown.before hc h₁ h
  have hl₂ := h₂.le (h₁.le hl)
  refine .ite (fun _ => hg.fnItem h₁.on h₂ hl₂) fun _ => ?_
  refine .ite (fun _ => hg.useItem h₁.on h₂ hl₂) fun _ => ?_
  cases container? t with
  | some kind => exact hg.container h₁.on h₂ hl₂ kind
  | none =>
    refine .ite (fun _ => .reject ..) fun _ => .looksAt 1 _ (.ite (fun _ => ?_) fun _ => ?_)
    · exact macroItem_yields h₁.on h₂
    have hother (c₃) (h₃ : c₂.Passes ts c₃) :
        Grown ts c₁ (Item.other ⟨c₁.ahead, c₃.last, 0⟩).tree c₃ :=
      .node h₁.on (h₂.trans_passes h₃) (.nil h₃.on.stays) rfl
    refine .ite (fun _ => ?_) fun _ => ?_
    · refine .bind (.skipTo h₂.on _) fun _ c₃ h₃ => .bind (.expect h₃.on ";") fun _ c₄ h₄ => ?_
      exact .spanFrom _ (.pure (hother c₄ (h₃.trans_passes h₄.passes)))
    · exact .bind (.skipItemRest h₂.on) fun _ c₃ h₃ => .spanFrom _ (.pure (hother c₃ h₃))

end BuilderMigration.Grammar
