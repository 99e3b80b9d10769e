import BuilderMigration.Proofs.Likeness.Alike

/-! Passing over groups, attributes and generic arguments in tokens that are like others. -/

namespace BuilderMigration.Parse

variable {M : Likeness} {b b' : Prop} {c c' : Cursor} {ts ts' : List Token} {last last' : Int}

/-- Two ways of passing over tokens that are alike: to cursors beside each other, or to errors. -/
inductive Passings (M : Likeness) (moved : Prop) :
    Except SyntaxError Cursor → Except SyntaxError Cursor → Prop where
  | ok {c c' : Cursor} (hc : c.Beside M moved c') : Passings M moved (.ok c) (.ok c')
  | error {e e' : SyntaxError} (h : M.same → e' = e) : Passings M moved (.error e) (.error e')

theorem Passings.keep {r r' : Except SyntaxError Cursor} (h : Passings M True r r') :
    Passings M b r r' := by
  cases h with
  | ok hc => exact .ok ⟨hc.rest, fun _ => hc.last trivial⟩
  | error h => exact .error h

/-- Tokens that are like each other are rejected for the same cause. -/
theorem Passings.reject {t t' : Token} (ht : t.Like M t') (cause : String → SyntaxError.Cause) :
    Passings M b (.error ⟨cause t.value, t.line, t.column⟩)
      (.error ⟨cause t'.value, t'.line, t'.column⟩) := by
  refine .error fun hsame => ?_
  obtain ⟨hvalue, hline, hcolumn⟩ := ht.same hsame
  rw [hvalue, hline, hcolumn]

theorem closeGroups_alike {ds : List Delimiter} (h : Together M ts ts')
    (hl : b → last' = M.place last) :
    Passings M b (closeGroups ds last ts) (closeGroups ds last' ts') := by
  induction h generalizing ds last last' b with
  | nil =>
    cases ds with
    | nil => exact .ok ⟨.nil, hl⟩
    | cons d ds => exact .error fun _ => rfl
  | @cons t t' ts ts' ht hjoin h ih =>
    have hnext (ds : List Delimiter) :
        Passings M b (closeGroups ds t.hi ts) (closeGroups ds t'.hi ts') :=
      .keep (ih (b := True) fun _ => ht.hi)
    cases ds with
    | nil => exact .ok ⟨.cons ht hjoin h, hl⟩
    | cons d ds =>
      simp only [closeGroups, ht.opens?, ht.closes?]
      cases t.opens? with
      | some e => exact hnext _
      | none =>
        cases t.closes? with
        | some e =>
          by_cases he : e = d
          · simpa [he] using hnext ds
          · simp only [he, if_false]
            exact .reject ht .mismatchedDelimiter
        | none => exact hnext _

/-- Judgements of two tokens that are the same, save for the value that a rejection gives. -/
inductive Verdict.Like {σ : Type} (t t' : Token) : Verdict σ → Verdict σ → Prop where
  | halt : Verdict.Like t t' .halt .halt
  | pass (s : σ) : Verdict.Like t t' (.pass s) (.pass s)
  | reject (cause : String → SyntaxError.Cause) :
    Verdict.Like t t' (.reject (cause t.value)) (.reject (cause t'.value))

theorem Verdict.Like.ite {σ : Type} {t t' : Token} {v v' w w' : Verdict σ} {x : Prop} [Decidable x]
    (hv : v.Like t t' v') (hw : w.Like t t' w') :
    Verdict.Like t t' (if x then v else w) (if x then v' else w') := by
  by_cases h : x
  · simpa [h] using hv
  · simpa [h] using hw

theorem sweepFrom_alike {σ : Type} {judge : σ → Token → Verdict σ} {ended : Option Unfinished}
    (hj : ∀ s t t', t.Like M t' → (judge s t).Like t t' (judge s t')) {ds : List Delimiter} {s : σ}
    (h : Together M ts ts') (hl : b → last' = M.place last) :
    Passings M b (sweepFrom judge ended ds s last ts) (sweepFrom judge ended ds s last' ts') := by
  induction h generalizing ds s last last' b with
  | nil =>
    cases ds with
    | nil =>
      cases ended with
      | none => exact .ok ⟨.nil, hl⟩
      | some during => exact .error fun _ => rfl
    | cons d ds => exact .error fun _ => rfl
  | @cons t t' ts ts' ht hjoin h ih =>
    have hnext (ds : List Delimiter) (s : σ) :
        Passings M b (sweepFrom judge ended ds s t.hi ts) (sweepFrom judge ended ds s t'.hi ts') :=
      .keep (ih (b := True) fun _ => ht.hi)
    cases ds with
    | nil =>
      simp only [sweepFrom, ht.opens?]
      have hlike := hj s t t' ht
      generalize judge s t = v at hlike ⊢
      generalize judge s t' = v' at hlike ⊢
      cases hlike with
      | halt => exact .ok ⟨.cons ht hjoin h, hl⟩
      | pass s' => exact hnext _ s'
      | reject cause => exact .reject ht cause
    | cons d ds =>
      simp only [sweepFrom, ht.opens?, ht.closes?]
      cases t.opens? with
      | some e => exact hnext _ s
      | none =>
        cases t.closes? with
        | some e =>
          by_cases he : e = d
          · simpa [he] using hnext ds s
          · simp only [he, if_false]
            exact .reject ht .mismatchedDelimiter
        | none => exact hnext _ s

/-- Going on from where passing over tokens led. -/
def landed : Except SyntaxError Cursor → Parse Unit
  | .ok c => set c
  | .error e => throw (.rejected e)

theorem Passings.ends {r r' : Except SyntaxError Cursor} (h : Passings M b r r') :
    Ends M b (fun _ _ => True) (landed r c) (landed r' c') := by
  cases h with
  | ok hc => exact .ok trivial hc
  | error h => exact .error (.rejected h)

theorem Alike.skipGroup : Alike M b True skipGroup skipGroup fun _ _ => True := by
  rw [skipGroup_eq]
  apply Alike.bind .next
  intro t t' ht
  rw [ht.opens?]
  cases t.opens? with
  | none => exact .reject ht (.expected _)
  | some d =>
    intro c c' hc
    have h : Passings M True (closeGroups [d] c.last c.rest) (closeGroups [d] c'.last c'.rest) :=
      closeGroups_alike hc.rest hc.last
    exact h.ends

theorem Alike.sweep {σ : Type} {judge : σ → Token → Verdict σ}
    (hj : ∀ s t t', t.Like M t' → (judge s t).Like t t' (judge s t')) (ended : Option Unfinished)
    (s : σ) : Alike M b b (sweep judge ended s) (sweep judge ended s) fun _ _ => True := by
  intro c c' hc
  have h : Passings M b (sweepFrom judge ended [] s c.last c.rest)
      (sweepFrom judge ended [] s c'.last c'.rest) := sweepFrom_alike hj hc.rest hc.last
  exact h.ends

theorem Alike.skipTo {stops : List String} (hstops : ∀ v ∈ stops, Asked v) :
    Alike M b b (skipTo stops) (skipTo stops) fun _ _ => True := by
  refine .sweep (fun _ t t' ht => ?_) _ _
  simp only [ht.isOneOf hstops, ht.closes?]
  exact .ite .halt (.ite (.reject .unbalancedDelimiter) (.pass _))

theorem Alike.skipItemRest : Alike M b True skipItemRest skipItemRest fun _ _ => True := by
  refine .bind (.sweep (fun _ t t' ht => ?_) _ _) fun _ _ _ => ?_
  · simp only [ht.isPunct, ht.closes?]
    exact .ite .halt (.ite (.reject .unbalancedDelimiter) (.pass _))
  apply Alike.accepting (by decide)
  · exact .pure trivial
  · apply Alike.bind .skipGroup
    intro _ _ _
    exact .bind (.accept (by decide)) fun _ _ _ => .pure trivial

theorem Alike.skipGenerics : Alike M b True skipGenerics skipGenerics fun _ _ => True := by
  apply Alike.bind (.expect (by decide))
  intro _ _ _
  refine .bind (.sweep (fun depth t t' ht => ?_) _ _) fun _ _ _ =>
    .bind .next fun _ _ _ => .pure trivial
  simp only [ht.isPunct]
  refine .ite (.pass _) (.ite ?_ (.pass _))
  cases depth with
  | zero => exact .halt
  | succ depth => exact .pass _

theorem Alike.skipAttributes : Alike M b b skipAttributes skipAttributes fun _ _ => True := by
  have hgroup (n : Nat) : Alike M b b (do Parse.skip n; Parse.skipGroup; return .inl () :
      Parse (Unit ⊕ Unit)) (do Parse.skip n; Parse.skipGroup; return .inl ()) (· = ·) := by
    apply Alike.bind (.skip n)
    intro _ _ _
    exact .past .skipGroup fun _ _ _ => .pure rfl
  apply Alike.repeat
  apply Alike.seeing (.nextIs (by decide))
  intro mark
  apply Alike.ite _ (.pure rfl)
  apply Alike.seeing (.looksAt 1 (by decide))
  intro opens
  apply Alike.ite (hgroup 1)
  apply Alike.seeing (.looksAt 1 (by decide))
  intro inner
  apply Alike.seeing (.looksAt 2 (by decide))
  intro opens
  exact .ite (hgroup 2) (.pure rfl)

end BuilderMigration.Parse
