import BuilderMigration.Proofs.Origin.Makes

/-! Where reading ends: no expression and no item ends in a dot. So a statement has the same tokens
wherever it is copied to, since a dot is the only token that may become part of the one before it. -/

namespace BuilderMigration

variable {α β σ : Type}

/-- What is read between two cursors ends in a token that is no dot. -/
def Cursor.Closed (c c' : Cursor) : Prop :=
  ∃ t : Token, t.isPunct "." = false ∧ t :: c'.rest <:+ c.rest

namespace Cursor.Closed

variable {c c₁ c' : Cursor} {t : Token} {us : List Token}

theorem forward (h : c.Closed c') : c'.rest <:+ c.rest := by
  obtain ⟨t, -, h⟩ := h
  exact (List.suffix_cons t c'.rest).trans h

theorem behind (h : c₁.rest <:+ c.rest) (h' : c₁.Closed c') : c.Closed c' := by
  obtain ⟨t, ht, h'⟩ := h'
  exact ⟨t, ht, h'.trans h⟩

theorem keep (h : c.Closed c₁) (h' : c'.rest = c₁.rest ∨ c₁.Closed c') : c.Closed c' := by
  rcases h' with h' | h'
  · obtain ⟨t, ht, h⟩ := h
    exact ⟨t, ht, h' ▸ h⟩
  · exact behind h.forward h'

theorem head (hr : c.rest = t :: us) (ht : t.isPunct "." = false) : c.Closed ⟨us, t.hi⟩ :=
  ⟨t, ht, hr ▸ List.suffix_rfl⟩

/-- The last token that is read. -/
theorem getLast? (h : c.Closed c') (hread : c.rest = us ++ c'.rest) :
    ∀ t ∈ us.getLast?, t.isPunct "." = false := by
  obtain ⟨t, ht, vs, hvs⟩ := h
  have hus : us = vs ++ [t] := by
    refine List.append_cancel_right (?_ : us ++ c'.rest = vs ++ [t] ++ c'.rest)
    rw [← hread, ← hvs, List.append_assoc]
    rfl
  intro u hu
  rw [hus, List.getLast?_concat] at hu
  exact Option.some.inj hu ▸ ht

end Cursor.Closed

namespace Parse

/-- Reading only goes forward. -/
def Forward (p : Parse α) : Prop := ∀ c, Makes p c fun _ c' => c'.rest <:+ c.rest

/-- Reading ends behind a token that is no dot. -/
def Closes (p : Parse α) : Prop := ∀ c, Makes p c fun _ c' => c.Closed c'

/-- Reading ends so, or has read nothing. -/
def Tidy (p : Parse α) : Prop := ∀ c, Makes p c fun _ c' => c'.rest = c.rest ∨ c.Closed c'

variable {p q : Parse α} {f : α → Parse β} {P : α → Prop} {t : Token} {c : Cursor} {us : List Token}

theorem Closes.tidy (h : Closes p) : Tidy p := fun c => (h c).imp fun _ _ => .inr

theorem Tidy.forward (h : Tidy p) : Forward p := fun c => (h c).imp fun _ _ h =>
  h.elim (fun h => h ▸ List.suffix_rfl) (·.forward)

theorem Closes.forward (h : Closes p) : Forward p := h.tidy.forward

namespace Forward

theorem bind (hp : Forward p) (hf : ∀ a, Forward (f a)) : Forward (p >>= f) := fun c =>
  .bind (hp c) fun a c₁ h₁ => (hf a c₁).imp fun _ _ h => h.trans h₁

theorem looking (hp : Looks p P) (hf : ∀ a, Forward (f a)) : Forward (p >>= f) := fun c =>
  .looking hp fun a _ => hf a c

theorem ite {b : Prop} [Decidable b] (hp : Forward p) (hq : Forward q) :
    Forward (if b then p else q) := fun c => .ite (fun _ => hp c) fun _ => hq c

theorem pure {a : α} : Forward (Pure.pure a) := fun _ => .pure List.suffix_rfl

theorem throw {e : Failure} : Forward (throw e : Parse α) := fun _ => .throw e

theorem collect {turn : Parse (Turn α β)} (h : Forward turn) : Forward (collect turn) := by
  suffices hfuel : ∀ fuel, Forward (collectFrom turn fuel) from fun c => hfuel _ c
  intro fuel
  induction fuel with
  | zero => exact throw
  | succ fuel ih =>
    refine h.bind fun r => ?_
    cases r with
    | skip => exact ih
    | one a => exact ih.bind fun _ => pure
    | last a b => exact pure
    | stop b => exact pure

theorem iterate {step : σ → Parse (σ ⊕ β)} (h : ∀ s, Forward (step s)) (s : σ) :
    Forward (iterate step s) := by
  suffices hfuel : ∀ fuel s, Forward (iterateFrom step fuel s) from fun c => hfuel _ s c
  intro fuel
  induction fuel with
  | zero => exact fun _ => throw
  | succ fuel ih =>
    refine fun s => (h s).bind fun r => ?_
    cases r with
    | inl s' => exact ih s'
    | inr b => exact pure

theorem next : Forward next := by
  intro c _ c' h
  unfold Parse.next at h
  split at h
  · cases h
  · next t us hr =>
    obtain ⟨-, rfl⟩ := Prod.mk.inj (Except.ok.inj h)
    exact hr ▸ List.suffix_cons t us

theorem skip (n : Nat) : Forward (skip n) := by
  induction n with
  | zero => exact pure
  | succ n ih => exact next.bind fun _ => ih

theorem accept {v : String} : Forward (accept v) :=
  .looking (.looksAt 0 v) fun _ => .ite (next.bind fun _ => pure) pure

theorem acceptKind {kind : TokenKind} : Forward (acceptKind kind) :=
  .looking (.looksAtKind 0 kind) fun _ => .ite (next.bind fun _ => pure) pure

theorem expect {v : String} : Forward (expect v) := by
  refine .looking (.look 0) fun o => ?_
  cases o with
  | none => exact throw
  | some t => exact .ite next throw

theorem spanFrom {lo : Int} {g : Span → Parse β} (hg : ∀ s, Forward (g s)) :
    Forward (spanFrom lo >>= g) := fun c => .spanFrom lo (hg _ c)

theorem sweepFrom {judge : σ → Token → Verdict σ} {ended : Option Unfinished} {ds : List Delimiter} {s : σ}
    {last : Int} {c' : Cursor} (h : sweepFrom judge ended ds s last us = .ok c') : c'.rest <:+ us := by
  induction us generalizing ds s last with
  | nil =>
    cases ds with
    | nil =>
      cases ended <;> cases h
      exact List.suffix_rfl
    | cons d ds => cases h
  | cons t us ih =>
    have hgo {ds s} (h : Parse.sweepFrom judge ended ds s t.hi us = .ok c') : c'.rest <:+ t :: us :=
      (ih h).trans (List.suffix_cons t us)
    cases ds with
    | nil =>
      rw [Parse.sweepFrom] at h
      split at h
      · obtain rfl := Except.ok.inj h
        exact List.suffix_rfl
      · cases h
      · exact hgo h
    | cons d ds =>
      rw [Parse.sweepFrom] at h
      split at h
      · exact hgo h
      · split at h
        · split at h
          · exact hgo h
          · cases h
        · exact hgo h

theorem sweep (judge : σ → Token → Verdict σ) (ended : Option Unfinished) (s : σ) :
    Forward (sweep judge ended s) := by
  intro c
  refine .peek (a := c) rfl ?_
  cases h : Parse.sweepFrom judge ended [] s c.last c.rest with
  | ok c' =>
    intro _ _ hset
    obtain ⟨-, rfl⟩ := Prod.mk.inj (Except.ok.inj (hset : Except.ok ((), c') = _))
    exact sweepFrom h
  | error e => exact .throw _

end Forward

namespace Tidy

theorem pure (a : α) : Tidy (Pure.pure a) := fun _ => .pure (.inl rfl)

theorem looking (hp : Looks p P) (hf : ∀ a, Tidy (f a)) : Tidy (p >>= f) := fun c =>
  .looking hp fun a _ => hf a c

theorem spanFrom {g : Span → Parse β} (lo : Int) (hg : ∀ s, Tidy (g s)) : Tidy (spanFrom lo >>= g) :=
  fun c => .spanFrom lo (hg _ c)

theorem bind (hp : Tidy p) (hf : ∀ a, Tidy (f a)) : Tidy (p >>= f) := fun c =>
  .bind (hp c) fun a c₁ h₁ => (hf a c₁).imp fun _ c' h => by
    rcases h₁ with h₁ | h₁
    · rcases h with h | h
      · exact .inl (h.trans h₁)
      · exact .inr (.behind (h₁ ▸ List.suffix_rfl) h)
    · exact .inr (h₁.keep h)

theorem ite {b : Prop} [Decidable b] (hp : Tidy p) (hq : Tidy q) : Tidy (if b then p else q) :=
  fun c => .ite (fun _ => hp c) fun _ => hq c

theorem iterate {step : σ → Parse (σ ⊕ β)} (h : ∀ s, Tidy (step s)) (s : σ) : Tidy (iterate step s) := by
  suffices hfuel : ∀ fuel s, Tidy (iterateFrom step fuel s) from fun c => hfuel _ s c
  intro fuel
  induction fuel with
  | zero => exact fun _ _ => .throw _
  | succ fuel ih =>
    refine fun s => (h s).bind fun r => ?_
    cases r with
    | inl s' => exact ih s'
    | inr b => exact pure b

end Tidy

/-! ### Single tokens -/

/-- The next token is read, which is no dot. -/
theorem Makes.nextClosed (hr : c.rest = t :: us) (ht : t.isPunct "." = false) :
    Makes next c fun _ c' => c.Closed c' := by
  intro _ c' h
  unfold Parse.next at h
  rw [hr] at h
  obtain ⟨-, rfl⟩ := Prod.mk.inj (Except.ok.inj h)
  exact .head hr ht

theorem Makes.skipClosed (hr : c.rest = t :: us) (ht : t.isPunct "." = false) :
    Makes (Parse.skip 1) c fun _ c' => c.Closed c' :=
  .bind (nextClosed hr ht) fun _ _ h => .pure h

theorem Token.not_dot_of_is {v : String} (h : t.is v = true) (hv : v ≠ ".") : t.isPunct "." = false := by
  rw [Token.is, Bool.and_eq_true, beq_iff_eq] at h
  rw [Token.isPunct, h.2, beq_false_of_ne hv, Bool.and_false]

theorem Token.not_dot_of_kind (h : t.kind ≠ .punct) : t.isPunct "." = false := by
  rw [Token.isPunct, beq_false_of_ne h, Bool.false_and]

theorem Token.not_dot_of_closes {d : Delimiter} (h : t.closes? = some d) : t.isPunct "." = false := by
  rw [Bool.eq_false_iff]
  intro hdot
  rw [Token.isPunct, Bool.and_eq_true, beq_iff_eq, beq_iff_eq] at hdot
  simp [Token.closes?, Token.isPunct, hdot.1, hdot.2] at h

namespace Closes

theorem bind (hp : Closes p) (hf : ∀ a, Tidy (f a)) : Closes (p >>= f) := fun c =>
  .bind (hp c) fun a c₁ h₁ => (hf a c₁).imp fun _ _ h => h₁.keep h

theorem behind (hp : Forward p) (hf : ∀ a, Closes (f a)) : Closes (p >>= f) := fun c =>
  .bind (hp c) fun a c₁ h₁ => (hf a c₁).imp fun _ _ h => .behind h₁ h

theorem looking (hp : Looks p P) (hf : ∀ a, Closes (f a)) : Closes (p >>= f) := fun c =>
  .looking hp fun a _ => hf a c

theorem throw (e : Failure) : Closes (throw e : Parse α) := fun _ => .throw e

theorem rejectAt (t : Token) (cause : SyntaxError.Cause) : Closes (Parse.rejectAt t cause : Parse α) :=
  throw _

theorem rejectEnd (during : Unfinished) : Closes (Parse.rejectEnd during : Parse α) := throw _

theorem ite {b : Prop} [Decidable b] (hp : Closes p) (hq : Closes q) : Closes (if b then p else q) :=
  fun c => .ite (fun _ => hp c) fun _ => hq c

/-- Turns that all read something. -/
theorem collect {turn : Parse (Turn α β)} (h : Closes turn) : Closes (collect turn) := by
  suffices hfuel : ∀ fuel, Closes (collectFrom turn fuel) from fun c => hfuel _ c
  intro fuel
  induction fuel with
  | zero => exact throw _
  | succ fuel ih =>
    refine h.bind fun r => ?_
    cases r with
    | skip => exact ih.tidy
    | one a => exact (ih.bind fun _ => .pure _).tidy
    | last a b => exact .pure _
    | stop b => exact .pure _

theorem expect {v : String} (hv : v ≠ ".") : Closes (expect v) := fun _ =>
  .lookNext (fun _ => .rejectEnd _) fun _ _ hr => .ite
    (fun ht => .nextClosed hr (Token.not_dot_of_is ht hv)) fun _ => .rejectAt _ _

theorem expectName : Closes expectName := fun _ =>
  .lookNext (fun _ => .rejectEnd _) fun t us hr => .ite
    (fun hk => .bind (.nextClosed hr (Token.not_dot_of_kind (by rw [hk]; decide))) fun _ _ h => .pure h)
    fun _ => .rejectAt _ _

/-- The token that closes the outermost group is the last one. -/
theorem closeGroups {ds : List Delimiter} {last : Int} {c' : Cursor} (hne : ds ≠ [])
    (h : closeGroups ds last us = .ok c') :
    ∃ t : Token, t.isPunct "." = false ∧ t :: c'.rest <:+ us := by
  induction us generalizing ds last with
  | nil =>
    cases ds with
    | nil => exact absurd rfl hne
    | cons d ds => cases h
  | cons t us ih =>
    have hgo {ds} (hne : ds ≠ []) (h : Parse.closeGroups ds t.hi us = .ok c') :
        ∃ u : Token, u.isPunct "." = false ∧ u :: c'.rest <:+ t :: us := by
      obtain ⟨u, hu, hsuffix⟩ := ih hne h
      exact ⟨u, hu, hsuffix.trans (List.suffix_cons t us)⟩
    cases ds with
    | nil => exact absurd rfl hne
    | cons d ds =>
      rw [Parse.closeGroups] at h
      split at h
      · exact hgo (List.cons_ne_nil _ _) h
      · cases hclose : t.closes? with
        | none =>
          simp only [hclose] at h
          exact hgo (List.cons_ne_nil _ _) h
        | some e =>
          simp only [hclose] at h
          split at h
          · by_cases hds : ds = []
            · subst hds
              have hdone : c' = ⟨us, t.hi⟩ := by
                cases us <;> exact (Except.ok.inj h).symm
              exact ⟨t, Token.not_dot_of_closes hclose, hdone ▸ List.suffix_rfl⟩
            · exact hgo hds h
          · cases h

theorem skipGroup : Closes skipGroup := by
  rw [skipGroup_eq]
  refine .behind .next fun t => ?_
  cases t.opens? with
  | none => exact .rejectAt _ _
  | some d =>
    intro c
    refine .peek (a := c) rfl ?_
    cases hclose : Parse.closeGroups [d] c.last c.rest with
    | error e => exact .throw _
    | ok c' =>
      intro _ _ h
      obtain ⟨-, rfl⟩ := Prod.mk.inj (Except.ok.inj (h : Except.ok ((), c') = _))
      exact closeGroups (by simp) hclose

end Closes

namespace Tidy

theorem accept {v : String} (hv : v ≠ ".") : Tidy (accept v) := fun _ =>
  .nextIs v (fun _ _ hr ht => .bind (.nextClosed hr (Token.not_dot_of_is ht hv)) fun _ _ h => .pure (.inr h))
    fun _ => .pure (.inl rfl)

theorem acceptKind {kind : TokenKind} (hk : kind ≠ .punct) : Tidy (acceptKind kind) := by
  intro c
  refine .looksAtKind 0 kind (.ite (fun h => ?_) fun _ => .pure (.inl rfl))
  cases hr : c.rest with
  | nil => simp [hr] at h
  | cons t us =>
    have ht : t.kind = kind := by simpa [hr] using h
    exact .bind (.nextClosed hr (Token.not_dot_of_kind (ht ▸ hk))) fun _ _ h => .pure (.inr h)

end Tidy

/-- A token that ends reading, or what comes where it is not there. -/
theorem Closes.acceptOr {v : String} (hv : v ≠ ".") (hp : Tidy p) (hq : Closes q) :
    Closes (do if ← accept v then p else q) := by
  intro c
  have haccept : Makes (accept v) c fun found c' => if found then c.Closed c' else c' = c :=
    .nextIs v (fun _ _ hr h => .bind (.nextClosed hr (Token.not_dot_of_is h hv)) fun _ _ h => .pure h)
      fun _ => .pure rfl
  refine .bind haccept fun found c₁ h₁ => ?_
  cases found with
  | true => exact (hp c₁).imp fun _ _ h => h₁.keep h
  | false => exact h₁ ▸ hq c₁

end Parse

end BuilderMigration
