import BuilderMigration.Proofs.Grammar.Yields

/-! Passing over groups, attributes and generic arguments: the cursor only ever moves on, and at a
mark that begins no attribute the attributes are passed over without a move. A group of tokens in
delimiters is passed over as a whole, whatever stands behind it, and within it there is a token behind
each one that closes no group. -/

namespace BuilderMigration.Parse

variable {ts us : List Token} {c c' : Cursor} {last : Int}

theorem closeGroups_moves {ds : List Delimiter} (h : Cursor.On ts ⟨us, last⟩)
    (hr : closeGroups ds last us = .ok c') : Cursor.Moves ts ⟨us, last⟩ c' := by
  induction us generalizing ds last with
  | nil =>
    cases ds with
    | nil => exact Except.ok.inj hr ▸ h.stays
    | cons d ds => simp [closeGroups] at hr
  | cons t us ih =>
    have hstep := h.passes rfl
    cases ds with
    | nil => exact Except.ok.inj (hr : Except.ok _ = _) ▸ h.stays
    | cons d ds =>
      simp only [closeGroups] at hr
      split at hr
      · exact hstep.moves.trans (ih hstep.on hr)
      · split at hr
        · split at hr
          · exact hstep.moves.trans (ih hstep.on hr)
          · simp at hr
        · exact hstep.moves.trans (ih hstep.on hr)

theorem sweepFrom_moves {σ : Type} {judge : σ → Token → Verdict σ} {ended : Option Unfinished}
    {ds : List Delimiter} {s : σ} (h : Cursor.On ts ⟨us, last⟩)
    (hr : sweepFrom judge ended ds s last us = .ok c') : Cursor.Moves ts ⟨us, last⟩ c' := by
  induction us generalizing ds s last with
  | nil =>
    cases ds with
    | nil =>
      cases ended with
      | none => exact Except.ok.inj (hr : Except.ok _ = _) ▸ h.stays
      | some during => simp [sweepFrom] at hr
    | cons d ds => simp [sweepFrom] at hr
  | cons t us ih =>
    have hstep := h.passes rfl
    cases ds with
    | nil =>
      simp only [sweepFrom] at hr
      split at hr
      · exact Except.ok.inj hr ▸ h.stays
      · simp at hr
      · exact hstep.moves.trans (ih hstep.on hr)
    | cons d ds =>
      simp only [sweepFrom] at hr
      split at hr
      · exact hstep.moves.trans (ih hstep.on hr)
      · split at hr
        · split at hr
          · exact hstep.moves.trans (ih hstep.on hr)
          · simp at hr
        · exact hstep.moves.trans (ih hstep.on hr)

theorem Yields.skipGroup (hc : c.On ts) :
    Yields ts skipGroup skipGroup c (fun _ c' => c.Passes ts c') := by
  rw [skipGroup_eq]
  apply Yields.bind (.next hc)
  intro t c₁ h₁
  cases t.opens? with
  | none => exact .reject ..
  | some d =>
    refine .peek (a := c₁) rfl ?_
    cases hr : closeGroups [d] c₁.last c₁.rest with
    | ok c₂ => exact ⟨rfl, h₁.passes.trans (closeGroups_moves h₁.passes.on hr)⟩
    | error e => exact .throw

theorem Yields.sweep {σ : Type} (hc : c.On ts) (judge : σ → Token → Verdict σ)
    (ended : Option Unfinished) (s : σ) :
    Yields ts (sweep judge ended s) (sweep judge ended s) c (fun _ c' => c.Moves ts c') := by
  refine .peek (a := c) rfl ?_
  cases hr : sweepFrom judge ended [] s c.last c.rest with
  | ok c₁ => exact ⟨rfl, sweepFrom_moves hc hr⟩
  | error e => exact .throw

theorem Yields.skipTo (hc : c.On ts) (stops : List String) :
    Yields ts (skipTo stops) (skipTo stops) c (fun _ c' => c.Moves ts c') := .sweep hc ..

theorem Yields.skipItemRest (hc : c.On ts) :
    Yields ts skipItemRest skipItemRest c (fun _ c' => c.Passes ts c') := by
  apply Yields.bind (.sweep hc ..)
  intro _ c₁ h₁
  refine .bind (.accept h₁.on ";") fun found c₂ h₂ => .ite (fun hf => ?_) fun _ => ?_
  · exact .pure (h₁.trans_passes (h₂.passes hf))
  · apply Yields.bind (.skipGroup h₂.moves.on)
    intro _ c₃ h₃
    apply Yields.bind (.accept h₃.on ";")
    intro _ c₄ h₄
    exact .pure ((h₁.trans h₂.moves).trans_passes (h₃.trans h₄.moves))

theorem Yields.skipGenerics (hc : c.On ts) :
    Yields ts skipGenerics skipGenerics c (fun _ c' => c.Passes ts c') := by
  apply Yields.bind (.expect hc "<")
  intro _ c₁ h₁
  apply Yields.bind (.sweep h₁.passes.on ..)
  intro _ c₂ h₂
  apply Yields.bind (.next h₂.on)
  intro _ c₃ h₃
  exact .pure (h₁.passes.trans (h₂.trans h₃.passes.moves))

/-- Passing over an attribute and the marks in front of its group. -/
theorem Yields.skipAttribute (hc : c.On ts) (n : Nat) {r : Unit ⊕ Unit} :
    Yields ts (do Parse.skip n; Parse.skipGroup; return r)
      (do Parse.skip n; Parse.skipGroup; return r) c
      (fun r' c' => r' = r ∧ c.Passes ts c') := by
  apply Yields.bind (.skip hc n)
  intro _ c₁ h₁
  exact .bind (.skipGroup h₁.on) fun _ c₂ h₂ => .pure ⟨rfl, h₁.trans_passes h₂⟩

/-- Attributes are passed over; a mark that is still next begins none. -/
theorem Yields.skipAttributes_stray (hc : c.On ts) :
    Yields ts skipAttributes skipAttributes c (fun _ c' => c.Moves ts c' ∧
      (c.Passes ts c' ∨ c' = c ∧ ∀ t us, c.rest = t :: us → t.isPunct "#" = true → StrayMark c.rest)) := by
  refine .iterate (I := fun _ c₁ => c.Passes ts c₁ ∨ c₁ = c) hc (.inr rfl) fun _ c₁ h₁ hi => ?_
  have hgo (n : Nat) : Yields ts (do Parse.skip n; Parse.skipGroup; return .inl () : Parse (Unit ⊕ Unit))
      (do Parse.skip n; Parse.skipGroup; return .inl ()) c₁ (StepLeads ts
        (fun _ c₁ => c.Passes ts c₁ ∨ c₁ = c) (fun _ c' => c.Moves ts c' ∧ (c.Passes ts c' ∨ c' = c ∧
          ∀ t us, c.rest = t :: us → t.isPunct "#" = true → StrayMark c.rest)) c₁) := by
    refine (Yields.skipAttribute h₁.on n).imp fun r c₂ ⟨hr, h₂⟩ => ?_
    subst hr
    exact ⟨h₂, .inl (h₁.trans_passes h₂)⟩
  refine .nextIs "#" (fun ⟨t, us, hr, ht⟩ => ?_) fun hno => ?_
  · refine .looksAt 1 "[" (.ite (fun _ => hgo 1) fun hb => ?_)
    refine .looksAt 1 "!" (.looksAt 2 "[" (.ite (fun _ => hgo 2) fun hm => ?_))
    refine .pure ⟨h₁, hi.imp_right fun he => ⟨he, fun t' us' hr' ht' => ?_⟩⟩
    subst he
    rw [hr'] at hb hm ⊢
    refine ⟨ht', ?_⟩
    rintro (h | h)
    · exact hb (by simpa using h)
    · exact hm (by simpa [Bool.and_eq_true] using h)
  · refine .pure ⟨h₁, hi.imp_right fun he => ⟨he, fun t us hr ht => ?_⟩⟩
    subst he
    have := hno t us hr
    simp_all [Token.is, Token.isPunct]

theorem Yields.skipAttributes (hc : c.On ts) :
    Yields ts skipAttributes skipAttributes c (fun _ c' => c.Moves ts c') :=
  (Yields.skipAttributes_stray hc).imp fun _ _ h => h.1

/-- At a mark that begins no attribute nothing is passed over. -/
theorem skipAttributes_stray (hm : StrayMark c.rest) : skipAttributes c = .ok ((), c) := by
  obtain ⟨_ | ⟨t, us⟩, last⟩ := c
  · exact hm.elim
  obtain ⟨ht, hno⟩ := hm
  have hnext : t.is "#" = true := by
    rw [Token.isPunct, Bool.and_eq_true] at ht
    rw [Token.is, ht.1, ht.2]
    rfl
  have hmark : (t :: us)[0]?.any (·.is "#") = true := hnext
  have hopen : ¬ (t :: us)[1]?.any (·.is "[") = true := fun h => hno (.inl h)
  have hinner : ¬ ((t :: us)[1]?.any (·.is "!") && (t :: us)[2]?.any (·.is "[")) = true :=
    fun h => hno (.inr (Bool.and_eq_true_iff.1 h))
  have hlook (k : Nat) (v : String) :
      looksAt k v ⟨t :: us, last⟩ = .ok ((t :: us)[k]?.any (·.is v), ⟨t :: us, last⟩) := rfl
  refine iterate_of_stop ?_
  rw [nextIs, bind_of_ok (hlook 0 "#"), if_pos hmark, bind_of_ok (hlook 1 "["), if_neg hopen,
    bind_of_ok (hlook 1 "!"), bind_of_ok (hlook 2 "["), if_neg hinner]
  rfl

end BuilderMigration.Parse

/-! ### Groups in delimiters -/

namespace BuilderMigration

/-- Tokens in which every group that opens is closed by the delimiter of its kind, and no other group
closes. -/
inductive BalancedTokens : List Token → Prop
  | nil : BalancedTokens []
  | plain {t : Token} {ts : List Token} (ho : t.opens? = none) (hc : t.closes? = none)
      (hs : BalancedTokens ts) : BalancedTokens (t :: ts)
  | group {d : Delimiter} {t u : Token} {ts us : List Token} (ho : t.opens? = some d)
      (hc : u.closes? = some d) (hi : BalancedTokens ts) (hs : BalancedTokens us) :
      BalancedTokens (t :: (ts ++ u :: us))

/-- Balanced tokens between two delimiters of a kind. -/
structure TokenGroup where
  kind : Delimiter
  opener : Token
  inner : List Token
  closer : Token
  opens : opener.opens? = some kind
  closes : closer.closes? = some kind
  balanced : BalancedTokens inner

namespace TokenGroup

variable {G : TokenGroup} {ts : List Token}

def tokens (G : TokenGroup) : List Token := G.opener :: (G.inner ++ [G.closer])

theorem getLast?_of_suffix (hs : ts <:+ G.tokens) (hne : ts ≠ []) : ts.getLast? = some G.closer := by
  obtain ⟨us, hus⟩ := hs
  have hlast : (us ++ ts).getLast? = some G.closer := by
    rw [hus, tokens, ← List.cons_append, List.getLast?_concat]
  rwa [List.getLast?_append, List.getLast?_eq_some_getLast hne, Option.some_or,
    ← List.getLast?_eq_some_getLast hne] at hlast

/-- Behind a token of a group that closes none there is another. -/
theorem goes_on (hs : ts <:+ G.tokens) {j : Nat} {t : Token} (ht : ts[j]? = some t)
    (hc : t.closes? = none) : j + 1 < ts.length := by
  obtain ⟨hj, -⟩ := List.getElem?_eq_some_iff.1 ht
  refine Nat.lt_of_le_of_ne hj fun hlast => ?_
  have hne : ts ≠ [] := List.ne_nil_of_length_pos (by omega)
  have hcloser := getLast?_of_suffix hs hne
  rw [List.getLast?_eq_getElem?, ← hlast, Nat.add_sub_cancel, ht, Option.some.injEq] at hcloser
  have hcloses := G.closes
  rw [← hcloser, hc] at hcloses
  nomatch hcloses

end TokenGroup

theorem Token.opens?_of_closes? {t : Token} {d : Delimiter} (h : t.closes? = some d) :
    t.opens? = none := by
  have hv : t.kind = .punct ∧ (t.value = ")" ∨ t.value = "]" ∨ t.value = "\x7d") := by
    grind [Token.closes?, Token.isPunct]
  rcases hv with ⟨hk, hv | hv | hv⟩ <;> simp [Token.opens?, Token.isPunct, hk, hv]

namespace Parse

variable {d : Delimiter} {ds : List Delimiter} {last : Int} {t : Token} {ts us outer : List Token}

theorem closeGroups_plain (ho : t.opens? = none) (hc : t.closes? = none) :
    closeGroups (d :: ds) last (t :: ts) = closeGroups (d :: ds) t.hi ts := by
  simp only [closeGroups, ho, hc]

theorem closeGroups_opener {e : Delimiter} (ho : t.opens? = some e) :
    closeGroups (d :: ds) last (t :: ts) = closeGroups (e :: d :: ds) t.hi ts := by
  simp only [closeGroups, ho]

theorem closeGroups_closer (hc : t.closes? = some d) :
    closeGroups (d :: ds) last (t :: ts) = closeGroups ds t.hi ts := by
  simp only [closeGroups, Token.opens?_of_closes? hc, hc, if_true]

/-- While a group is open, what was read last does not count. -/
theorem closeGroups_last (d : Delimiter) (ds : List Delimiter) (last last' : Int) (ts : List Token) :
    closeGroups (d :: ds) last ts = closeGroups (d :: ds) last' ts := by
  cases ts <;> rfl

/-- The search for a closing delimiter passes over balanced tokens. -/
theorem closeGroups_balanced (h : BalancedTokens ts) (us : List Token) :
    closeGroups (d :: ds) last (ts ++ us) = closeGroups (d :: ds) last us := by
  induction h generalizing d ds last us with
  | nil => rfl
  | @plain t ts ho hc _ ih =>
    exact (closeGroups_plain ho hc).trans ((ih us).trans (closeGroups_last ..))
  | @group e o u ts vs ho hc _ _ ihi ihs =>
    calc closeGroups (d :: ds) last (o :: (ts ++ u :: vs) ++ us)
        = closeGroups (e :: d :: ds) o.hi (ts ++ u :: (vs ++ us)) := by
          simp only [List.cons_append, List.append_assoc, closeGroups_opener ho]
      _ = closeGroups (e :: d :: ds) o.hi (u :: (vs ++ us)) := ihi _
      _ = closeGroups (d :: ds) u.hi (vs ++ us) := closeGroups_closer hc
      _ = closeGroups (d :: ds) u.hi us := ihs us
      _ = closeGroups (d :: ds) last us := closeGroups_last ..

theorem closeGroups_group (G : TokenGroup) (last : Int) (outer : List Token) :
    closeGroups [G.kind] last (G.inner ++ G.closer :: outer) = .ok ⟨outer, G.closer.hi⟩ := by
  rw [closeGroups_balanced G.balanced, closeGroups_closer G.closes, closeGroups]

/-- Behind the opening token of a group its end is searched for. -/
theorem readGroup_opener (ho : t.opens? = some d) (last : Int) (ts : List Token) :
    readGroup ⟨t :: ts, last⟩ =
      match closeGroups [d] t.hi ts with
      | .ok c => .ok ((Cursor.readTo ⟨ts, t.hi⟩ c).getLastD t, c)
      | .error e => .error (.rejected e) := by
  rw [readGroup, bind_of_ok (a := t) rfl]
  simp only [ho]
  rw [bind_of_ok rfl]
  cases closeGroups [d] t.hi ts <;> rfl

/-- A group is read to the token that closes it. -/
theorem readGroup_group (G : TokenGroup) (outer : List Token) (last : Int) :
    readGroup ⟨G.tokens ++ outer, last⟩ = .ok (G.closer, ⟨outer, G.closer.hi⟩) := by
  have htokens : G.tokens ++ outer = G.opener :: (G.inner ++ G.closer :: outer) := by
    simp [TokenGroup.tokens]
  have hread : Cursor.readTo ⟨G.inner ++ G.closer :: outer, G.opener.hi⟩ ⟨outer, G.closer.hi⟩ =
      G.inner ++ [G.closer] := by
    rw [Cursor.readTo, List.append_cons]
    refine List.take_left' ?_
    simp only [List.length_append]
    omega
  rw [htokens, readGroup_opener G.opens, closeGroups_group]
  dsimp only
  rw [hread, List.getLastD_concat]

/-- A group is passed over to the token that closes it. -/
theorem skipGroup_group (G : TokenGroup) (outer : List Token) (last : Int) :
    skipGroup ⟨G.tokens ++ outer, last⟩ = .ok ((), ⟨outer, G.closer.hi⟩) :=
  bind_of_ok (readGroup_group G outer last)

end Parse

end BuilderMigration
