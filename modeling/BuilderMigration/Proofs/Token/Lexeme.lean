import BuilderMigration.Token.Lexeme

/-! The length of a token: at least one character and at most the text that is left. -/

namespace BuilderMigration.Lexeme

/-- A length found at the head of a text, if any, is positive and within the text. -/
def Within (cs : List Char) (o : Option Nat) : Prop := ∀ n, o = some n → 0 < n ∧ n ≤ cs.length

variable {cs ds : List Char} {o : Option Nat} {k n : Nat}

theorem Within.none : Within cs none := nofun

theorem Within.some (h : 0 < n) (hl : n ≤ cs.length) : Within cs (some n) := by
  intro m hm
  cases hm
  exact ⟨h, hl⟩

/-- A match behind some characters of the head. -/
theorem Within.more (h : Within cs o) (hl : cs.length + k ≤ ds.length) :
    Within ds (o.map (· + k)) := by
  intro n hn
  obtain ⟨m, hm, rfl⟩ := Option.map_eq_some_iff.1 hn
  have := h m hm
  omega

theorem Within.ite {b : Prop} [Decidable b] {o' : Option Nat} (h : b → Within cs o)
    (h' : ¬ b → Within cs o') : Within cs (if b then o else o') := by
  split
  · exact h ‹_›
  · exact h' ‹_›

theorem run_le (p : Char → Bool) (cs : List Char) : run p cs ≤ cs.length :=
  (List.takeWhile_sublist p).length_le

/-! ### Strings and characters -/

theorem rawRest_within (hashes : Nat) (cs : List Char) : Within cs (rawRest hashes cs) := by
  induction cs with
  | nil => exact .none
  | cons c cs ih =>
    refine .ite (fun hc => .some (Nat.succ_pos _) ?_) fun _ => ih.more (by simp)
    have hp := (List.isPrefixOf_iff_prefix.1 hc.2).length_le
    rw [List.length_replicate] at hp
    exact Nat.succ_le_succ hp

theorem quotedRest_within (cs : List Char) : Within cs (quotedRest cs) := by
  induction cs using quotedRest.induct with
  | case1 c cs ih => exact ih.more (by simp)
  | case2 => exact .none
  | case3 cs h₁ h₂ =>
    rw [quotedRest.eq_3 _ _ h₁ h₂, if_pos rfl]
    exact .some Nat.one_pos (by simp)
  | case4 c cs h₁ h₂ hc ih =>
    rw [quotedRest.eq_3 _ _ h₁ h₂, if_neg hc]
    exact ih.more (by simp)
  | case5 => exact .none

theorem string_within (cs : List Char) : Within cs (string cs) := by
  unfold string
  split
  · exact (quotedRest_within _).more (by simp)
  · exact (quotedRest_within _).more (by simp)
  · exact .none

theorem escapeRest_within (cs : List Char) : Within cs (escapeRest cs) := by
  unfold escapeRest
  split
  · exact .some (by omega) (by simp)
  · exact .ite (fun _ => .some (by omega) (by simp)) fun _ => .none
  · next cs =>
    dsimp only
    split
    · next h =>
      have := congrArg List.length h
      simp only [List.length_drop, List.length_cons] at this
      exact .some (by omega) (by simp only [List.length_cons]; omega)
    · exact .none
  · exact .ite (fun _ => .none) fun _ => .some (by omega) (by simp)
  · exact .none

theorem charRest_within (cs : List Char) : Within cs (charRest cs) := by
  unfold charRest
  split
  · exact (escapeRest_within _).more (by simp)
  · exact .ite (fun _ => .none) fun _ => .some (by omega) (by simp)
  · exact .none

theorem char_within (cs : List Char) : Within cs (char cs) := by
  unfold char
  split
  · exact (charRest_within _).more (by simp)
  · exact (charRest_within _).more (by simp)
  · exact .none

/-! ### Names and numbers -/

theorem name_within (cs : List Char) : Within cs (name cs) := by
  cases cs with
  | nil => exact .none
  | cons c cs =>
    have := run_le isNameChar cs
    exact .ite (fun _ => .some (by omega) (by simp only [List.length_cons]; omega)) fun _ => .none

theorem rawName_within (cs : List Char) : Within cs (rawName cs) := by
  unfold rawName
  split
  · exact (name_within _).more (by simp)
  · exact .none

theorem lifetime_within (cs : List Char) : Within cs (lifetime cs) := by
  unfold lifetime
  split
  · exact (name_within _).more (by simp)
  · exact .none

theorem fraction_le (cs : List Char) : fraction cs ≤ cs.length := by
  unfold fraction
  split
  · next cs =>
    have := run_le isDecimal cs
    simp only [List.length_cons]
    split
    · split <;> simp only [List.length_cons] at * <;> omega
    · omega
  · exact Nat.zero_le _

theorem exponent_le (cs : List Char) : exponent cs ≤ cs.length := by
  unfold exponent
  split
  · next mark cs =>
    split
    · extract_lets signs
      clear_value signs
      have := run_le isDecimal (cs.drop signs)
      rw [List.length_drop] at this
      split
      · exact Nat.zero_le _
      · next hne =>
        have hpos : run isDecimal (cs.drop signs) ≠ 0 := hne
        rw [List.length_cons]
        omega
    · exact Nat.zero_le _
  · exact Nat.zero_le _

theorem decimal_le (cs : List Char) : decimal cs ≤ cs.length := by
  have h₁ := run_le isDecimal cs
  have h₂ := fraction_le (cs.drop (run isDecimal cs))
  have h₃ := exponent_le (cs.drop (run isDecimal cs + fraction (cs.drop (run isDecimal cs))))
  simp only [List.length_drop] at h₂ h₃
  simp only [decimal]
  omega

theorem decimal_pos {c : Char} (h : c.isDigit = true) (cs : List Char) : 0 < decimal (c :: cs) := by
  have : run isDecimal (c :: cs) = run isDecimal cs + 1 := by
    simp [run, isDecimal, h]
  simp only [decimal]
  omega

theorem digits_within (p : Char → Bool) (h : cs.length + 2 ≤ ds.length) :
    Within ds (radix?.digits p cs) := by
  have := run_le p cs
  unfold radix?.digits
  split
  · exact .none
  · exact .some (by omega) (by omega)

theorem radix?_within (cs : List Char) : Within cs (radix? cs) := by
  unfold radix?
  split
  · exact digits_within _ (by simp)
  · exact digits_within _ (by simp)
  · exact digits_within _ (by simp)
  · exact .none

theorem Within.getD_le (h : Within cs o) : o.getD 0 ≤ cs.length := by
  cases o with
  | none => exact Nat.zero_le _
  | some n => exact (h n rfl).2

theorem number_within (cs : List Char) : Within cs (number cs) := by
  cases cs with
  | nil => exact .none
  | cons c cs =>
    refine .ite (fun hc => ?_) fun _ => .none
    have hdigits : 0 < (radix? (c :: cs)).getD (decimal (c :: cs)) ∧
        (radix? (c :: cs)).getD (decimal (c :: cs)) ≤ (c :: cs).length := by
      cases hr : radix? (c :: cs) with
      | none => exact ⟨decimal_pos hc cs, decimal_le _⟩
      | some n => exact radix?_within _ n hr
    have hsuffix := (name_within ((c :: cs).drop ((radix? (c :: cs)).getD (decimal (c :: cs))))).getD_le
    rw [List.length_drop] at hsuffix
    exact .some (by omega) (by omega)

/-! ### The head of a text -/

theorem punct_within (cs : List Char) : Within cs (punct cs) := by
  unfold punct
  split
  · next m h =>
    have hmem : m ∈ longMarks := List.mem_of_find?_eq_some h
    have hp := List.find?_some (p := fun (m : String) => m.toList.isPrefixOf cs) h
    replace hp := (List.isPrefixOf_iff_prefix.1 hp).length_le
    rw [String.length_toList] at hp
    have hpos : ∀ m ∈ longMarks, 0 < m.length := by decide
    exact .some (hpos m hmem) hp
  · split
    · exact .ite (fun _ => .some Nat.one_pos (by simp)) fun _ => .none
    · exact .none

/-- A token of one of several classes. -/
theorem Within.orElse {o o' : Option (TokenKind × Nat)} (h : Within cs (o.map (·.2)))
    (h' : Within cs (o'.map (·.2))) : Within cs ((o <|> o').map (·.2)) := by
  cases o with
  | none => exact h'
  | some r => exact h

theorem token?_within (cs : List Char) : Within cs ((token? cs).map (·.2)) := by
  have hclass {o : Option Nat} (kind : TokenKind) (h : Within cs o) :
      Within cs ((o.map (kind, ·)).map (·.2)) := by
    cases o <;> exact h
  exact .orElse (hclass _ (string_within cs)) <| .orElse (hclass _ (char_within cs)) <|
    .orElse (hclass _ (lifetime_within cs)) <| .orElse (hclass _ (number_within cs)) <|
    .orElse (hclass _ (rawName_within cs)) <| .orElse (hclass _ (name_within cs)) <|
    hclass _ (punct_within cs)

theorem rawStart?_start_le {before opened hashes : Nat}
    (h : rawStart?.start before cs = some (opened, hashes)) :
    before < opened ∧ opened ≤ before + cs.length := by
  simp only [rawStart?.start] at h
  split at h
  · next hdrop =>
    have := congrArg List.length hdrop
    simp only [List.length_drop, List.length_cons, Option.some.injEq, Prod.mk.injEq] at this h
    omega
  · cases h

/-- The opening of a raw string is within the text. -/
theorem rawStart?_le {opened hashes : Nat} (h : rawStart? cs = some (opened, hashes)) :
    0 < opened ∧ opened ≤ cs.length := by
  unfold rawStart? at h
  split at h
  · have := rawStart?_start_le h
    simp only [List.length_cons]
    omega
  · have := rawStart?_start_le h
    simp only [List.length_cons]
    omega
  · cases h

theorem tokenPiece_token {kind : TokenKind} (h : tokenPiece cs = .token kind n) :
    0 < n ∧ n ≤ cs.length := by
  unfold tokenPiece at h
  split at h
  · next opened hashes hraw =>
    have hopened := rawStart?_le hraw
    split at h
    · next rest hrest =>
      have := rawRest_within _ _ rest hrest
      rw [List.length_drop] at this
      cases h
      omega
    · cases h
  · split at h
    · next hk =>
      cases h
      exact token?_within cs n (by rw [hk]; rfl)
    · cases h

/-- A token has text, and its text is there. -/
theorem piece_token {kind : TokenKind} (h : piece cs = .token kind n) : 0 < n ∧ n ≤ cs.length := by
  unfold piece at h
  split at h
  · cases h
  · cases h
  · split at h <;> cases h
  · split at h
    · cases h
    · exact tokenPiece_token h

end BuilderMigration.Lexeme
