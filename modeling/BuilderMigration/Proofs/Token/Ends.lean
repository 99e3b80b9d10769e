import BuilderMigration.Proofs.Token.Stands
import Mathlib.Data.List.Basic

/-! Where tokens end: never in a blank. Strings and characters end in their quotes, and no other token
holds a blank at all. -/

namespace BuilderMigration

namespace Lexeme

variable {c : Char} {cs : List Char} {k m n hashes : Nat} {o : Option Nat} {q : Char → Bool}

/-- No blank stands behind the first characters of a text, if any. -/
def Ends (cs : List Char) (n : Nat) : Prop := n ≠ 0 → ∀ c ∈ cs[n - 1]?, Text.isBlank c = false

theorem ends_zero : Ends cs 0 := fun h => absurd rfl h

/-- Behind some characters of the head. -/
theorem Ends.drop (h : Ends (cs.drop k) n) (hn : n ≠ 0) : Ends cs (k + n) := fun _ => by
  have hindex : k + n - 1 = k + (n - 1) := by omega
  rw [hindex, ← List.getElem?_drop]
  exact h hn

theorem Ends.add (hk : Ends cs k) (h : Ends (cs.drop k) n) : Ends cs (k + n) := by
  by_cases hn : n = 0
  · exact hn ▸ hk
  · exact h.drop hn

theorem Ends.cons (hc : Text.isBlank c = false) (h : Ends cs n) : Ends (c :: cs) (1 + n) := by
  refine Ends.add (fun _ d hd => ?_) h
  obtain rfl := Option.some.inj hd
  exact hc

/-! ### Runs -/

theorem not_isBlank_of_bounds (h : 33 ≤ c.toNat ∧ c.toNat ≤ 122) : Text.isBlank c = false := by
  simp only [Text.isBlank, Bool.or_eq_false_iff, Bool.and_eq_false_iff, decide_eq_false_iff_not,
    beq_eq_false_iff_ne]
  omega

theorem isDigit_bounds (h : c.isDigit = true) : 33 ≤ c.toNat ∧ c.toNat ≤ 122 := by
  simp only [Char.isDigit, Bool.and_eq_true, decide_eq_true_eq, ge_iff_le, UInt32.le_iff_toNat_le] at h
  exact ⟨Nat.le_trans (by decide) h.1, Nat.le_trans h.2 (by decide)⟩

theorem isNameChar_bounds (h : isNameChar c = true) : 33 ≤ c.toNat ∧ c.toNat ≤ 122 := by
  by_cases hd : c.isDigit = true
  · exact isDigit_bounds hd
  · have hstart : isNameStart c = true := by
      simpa [isNameChar, isNameStart, Char.isAlphanum, hd] using h
    have := isNameStart_bounds hstart
    omega

theorem not_isBlank_of_isNameChar (h : isNameChar c = true) : Text.isBlank c = false :=
  not_isBlank_of_bounds (isNameChar_bounds h)

theorem isDecimal_imp (h : isDecimal c = true) : isNameChar c = true := by
  simp only [isDecimal, isNameChar, Char.isAlphanum, Bool.or_eq_true] at h ⊢
  exact h.imp_left .inr

theorem isHex_imp (h : isHex c = true) : Text.isBlank c = false := by
  refine not_isBlank_of_bounds ?_
  simp only [isHex, isHexDigit, Bool.or_eq_true, Bool.and_eq_true, decide_eq_true_eq, beq_iff_eq,
    Char.le_def, UInt32.le_iff_toNat_le] at h
  rcases h with ((h | h) | h) | rfl
  · exact isDigit_bounds h
  · exact ⟨Nat.le_trans (by decide) h.1, Nat.le_trans h.2 (by decide)⟩
  · exact ⟨Nat.le_trans (by decide) h.1, Nat.le_trans h.2 (by decide)⟩
  · decide

theorem isOctal_imp (h : isOctal c = true) : Text.isBlank c = false := by
  refine not_isBlank_of_bounds ?_
  simp only [isOctal, Bool.or_eq_true, Bool.and_eq_true, decide_eq_true_eq, beq_iff_eq,
    Char.le_def, UInt32.le_iff_toNat_le] at h
  rcases h with h | rfl
  · exact ⟨Nat.le_trans (by decide) h.1, Nat.le_trans h.2 (by decide)⟩
  · decide

theorem isBinary_imp (h : isBinary c = true) : Text.isBlank c = false := by
  simp only [isBinary, Bool.or_eq_true, beq_iff_eq] at h
  rcases h with (rfl | rfl) | rfl <;> decide

theorem ends_run (hq : ∀ c, q c = true → Text.isBlank c = false) (cs : List Char) :
    Ends cs (run q cs) := by
  induction cs with
  | nil => exact ends_zero
  | cons c cs ih =>
    rw [run_cons]
    split
    · next hc =>
      rw [Nat.add_comm]
      exact ih.cons (hq c hc)
    · exact ends_zero

/-! ### Names and numbers -/

theorem ends_name (cs : List Char) : Ends cs ((name cs).getD 0) := by
  cases cs with
  | nil => exact ends_zero
  | cons c cs =>
    rw [name]
    split
    · next hc =>
      exact (ends_run (fun _ => not_isBlank_of_isNameChar) cs).cons (not_isBlank_of_isNameStart hc)
    · exact ends_zero

theorem ends_fraction (cs : List Char) : Ends cs (fraction cs) := by
  have hdot : Text.isBlank '.' = false := by decide
  have hrun := ends_run (q := isDecimal) fun _ h => not_isBlank_of_isNameChar (isDecimal_imp h)
  unfold fraction
  split
  · split
    · split
      · exact ends_zero
      · exact (hrun _).cons hdot
    · exact ends_zero.cons hdot
  · exact ends_zero

theorem ends_exponent (cs : List Char) : Ends cs (exponent cs) := by
  have hrun := ends_run (q := isDecimal) fun _ h => not_isBlank_of_isNameChar (isDecimal_imp h)
  unfold exponent
  split
  · next mark cs =>
    split
    · extract_lets signs
      clear_value signs
      split
      · exact ends_zero
      · next hne =>
        refine Ends.drop ?_ hne
        rw [Nat.add_comm, List.drop_succ_cons]
        exact hrun _
    · exact ends_zero
  · exact ends_zero

theorem ends_decimal (cs : List Char) : Ends cs (decimal cs) := by
  have hrun := ends_run (q := isDecimal) (fun _ h => not_isBlank_of_isNameChar (isDecimal_imp h)) cs
  exact (hrun.add (ends_fraction _)).add (ends_exponent _)

theorem ends_digits (hq : ∀ c, q c = true → Text.isBlank c = false) {c₁ c₂ : Char}
    (h : radix?.digits q cs = some n) : Ends (c₁ :: c₂ :: cs) n := by
  unfold radix?.digits at h
  split at h
  · cases h
  · next hne =>
    obtain rfl := Option.some.inj h
    rw [Nat.add_comm]
    exact Ends.drop (ends_run hq cs) hne

theorem ends_radix? (h : radix? cs = some n) : Ends cs n := by
  unfold radix? at h
  split at h
  · exact ends_digits (fun _ => isHex_imp) h
  · exact ends_digits (fun _ => isOctal_imp) h
  · exact ends_digits (fun _ => isBinary_imp) h
  · cases h

theorem ends_number (h : number cs = some n) : Ends cs n := by
  cases cs with
  | nil => cases h
  | cons c cs =>
    simp only [number, Option.ite_none_right_eq_some, Option.some.injEq] at h
    obtain ⟨-, rfl⟩ := h
    refine Ends.add ?_ (ends_name _)
    cases hr : radix? (c :: cs) with
    | none => exact ends_decimal _
    | some m => exact ends_radix? hr

/-! ### Strings and characters -/

theorem getElem?_quotedRest (h : quotedRest cs = some n) : cs[n - 1]? = some '"' := by
  induction cs using quotedRest.induct generalizing n with
  | case1 c cs ih =>
    simp only [quotedRest, Option.map_eq_some_iff] at h
    obtain ⟨m, hm, rfl⟩ := h
    have := (quotedRest_within _ m hm).1
    have hindex : m + 2 - 1 = m - 1 + 2 := by omega
    simpa [hindex] using ih hm
  | case2 => cases h
  | case3 cs h₁ h₂ =>
    rw [quotedRest.eq_3 _ _ h₁ h₂, if_pos rfl] at h
    obtain rfl := Option.some.inj h
    rfl
  | case4 c cs h₁ h₂ hc ih =>
    rw [quotedRest.eq_3 _ _ h₁ h₂, if_neg hc] at h
    obtain ⟨m, hm, rfl⟩ := Option.map_eq_some_iff.1 h
    have := (quotedRest_within _ m hm).1
    have hindex : m + 1 - 1 = m - 1 + 1 := by omega
    simpa [hindex] using ih hm
  | case5 => cases h

theorem getElem?_rawRest (h : rawRest hashes cs = some n) :
    cs[n - 1]? = some '"' ∨ cs[n - 1]? = some '#' := by
  induction cs generalizing n with
  | nil => cases h
  | cons c cs ih =>
    rw [rawRest] at h
    split at h
    · next hend =>
      obtain rfl := Option.some.inj h
      obtain ⟨rfl, hbegins⟩ := hend
      obtain ⟨rest, rfl⟩ := List.isPrefixOf_iff_prefix.1 hbegins
      cases hashes with
      | zero => exact .inl rfl
      | succ hashes =>
        right
        simp [List.getElem?_append]
    · obtain ⟨m, hm, rfl⟩ := Option.map_eq_some_iff.1 h
      have := lt_rawRest hm
      have hindex : m + 1 - 1 = m - 1 + 1 := by omega
      simpa [hindex] using ih hm

theorem getElem?_escapeRest (h : escapeRest cs = some n) : cs[n - 1]? = some '\'' := by
  unfold escapeRest at h
  split at h
  · obtain rfl := Option.some.inj h
    rfl
  · split at h
    · obtain rfl := Option.some.inj h
      rfl
    · cases h
  · next cs =>
    dsimp only at h
    split at h
    · next hdrop =>
      obtain rfl := Option.some.inj h
      have hindex : run isHex cs + 4 - 1 = run isHex cs + 1 + 2 := by omega
      have hquote : cs[run isHex cs + 1]? = some '\'' := by rw [← List.getElem?_drop, hdrop]; rfl
      simpa [hindex] using hquote
    · cases h
  · split at h
    · cases h
    · obtain rfl := Option.some.inj h
      rfl
  · cases h

theorem getElem?_charRest (h : charRest cs = some n) : cs[n - 1]? = some '\'' := by
  unfold charRest at h
  split at h
  · obtain ⟨m, hm, rfl⟩ := Option.map_eq_some_iff.1 h
    have := two_le_escapeRest hm
    have hindex : m + 1 - 1 = m - 1 + 1 := by omega
    simpa [hindex] using getElem?_escapeRest hm
  · split at h
    · cases h
    · obtain rfl := Option.some.inj h
      rfl
  · cases h

/-- Behind a quote, and perhaps a mark in front of it. -/
theorem ends_quoted {mark : Char} (hmark : Text.isBlank mark = false) (hn : n ≠ 0)
    (hquote : cs[n - 1]? = some mark) : Ends (c :: cs) (n + 1) := by
  rw [Nat.add_comm]
  refine Ends.drop (fun _ d hd => ?_) hn
  obtain rfl := Option.some.inj (hquote.symm.trans hd)
  exact hmark

theorem ends_string (h : string cs = some n) : Ends cs n := by
  have hmark : Text.isBlank '"' = false := by decide
  unfold string at h
  split at h
  · obtain ⟨m, hm, rfl⟩ := Option.map_eq_some_iff.1 h
    have := (quotedRest_within _ m hm).1
    exact ends_quoted hmark (by omega) (getElem?_quotedRest hm)
  · obtain ⟨m, hm, rfl⟩ := Option.map_eq_some_iff.1 h
    have := (quotedRest_within _ m hm).1
    have hindex : m + 1 - 1 = m - 1 + 1 := by omega
    exact ends_quoted hmark (by omega) (by simpa [hindex] using getElem?_quotedRest hm)
  · cases h

theorem ends_char (h : char cs = some n) : Ends cs n := by
  have hmark : Text.isBlank '\'' = false := by decide
  unfold char at h
  split at h
  · obtain ⟨m, hm, rfl⟩ := Option.map_eq_some_iff.1 h
    have := (charRest_within _ m hm).1
    exact ends_quoted hmark (by omega) (getElem?_charRest hm)
  · obtain ⟨m, hm, rfl⟩ := Option.map_eq_some_iff.1 h
    have := (charRest_within _ m hm).1
    have hindex : m + 1 - 1 = m - 1 + 1 := by omega
    exact ends_quoted hmark (by omega) (by simpa [hindex] using getElem?_charRest hm)
  · cases h

/-! ### The head of a text -/

theorem ends_name_behind {m : Nat} (hm : name (cs.drop k) = some m) : Ends cs (m + k) := by
  have hends := ends_name (cs.drop k)
  rw [hm] at hends
  rw [Nat.add_comm]
  exact hends.drop (Nat.ne_of_gt (name_within _ m hm).1)

theorem ends_rawName (h : rawName cs = some n) : Ends cs n := by
  unfold rawName at h
  split at h
  · obtain ⟨m, hm, rfl⟩ := Option.map_eq_some_iff.1 h
    exact ends_name_behind (k := 2) hm
  · cases h

theorem ends_lifetime (h : lifetime cs = some n) : Ends cs n := by
  unfold lifetime at h
  split at h
  · obtain ⟨m, hm, rfl⟩ := Option.map_eq_some_iff.1 h
    exact ends_name_behind (k := 1) hm
  · cases h

theorem ends_punct (h : punct cs = some n) : Ends cs n := by
  have hlong : ∀ m ∈ longMarks, m.toList.all (fun c => Text.isBlank c = false) = true := by decide
  have hshort : ∀ c ∈ shortMarks, Text.isBlank c = false := forall_of_all (by decide)
  unfold punct at h
  split at h
  · next m hfind =>
    obtain rfl := Option.some.inj h
    have hbegins := List.find?_some (p := fun (m : String) => m.toList.isPrefixOf cs) hfind
    obtain ⟨rest, rfl⟩ := List.isPrefixOf_iff_prefix.1 hbegins
    intro hne c hc
    rw [← String.length_toList] at hne hc
    rw [List.getElem?_append_left (by omega)] at hc
    exact forall_of_all (hlong m (List.mem_of_find?_eq_some hfind)) c (List.mem_of_getElem? hc)
  · split at h
    · next c cs _ =>
      split at h
      · next hc =>
        obtain rfl := Option.some.inj h
        intro _ d hd
        obtain rfl := Option.some.inj hd
        exact hshort _ (by simpa using hc)
      · cases h
    · cases h

theorem ends_token? {kind : TokenKind} (h : token? cs = some (kind, n)) : Ends cs n := by
  have hclass {o : Option Nat} (k : TokenKind) (ho : ∀ n, o = some n → Ends cs n) :
      ∀ n, o.map (k, ·) = some (kind, n) → Ends cs n := by
    rintro n hn
    obtain ⟨m, hm, heq⟩ := Option.map_eq_some_iff.1 hn
    obtain rfl := (Prod.mk.inj heq).2
    exact ho m hm
  have hor {o o' : Option (TokenKind × Nat)} (ho : ∀ n, o = some (kind, n) → Ends cs n)
      (ho' : ∀ n, o' = some (kind, n) → Ends cs n) :
      ∀ n, (o <|> o') = some (kind, n) → Ends cs n := by
    cases o with
    | none => exact ho'
    | some r => exact ho
  refine hor (hclass _ fun _ => ends_string) (hor (hclass _ fun _ => ends_char)
    (hor (hclass _ fun _ => ends_lifetime) (hor (hclass _ fun _ => ends_number)
    (hor (hclass _ fun _ => ends_rawName) (hor (hclass _ fun m hm => ?_)
    (hclass _ fun _ => ends_punct)))))) n h
  exact ends_name_behind (k := 0) hm

/-- A token does not end in a blank. -/
theorem ends_piece {kind : TokenKind} (h : piece cs = .token kind n) : Ends cs n := by
  have htoken := tokenPiece_of_piece h
  unfold tokenPiece at htoken
  split at htoken
  · next opened hashes hraw =>
    split at htoken
    · next rest hrest =>
      obtain ⟨-, rfl⟩ := Piece.token.inj htoken
      refine Ends.drop (fun _ d hd => ?_) (Nat.ne_of_gt (rawRest_within _ _ _ hrest).1)
      rcases getElem?_rawRest hrest with hquote | hquote
      · obtain rfl := Option.some.inj (hquote.symm.trans hd)
        decide
      · obtain rfl := Option.some.inj (hquote.symm.trans hd)
        decide
    · cases htoken
  · split at htoken
    · next hk =>
      obtain ⟨rfl, rfl⟩ := Piece.token.inj htoken
      exact ends_token? hk
    · cases htoken

end Lexeme

/-- A text that ends in a token does not end in a blank. -/
theorem Lexes.not_isBlank_getLast? {rest cs : List Char} {lo : Int} {ts : List Token}
    (h : Lexes rest lo cs ts) (hend : ∃ t ∈ ts, t.hi = lo + cs.length) :
    ∀ c ∈ cs.getLast?, Text.isBlank c = false := by
  induction h with
  | done => simp
  | @skip lo p cs ts _ _ h ih =>
    rw [List.length_append, Int.natCast_add, ← Int.add_assoc] at hend
    have hne : cs ≠ [] := by
      rintro rfl
      obtain ⟨t, ht, hhi⟩ := hend
      have := h.ordered.2 t ht
      simp only [List.length_nil] at this hhi
      omega
    rw [List.getLast?_append_of_ne_nil _ hne]
    exact ih hend
  | @token lo kind p cs ts hp hne h ih =>
    by_cases hcs : cs = []
    · subst hcs
      have hends := Lexeme.ends_piece hp
      intro c hc
      rw [List.append_nil, List.getLast?_eq_getElem?] at hc
      refine hends (by simpa using hne) c ?_
      rw [List.getElem?_append_left (by have := List.length_pos_iff.2 hne; omega)]
      exact hc
    · rw [List.getLast?_append_of_ne_nil _ hcs]
      refine ih ?_
      obtain ⟨t, ht, hhi⟩ := hend
      have hpos := List.length_pos_iff.2 hcs
      rw [List.length_append] at hhi
      rcases List.mem_cons.1 ht with rfl | ht
      · dsimp only at hhi
        omega
      · exact ⟨t, ht, by omega⟩

end BuilderMigration
