import BuilderMigration.Proofs.Token.Lexes

/-! Tokens in front of a break: a blank, a comma, a semicolon or a bracket. No token but a string or a
character goes on into one, so a text that ends in a token can be read in front of a break as well, and
is read there as before, save that a number takes a dot behind it along. In front of a raw name a text is
read as in front of any other name. -/

namespace BuilderMigration

namespace Lexeme

variable {c d : Char} {cs s r x v : List Char} {n hashes : Nat} {q : Char → Bool}

/-- Blanks, commas, semicolons and brackets. -/
def breaks : List Char := [' ', '\n', ',', ';', '(', ')', '[', ']', '\x7b', '\x7d']

/-- Breaks, and the letter that a raw name begins with. -/
def stops : List Char := 'r' :: breaks

/-- A text in front of `r` does not go on into `d` if it does not go on into `r`: `d` is a break, or it
begins a raw name and `r` is a name, too. -/
structure Stops (r : List Char) (d : Char) : Prop where
  mem : d ∈ stops
  named (h : d = 'r') : ∃ c ∈ r.head?, isNameStart c = true

theorem stops_of_break (hd : d ∈ breaks) (r : List Char) : Stops r d := by
  refine ⟨List.mem_cons_of_mem _ hd, ?_⟩
  rintro rfl
  exact absurd hd (by decide)

theorem stops_of_name (hc : isNameStart c = true) (u : List Char) : Stops (c :: u) 'r' :=
  ⟨List.mem_cons_self, fun _ => ⟨c, rfl, hc⟩⟩

theorem Stops.name_or_break (hd : Stops r d) :
    (d = 'r' ∧ ∃ c u, r = c :: u ∧ isNameStart c = true) ∨ d ∈ breaks := by
  rcases List.mem_cons.1 hd.mem with rfl | hmem
  · obtain ⟨c, hc, hstart⟩ := hd.named rfl
    obtain ⟨u, rfl⟩ := List.head?_eq_some_iff.1 hc
    exact .inl ⟨rfl, c, u, rfl, hstart⟩
  · exact .inr hmem

/-- Characters of a list are tried one by one, not all characters there are. -/
theorem forall_of_all {P : Char → Prop} [DecidablePred P] {l : List Char}
    (h : l.all (fun c => decide (P c)) = true) : ∀ c ∈ l, P c :=
  fun c hc => of_decide_eq_true (List.all_eq_true.1 h c hc)

/-! ### Strings and characters -/

theorem quotedRest_cons (hc : c ≠ '\\') (cs : List Char) :
    quotedRest (c :: cs) = if c = '"' then some 1 else (quotedRest cs).map (· + 1) :=
  quotedRest.eq_3 _ _ (fun _ _ h => absurd h hc) fun h => absurd h hc

/-- The end of a string is told by the string. -/
theorem quotedRest_append (h : quotedRest (s ++ r) = some n) (hn : n ≤ s.length) (v : List Char) :
    quotedRest (s ++ v) = some n := by
  induction s using quotedRest.induct generalizing n with
  | case1 c s ih =>
    simp only [List.cons_append, quotedRest, List.length_cons, Option.map_eq_some_iff] at h hn ⊢
    obtain ⟨m, hm, rfl⟩ := h
    exact ⟨m, ih hm (by omega), rfl⟩
  | case2 =>
    cases r with
    | nil => cases h
    | cons c r =>
      simp only [List.cons_append, List.nil_append, quotedRest, Option.map_eq_some_iff] at h
      obtain ⟨m, hm, rfl⟩ := h
      simp at hn
  | case3 s h₁ h₂ =>
    rw [List.cons_append, quotedRest_cons (by decide), if_pos rfl] at h ⊢
    exact h
  | case4 c s h₁ h₂ hc ih =>
    have hslash : c ≠ '\\' := by
      rintro rfl
      cases s with
      | nil => exact h₂ rfl rfl
      | cons c' s => exact h₁ c' s rfl rfl
    rw [List.cons_append, quotedRest_cons hslash, if_neg hc] at h ⊢
    obtain ⟨m, hm, rfl⟩ := Option.map_eq_some_iff.1 h
    rw [ih hm (by simpa using hn)]
    rfl
  | case5 =>
    have := (quotedRest_within _ _ h).1
    simp at hn
    omega

theorem lt_rawRest (h : rawRest hashes cs = some n) : hashes < n := by
  induction cs generalizing n with
  | nil => cases h
  | cons c cs ih =>
    rw [rawRest] at h
    split at h
    · obtain rfl := Option.some.inj h
      exact Nat.lt_succ_self _
    · obtain ⟨m, hm, rfl⟩ := Option.map_eq_some_iff.1 h
      exact Nat.lt_succ_of_lt (ih hm)

/-- The end of a raw string is told by the string. -/
theorem rawRest_append (h : rawRest hashes (s ++ r) = some n) (hn : n ≤ s.length) (v : List Char) :
    rawRest hashes (s ++ v) = some n := by
  induction s generalizing n with
  | nil =>
    have := lt_rawRest h
    simp at hn
    omega
  | cons c s ih =>
    rw [List.length_cons] at hn
    have hlt := lt_rawRest h
    have hbegins (w : List Char) : (List.replicate hashes '#').isPrefixOf (s ++ w) = true ↔
        List.replicate hashes '#' <+: s := by
      rw [List.isPrefixOf_iff_prefix]
      have hle : (List.replicate hashes '#').length ≤ s.length := by
        rw [List.length_replicate]
        omega
      exact ⟨fun hw => List.prefix_of_prefix_length_le hw (List.prefix_append s w) hle,
        fun hs => hs.trans (List.prefix_append s w)⟩
    simp only [List.cons_append, rawRest, hbegins] at h ⊢
    split at h
    · next hend => rw [if_pos hend, h]
    · next hend =>
      obtain ⟨m, hm, rfl⟩ := Option.map_eq_some_iff.1 h
      rw [if_neg hend, ih hm (by omega)]
      rfl

theorem two_le_escapeRest (h : escapeRest cs = some n) : 2 ≤ n := by
  unfold escapeRest at h
  split at h
  · cases h
    omega
  · split at h
    · cases h
      omega
    · cases h
  · dsimp only at h
    split at h
    · cases h
      omega
    · cases h
  · split at h
    · cases h
    · cases h
      omega
  · cases h

/-- The end of an escape is told by the escape. -/
theorem escapeRest_append (h : escapeRest (s ++ r) = some n) (hn : n ≤ s.length) (v : List Char) :
    escapeRest (s ++ v) = some n := by
  have htwo := two_le_escapeRest h
  obtain _ | ⟨c₁, _ | ⟨c₂, s⟩⟩ := s
  · simp at hn
    omega
  · simp at hn
    omega
  simp only [List.cons_append, List.length_cons] at h hn ⊢
  unfold escapeRest at h
  split at h
  · next hcs =>
    simp only [List.cons.injEq] at hcs
    obtain ⟨rfl, rfl, rfl⟩ := hcs
    exact h
  · next hcs =>
    split at h
    · next hhex =>
      obtain rfl := Option.some.inj h
      obtain _ | ⟨c₃, _ | ⟨c₄, s⟩⟩ := s
      · simp at hn
      · simp at hn
      simp only [List.cons_append, List.cons.injEq] at hcs
      obtain ⟨rfl, rfl, rfl, rfl, rfl⟩ := hcs
      rw [List.cons_append, List.cons_append, escapeRest.eq_2, if_pos hhex]
      grind
    · cases h
  · next hcs =>
    simp only [List.cons.injEq] at hcs
    obtain ⟨rfl, rfl, rfl⟩ := hcs
    dsimp only at h
    split at h
    · next t hdrop =>
      obtain rfl := Option.some.inj h
      have hrun : run isHex (s ++ v) = run isHex (s ++ r) := by
        rw [run_append] at hn ⊢
        rw [run_append]
        grind
      rw [List.drop_append_of_le_length (by omega)] at hdrop
      have hlen : 2 ≤ (s.drop (run isHex (s ++ r))).length := by
        rw [List.length_drop]
        omega
      rw [escapeRest.eq_3, hrun, List.drop_append_of_le_length (by omega)]
      generalize s.drop (run isHex (s ++ r)) = w at hdrop hlen
      obtain _ | ⟨c₁, _ | ⟨c₂, w⟩⟩ := w
      · simp at hlen
      · simp at hlen
      · simp only [List.cons_append, List.cons.injEq] at hdrop
        obtain ⟨rfl, rfl, -⟩ := hdrop
        rfl
    · cases h
  · next hcs =>
    split at h
    · cases h
    · next hline =>
      simp only [List.cons.injEq] at hcs
      obtain ⟨rfl, rfl, rfl⟩ := hcs
      rw [escapeRest.eq_4, if_neg hline, h]
      grind
  · cases h

/-- The end of a character is told by the character. -/
theorem charRest_append (h : charRest (s ++ r) = some n) (hn : n ≤ s.length) (v : List Char) :
    charRest (s ++ v) = some n := by
  have hpos := (charRest_within _ _ h).1
  obtain _ | ⟨c₁, s⟩ := s
  · simp at hn
    omega
  simp only [List.cons_append, List.length_cons] at h hn ⊢
  unfold charRest at h
  split at h
  · next hcs =>
    obtain ⟨rfl, rfl⟩ := List.cons.inj hcs
    obtain ⟨m, hm, rfl⟩ := Option.map_eq_some_iff.1 h
    rw [charRest, escapeRest_append hm (by omega)]
    rfl
  · next hcs =>
    split at h
    · cases h
    · next hbare =>
      obtain rfl := Option.some.inj h
      obtain _ | ⟨c₂, s⟩ := s
      · simp at hn
      · simp only [List.cons_append, List.cons.injEq] at hcs
        obtain ⟨rfl, rfl, rfl⟩ := hcs
        rw [List.cons_append, charRest.eq_2, if_neg hbare]
        grind
  · cases h

/-! ### Names and numbers -/

theorem isNameChar_of_isNameStart (h : isNameStart c = true) : isNameChar c = true := by
  rw [isNameStart, Bool.or_eq_true] at h
  rw [isNameChar, Char.isAlphanum]
  rcases h with h | h <;> simp [h]

variable (hd : Stops r d) (x : List Char)

include hd

/-- A run within a text stops at a break. -/
theorem run_break (hq : ∀ d ∈ stops, q d = false) (h : run q (s ++ r) ≤ s.length) :
    run q (s ++ d :: x) = run q (s ++ r) :=
  run_cut (by simpa using hq d hd.mem) h

theorem run_name_break (h : run isNameChar (s ++ r) ≤ s.length) :
    run isNameChar (s ++ d :: x) = run isNameChar (s ++ r) := by
  rcases hd.name_or_break with ⟨-, c, u, rfl, hc⟩ | hbreak
  · -- the run would go on into the name, so it ends before the end of the text
    have hchar : isNameChar c = true := isNameChar_of_isNameStart hc
    rw [run_append, run_cons, if_pos hchar] at h
    have hend : run isNameChar s < s.length := by
      split at h <;> omega
    rw [run_append, run_append, if_pos hend, if_pos hend]
  · have hq : ∀ d ∈ breaks, isNameChar d = false := forall_of_all (by decide)
    exact run_cut (by simpa using hq d hbreak) h

theorem name_break (h : (name (s ++ r)).getD 0 ≤ s.length) :
    name (s ++ d :: x) = name (s ++ r) := by
  cases s with
  | nil =>
    rw [List.nil_append, List.nil_append]
    cases hr : name r with
    | none =>
      have hstart : ∀ d ∈ breaks, isNameStart d = false := forall_of_all (by decide)
      rcases hd.name_or_break with ⟨-, c, u, rfl, hc⟩ | hbreak
      · simp [name, hc] at hr
      · simp [name, hstart d hbreak]
    | some n =>
      have := (name_within r n hr).1
      rw [List.nil_append, hr] at h
      simp at h
      omega
  | cons c s =>
    simp only [List.cons_append, name] at h ⊢
    by_cases hc : isNameStart c = true
    · simp only [hc, if_true, Option.getD_some, List.length_cons] at h ⊢
      rw [run_name_break (r := r) hd x (by omega)]
    · simp [hc]

omit hd in
/-- Behind a dot that belongs to no number stands another one, or a name. -/
def TakesDot (r : List Char) : Prop := ∃ c cs, r = c :: cs ∧ (c = '.' || isNameStart c) = true

omit hd in
theorem not_takesDot (hd : d ∈ breaks) (x : List Char) : ¬ TakesDot (d :: x) := by
  have hbreak : ∀ d ∈ breaks, (d = '.' || isNameStart d) = false := forall_of_all (by decide)
  rintro ⟨c, cs, hcs, hc⟩
  obtain ⟨rfl, -⟩ := List.cons.inj hcs
  rw [hbreak d hd] at hc
  cases hc

omit hd in
theorem fraction_of_ne (hc : c ≠ '.') (cs : List Char) : fraction (c :: cs) = 0 := by
  unfold fraction
  split
  · next hcs => exact absurd (List.cons.inj hcs).1 hc
  · rfl

theorem fraction_break (h : fraction (s ++ r) ≤ s.length) :
    fraction (s ++ d :: x) = fraction (s ++ r) ∨
      s = ['.'] ∧ d ∈ breaks ∧ TakesDot r ∧ fraction (s ++ r) = 0 ∧ fraction (s ++ d :: x) = 1 := by
  have hstop : ∀ d ∈ stops, d ≠ '.' ∧ isDecimal d = false := forall_of_all (by decide)
  obtain ⟨hdot, hdecimal⟩ := hstop d hd.mem
  obtain _ | ⟨c, s⟩ := s
  · rw [List.nil_append] at h
    exact .inl ((fraction_of_ne hdot x).trans (Nat.le_zero.1 h).symm)
  by_cases hc : c = '.'
  · subst hc
    obtain _ | ⟨c, s⟩ := s
    · rcases hd.name_or_break with ⟨rfl, c, u, rfl, hc⟩ | hbreak
      · -- a name takes the place of another one
        have hstart : isNameStart 'r' = true := by decide
        exact .inl (by simp [fraction, hc, hstart])
      have hname : ∀ d ∈ breaks, isNameStart d = false := forall_of_all (by decide)
      have hone : fraction ('.' :: d :: x) = 1 := by
        simp [fraction, hdot, hname d hbreak, run_cons, hdecimal]
      rcases Nat.le_one_iff_eq_zero_or_eq_one.1 h with h | h
      · refine .inr ⟨rfl, hbreak, ?_, h, hone⟩
        cases r with
        | nil => cases h
        | cons c r =>
          refine ⟨c, r, rfl, Decidable.byContradiction fun hc => ?_⟩
          simp only [List.singleton_append, fraction, if_neg hc] at h
          omega
      · exact .inl (hone.trans h.symm)
    · refine .inl ?_
      simp only [List.cons_append, fraction, List.length_cons] at h ⊢
      split
      · rfl
      · next hnext =>
        rw [if_neg hnext] at h
        have hrun := run_break (s := c :: s) (r := r) (q := isDecimal) hd x (forall_of_all (by decide))
          (by simp only [List.cons_append, List.length_cons]; omega)
        simp only [List.cons_append] at hrun
        rw [hrun]
  · exact .inl ((fraction_of_ne hc _).trans (fraction_of_ne hc _).symm)

/-- How many signs, at most one, stand at the head of a text. -/
def signs : List Char → Nat
  | c :: _ => if c = '+' ∨ c = '-' then 1 else 0
  | [] => 0

omit hd in
theorem exponent_cons (hc : c = 'e' ∨ c = 'E') (cs : List Char) :
    exponent (c :: cs) = if run isDecimal (cs.drop (signs cs)) = 0 then 0
      else 1 + signs cs + run isDecimal (cs.drop (signs cs)) := by
  have hmark : (decide (c = 'e') || decide (c = 'E')) = true := by simpa using hc
  unfold exponent
  dsimp only
  rw [if_pos hmark]
  obtain _ | ⟨c', cs⟩ := cs
  · rfl
  by_cases hplus : c' = '+'
  · subst hplus
    simp only [signs]
    split <;> simp_all
  by_cases hminus : c' = '-'
  · subst hminus
    simp only [signs]
    split <;> simp_all
  · simp only [signs, hplus, hminus, or_self, if_false]
    split <;> simp_all

omit hd in
theorem exponent_of_ne (hc : ¬ (c = 'e' ∨ c = 'E')) (cs : List Char) : exponent (c :: cs) = 0 := by
  have hmark : ¬ (decide (c = 'e') || decide (c = 'E')) = true := by simpa using hc
  unfold exponent
  dsimp only
  rw [if_neg hmark]

theorem exponent_break (h : exponent (s ++ r) ≤ s.length) :
    exponent (s ++ d :: x) = exponent (s ++ r) := by
  have hstop : ∀ d ∈ stops, ¬ (d = 'e' ∨ d = 'E') ∧ ¬ (d = '+' ∨ d = '-') ∧
      isDecimal d = false := forall_of_all (by decide)
  obtain ⟨hmark, hsign, hdecimal⟩ := hstop d hd.mem
  obtain _ | ⟨c, s⟩ := s
  · rw [List.nil_append] at h ⊢
    rw [List.nil_append, Nat.le_zero.1 h, exponent_of_ne hmark]
  by_cases hc : c = 'e' ∨ c = 'E'
  · simp only [List.cons_append, exponent_cons hc, List.length_cons] at h ⊢
    obtain _ | ⟨c, s⟩ := s
    · -- the mark stands alone: there are no digits in front of the break, nor were there before
      have hnone : run isDecimal ((d :: x).drop (signs (d :: x))) = 0 := by
        rw [signs, if_neg hsign]
        exact run_eq_zero (by simpa using hdecimal)
      rw [List.nil_append, List.nil_append, if_pos hnone] at *
      split at h
      · next hzero => rw [if_pos hzero]
      · simp at h
        omega
    · have hle : signs (c :: s) ≤ (c :: s).length := by
        rw [signs, List.length_cons]
        split <;> omega
      have hsame (w : List Char) : signs (c :: s ++ w) = signs (c :: s) := rfl
      rw [hsame, hsame, List.drop_append_of_le_length hle, List.drop_append_of_le_length hle] at *
      have hrun := run_break (s := (c :: s).drop (signs (c :: s))) (r := r) (q := isDecimal) hd x
        (forall_of_all (by decide)) (by rw [List.length_drop]; split at h <;> omega)
      rw [hrun]
  · rw [List.cons_append, List.cons_append, exponent_of_ne hc, exponent_of_ne hc]

theorem decimal_break (h : decimal (s ++ r) ≤ s.length) :
    decimal (s ++ d :: x) = decimal (s ++ r) ∨
      s.drop (decimal (s ++ r)) = ['.'] ∧ d ∈ breaks ∧ TakesDot r ∧
        decimal (s ++ d :: x) = s.length := by
  simp only [decimal] at h ⊢
  have hrun := run_break (s := s) (r := r) (q := isDecimal) hd x (forall_of_all (by decide)) (by omega)
  rw [hrun]
  generalize run isDecimal (s ++ r) = digits at h ⊢
  have hdigits (w : List Char) : (s ++ w).drop digits = s.drop digits ++ w :=
    List.drop_append_of_le_length (by omega)
  have hlen := List.length_drop (i := digits) (l := s)
  rw [hdigits, hdigits] at *
  rcases fraction_break (s := s.drop digits) (r := r) hd x (by omega) with
    hpart | ⟨hdot, hbreak, htakes, hzero, hone⟩
  · rw [hpart]
    generalize fraction (s.drop digits ++ r) = part at h ⊢
    have hparts (w : List Char) : (s ++ w).drop (digits + part) = s.drop (digits + part) ++ w :=
      List.drop_append_of_le_length (by omega)
    rw [hparts, hparts] at *
    rw [exponent_break (r := r) hd x (by rw [List.length_drop]; omega)]
    exact .inl rfl
  · -- the digits take the dot along
    refine .inr ?_
    rw [hdot] at hlen
    have hdot' (w : List Char) : exponent ('.' :: w) = 0 := exponent_of_ne (by decide) w
    have hmark : ∀ d ∈ stops, ¬ (d = 'e' ∨ d = 'E') := forall_of_all (by decide)
    have hend : (s ++ d :: x).drop (digits + 1) = d :: x := List.drop_left' (by simp at hlen; omega)
    rw [hone, hend, exponent_of_ne (hmark d hd.mem), hzero, Nat.add_zero, hdigits, hdot,
      List.singleton_append, hdot']
    refine ⟨hdot, hbreak, htakes, ?_⟩
    simp at hlen
    omega

theorem digits_break (hq : ∀ d ∈ stops, q d = false)
    (h : (radix?.digits q (s ++ r)).getD 0 ≤ s.length + 2) :
    radix?.digits q (s ++ d :: x) = radix?.digits q (s ++ r) := by
  have hrun : run q (s ++ r) ≤ s.length := by
    unfold radix?.digits at h
    split at h
    · next hzero =>
      rw [hzero]
      exact Nat.zero_le _
    · simpa using h
  unfold radix?.digits
  rw [run_break hd x hq hrun]

theorem radix?_break (h : (radix? (s ++ r)).getD 0 ≤ s.length) :
    radix? (s ++ d :: x) = radix? (s ++ r) := by
  have hstop : ∀ d ∈ stops, d ≠ '0' ∧ d ≠ 'x' ∧ d ≠ 'o' ∧ d ≠ 'b' := forall_of_all (by decide)
  obtain ⟨h0, hx, ho, hb⟩ := hstop d hd.mem
  have hlong {m : Nat} (hm : radix? (s ++ r) = some m) : 2 < s.length := by
    rw [hm, Option.getD_some] at h
    unfold radix? at hm
    have hdigits {q : Char → Bool} {t : List Char} (ht : radix?.digits q t = some m) : 2 < m := by
      unfold radix?.digits at ht
      split at ht
      · cases ht
      · next hne =>
        obtain rfl := Option.some.inj ht
        have : run q t ≠ 0 := hne
        omega
    split at hm
    · exact Nat.lt_of_lt_of_le (hdigits hm) h
    · exact Nat.lt_of_lt_of_le (hdigits hm) h
    · exact Nat.lt_of_lt_of_le (hdigits hm) h
    · cases hm
  obtain _ | ⟨c₁, _ | ⟨c₂, s⟩⟩ := s
  · cases hr : radix? ([] ++ r) with
    | some m => exact absurd (hlong hr) (by simp)
    | none =>
      rw [List.nil_append, radix?.eq_4] <;> simp_all
  · cases hr : radix? ([c₁] ++ r) with
    | some m => exact absurd (hlong hr) (by simp)
    | none =>
      rw [List.singleton_append, radix?.eq_4] <;> simp_all
  · simp only [List.cons_append, List.length_cons] at h ⊢
    unfold radix? at h ⊢
    split at h
    · next hcs =>
      simp only [List.cons.injEq] at hcs
      obtain ⟨rfl, rfl, rfl⟩ := hcs
      exact digits_break hd x (forall_of_all (by decide)) h
    · next hcs =>
      simp only [List.cons.injEq] at hcs
      obtain ⟨rfl, rfl, rfl⟩ := hcs
      exact digits_break hd x (forall_of_all (by decide)) h
    · next hcs =>
      simp only [List.cons.injEq] at hcs
      obtain ⟨rfl, rfl, rfl⟩ := hcs
      exact digits_break hd x (forall_of_all (by decide)) h
    · split <;> simp_all

/-- The type name behind the first characters of a text. -/
theorem suffix_break {m : Nat} (h : m + (name ((s ++ r).drop m)).getD 0 ≤ s.length) :
    (name ((s ++ d :: x).drop m)).getD 0 = (name ((s ++ r).drop m)).getD 0 := by
  have hdrop (w : List Char) : (s ++ w).drop m = s.drop m ++ w :=
    List.drop_append_of_le_length (by omega)
  rw [hdrop, hdrop] at *
  rw [name_break (r := r) hd x (by rw [List.length_drop]; omega)]

/-- A number in front of a break is the same, or it takes a dot along. -/
theorem number_break (h : number (s ++ r) = some n) (hn : n ≤ s.length) :
    number (s ++ d :: x) = some n ∨
      s.drop n = ['.'] ∧ d ∈ breaks ∧ TakesDot r ∧ number (s ++ d :: x) = some s.length := by
  have hpos := (number_within _ _ h).1
  obtain _ | ⟨c, s⟩ := s
  · simp at hn
    omega
  simp only [List.cons_append, number] at h ⊢
  split at h
  · next hc =>
    obtain rfl := Option.some.inj h
    simp only [hc, if_true, ← List.cons_append] at hn ⊢
    cases hr : radix? (c :: s ++ r) with
    | some m =>
      have hm := radix?_break (s := c :: s) (r := r) hd x (by rw [hr] at hn ⊢; simp at hn ⊢; omega)
      rw [hr, Option.getD_some] at hn
      rw [hm, hr, Option.getD_some, suffix_break (r := r) hd x hn]
      exact .inl rfl
    | none =>
      have hm := radix?_break (s := c :: s) (r := r) hd x (by rw [hr]; simp)
      rw [hr, Option.getD_none] at hn
      rw [hm, hr, Option.getD_none]
      rcases decimal_break (s := c :: s) (r := r) hd x (by omega) with
        heq | ⟨hdot, hbreak, htakes, hall⟩
      · rw [heq, suffix_break (r := r) hd x hn]
        exact .inl rfl
      · have hname : ∀ d ∈ breaks, isNameStart d = false := forall_of_all (by decide)
        have hold : name ((c :: s ++ r).drop (decimal (c :: s ++ r))) = none := by
          rw [List.drop_append_of_le_length (by omega), hdot]
          rfl
        have hnew : name ((c :: s ++ d :: x).drop (c :: s).length) = none := by
          rw [List.drop_left, name, if_neg (by simp [hname d hbreak])]
        simp only [Option.getD_none, hold, hall, hnew, Nat.add_zero]
        exact .inr ⟨hdot, hbreak, htakes, trivial⟩
  · cases h

/-! ### Other classes -/

theorem rawName_break (h : rawName (s ++ r) = some n) (hn : n ≤ s.length) :
    rawName (s ++ d :: x) = some n := by
  obtain _ | ⟨c₁, _ | ⟨c₂, s⟩⟩ := s
  · have := (rawName_within _ _ h).1
    simp at hn
    omega
  · unfold rawName at h
    split at h
    · obtain ⟨m, hm, rfl⟩ := Option.map_eq_some_iff.1 h
      simp at hn
    · cases h
  · simp only [List.cons_append, List.length_cons] at h hn ⊢
    unfold rawName at h
    split at h
    · next hcs =>
      simp only [List.cons.injEq] at hcs
      obtain ⟨rfl, rfl, rfl⟩ := hcs
      obtain ⟨m, hm, rfl⟩ := Option.map_eq_some_iff.1 h
      rw [rawName, name_break (r := r) hd x (by rw [hm, Option.getD_some]; omega), hm]
      rfl
    · cases h

/-- A mark of several characters in front of a break is one of the text before. -/
theorem prefix_break {m : String} (hm : m ∈ longMarks) :
    m.toList.isPrefixOf (s ++ d :: x) = true ↔ m.toList <+: s := by
  have hmarks : ∀ d ∈ stops, ∀ m ∈ longMarks, d ∉ m.toList := forall_of_all (by decide)
  rw [List.isPrefixOf_iff_prefix]
  refine ⟨fun h => ?_, fun h => h.trans (List.prefix_append s _)⟩
  rcases Nat.le_total m.toList.length s.length with hle | hle
  · exact List.prefix_of_prefix_length_le h (List.prefix_append s _) hle
  · -- the mark would have the break in it, unless it ends with the text
    obtain ⟨w, hw⟩ := List.prefix_of_prefix_length_le (List.prefix_append s _) h hle
    obtain _ | ⟨c, w⟩ := w
    · exact ⟨[], by simpa using hw.symm⟩
    · rw [← hw, List.prefix_append_right_inj, List.cons_prefix_cons] at h
      exact absurd (by simp [← hw, h.1]) (hmarks d hd.mem m hm)

theorem punct_break (h : punct (s ++ r) = some n) (hn : n ≤ s.length) :
    punct (s ++ d :: x) = some n := by
  have hold {m : String} (hs : m.toList <+: s) : m.toList.isPrefixOf (s ++ r) = true :=
    List.isPrefixOf_iff_prefix.2 (hs.trans (List.prefix_append s r))
  unfold punct at h ⊢
  split at h
  · next m hm =>
    obtain rfl := Option.some.inj h
    obtain ⟨hbegins, before, behind, hmarks, hno⟩ := List.find?_eq_some_iff_append.1 hm
    have hmem : m ∈ longMarks := List.mem_of_find?_eq_some hm
    have hfind : longMarks.find? (fun m => m.toList.isPrefixOf (s ++ d :: x)) = some m := by
      refine List.find?_eq_some_iff_append.2 ⟨?_, before, behind, hmarks, fun m' hm' => ?_⟩
      · rw [prefix_break hd x hmem]
        exact List.prefix_of_prefix_length_le (List.isPrefixOf_iff_prefix.1 hbegins)
          (List.prefix_append s r) (by rwa [String.length_toList])
      · rw [Bool.not_eq_true', Bool.eq_false_iff, Ne, prefix_break hd x (by simp [hmarks, hm'])]
        intro hs
        simpa [hold hs] using hno m' hm'
    rw [hfind]
  · next hnone =>
    have hfind : longMarks.find? (fun m => m.toList.isPrefixOf (s ++ d :: x)) = none := by
      rw [List.find?_eq_none] at hnone ⊢
      intro m hm hs
      exact hnone m hm (hold ((prefix_break hd x hm).1 hs))
    rw [hfind]
    cases s with
    | nil =>
      have hpos : n ≠ 0 := by
        rintro rfl
        split at h
        · split at h <;> cases h
        · cases h
      exact absurd (Nat.le_zero.1 hn) hpos
    | cons c s => exact h

/-! ### Raw strings -/

omit hd in
theorem rawStart_append {before opened : Nat}
    (h : rawStart?.start before (s ++ r) = some (opened, hashes)) (hle : opened ≤ before + s.length)
    (v : List Char) : rawStart?.start before (s ++ v) = some (opened, hashes) := by
  simp only [rawStart?.start] at h ⊢
  split at h
  · next t ht =>
    simp only [Option.some.injEq, Prod.mk.injEq] at h
    obtain ⟨rfl, rfl⟩ := h
    have hrun : run (· == '#') (s ++ v) = run (· == '#') (s ++ r) := by
      rw [run_append] at hle ⊢
      rw [run_append]
      grind
    rw [hrun, List.drop_append_of_le_length (by omega)]
    rw [List.drop_append_of_le_length (by omega)] at ht
    have hlen := List.length_drop (i := run (· == '#') (s ++ r)) (l := s)
    generalize s.drop (run (· == '#') (s ++ r)) = w at ht hlen ⊢
    cases w with
    | nil =>
      simp at hlen
      omega
    | cons c w =>
      obtain ⟨rfl, -⟩ := List.cons.inj ht
      rfl
  · cases h

theorem rawStart_le {before opened : Nat}
    (h : rawStart?.start before (s ++ d :: x) = some (opened, hashes)) :
    opened ≤ before + s.length := by
  have hstop : ∀ d ∈ stops, (d == '#') = false ∧ d ≠ '"' := forall_of_all (by decide)
  obtain ⟨hhash, hquote⟩ := hstop d hd.mem
  simp only [rawStart?.start] at h
  split at h
  · next t ht =>
    simp only [Option.some.injEq, Prod.mk.injEq] at h
    obtain ⟨rfl, rfl⟩ := h
    have hzero : run (· == '#') (d :: x) = 0 := run_eq_zero (by simpa using hhash)
    rw [run_append, hzero] at ht ⊢
    split
    · omega
    · next hall =>
      rw [if_neg hall, Nat.add_zero, List.drop_left] at ht
      exact absurd (List.cons.inj ht).1 hquote
  · cases h

theorem rawStart_break {before : Nat}
    (h : ∀ o, rawStart?.start before (s ++ r) = some o → o.1 ≤ before + s.length) :
    rawStart?.start before (s ++ d :: x) = rawStart?.start before (s ++ r) := by
  cases hr : rawStart?.start before (s ++ r) with
  | some o => exact rawStart_append hr (h o hr) _
  | none =>
    cases hb : rawStart?.start before (s ++ d :: x) with
    | none => rfl
    | some o =>
      rw [rawStart_append hb (rawStart_le hd x hb) r] at hr
      cases hr

/-- Whether a raw string begins is told in front of a break as before, if it begins in the text. -/
theorem rawStart?_break (hbyte : c = 'b' → s = [] → d ∈ breaks)
    (h : ∀ o, rawStart? (c :: s ++ r) = some o → o.1 ≤ (c :: s).length) :
    rawStart? (c :: s ++ d :: x) = rawStart? (c :: s ++ r) := by
  have hnone {c : Char} (hc : c ≠ 'r') (hc' : c ≠ 'b') (cs : List Char) : rawStart? (c :: cs) = none := by
    unfold rawStart?
    split <;> simp_all
  have hplain {c : Char} (hc : c ≠ 'r') (cs : List Char) : rawStart? ('b' :: c :: cs) = none := by
    unfold rawStart?
    split <;> simp_all
  by_cases hc : c = 'r'
  · subst hc
    exact rawStart_break hd x fun o ho => by simpa [Nat.add_comm] using h o ho
  by_cases hc' : c = 'b'
  · subst hc'
    obtain _ | ⟨c', s⟩ := s
    · have hshort : rawStart? ('b' :: r) = none := by
        cases ho : rawStart? ('b' :: r) with
        | none => rfl
        | some o =>
          have hlong : 2 < o.1 := by
            unfold rawStart? at ho
            split at ho
            · exact (rawStart?_start_le ho).1
            · simp_all
            · cases ho
          have := h o ho
          simp at this
          omega
      have hbreak : ∀ d ∈ breaks, d ≠ 'r' := forall_of_all (by decide)
      exact (hplain (hbreak d (hbyte rfl rfl)) x).trans hshort.symm
    by_cases hc' : c' = 'r'
    · subst hc'
      exact rawStart_break hd x fun o ho => by
        have := h o ho
        simp at this
        omega
    · exact (hplain hc' _).trans (hplain hc' _).symm
  · exact (hnone hc hc' _).trans (hnone hc hc' _).symm

/-! ### The classes by the first character -/

omit hd

theorem string_eq_none (h : c ≠ '"') (hb : c ≠ 'b') (cs : List Char) : string (c :: cs) = none := by
  unfold string
  split <;> simp_all

theorem char_eq_none (h : c ≠ '\'') (hb : c ≠ 'b') (cs : List Char) : char (c :: cs) = none := by
  unfold char
  split <;> simp_all

theorem lifetime_eq_none (h : c ≠ '\'') (cs : List Char) : lifetime (c :: cs) = none := by
  unfold lifetime
  split <;> simp_all

theorem number_eq_none (h : c.isDigit = false) (cs : List Char) : number (c :: cs) = none := by
  simp [number, h]

theorem rawName_eq_none (h : c ≠ 'r') (cs : List Char) : rawName (c :: cs) = none := by
  unfold rawName
  split <;> simp_all

theorem name_eq_none (h : isNameStart c = false) (cs : List Char) : name (c :: cs) = none := by
  simp [name, h]

/-- Every mark begins with one that is a mark alone. -/
theorem punct_eq_none (h : c ∉ shortMarks) (cs : List Char) : punct (c :: cs) = none := by
  have hlong : ∀ m ∈ longMarks, m.toList.head?.any (shortMarks.contains ·) = true := by decide
  have hfind : longMarks.find? (fun m => m.toList.isPrefixOf (c :: cs)) = none := by
    rw [List.find?_eq_none]
    intro m hm hbegins
    obtain ⟨d, hd, hmark⟩ := (Option.any_eq_true _ _).1 (hlong m hm)
    obtain ⟨w, hw⟩ := List.head?_eq_some_iff.1 hd
    rw [hw, List.isPrefixOf_iff_prefix, List.cons_prefix_cons] at hbegins
    exact h (hbegins.1 ▸ List.contains_iff_mem.1 hmark)
  rw [punct, hfind]
  exact if_neg (by simpa using h)

theorem token?_quote (cs : List Char) :
    token? ('"' :: cs) = (quotedRest cs).map (TokenKind.string, · + 1) := by
  rw [token?, char_eq_none (by decide) (by decide), lifetime_eq_none (by decide),
    number_eq_none (by decide), rawName_eq_none (by decide), name_eq_none (by decide),
    punct_eq_none (by decide)]
  simp only [string, Option.map_none]
  cases quotedRest cs <;> rfl

theorem token?_tick (cs : List Char) :
    token? ('\'' :: cs) = ((charRest cs).map (TokenKind.char, · + 1)
      <|> (name cs).map (TokenKind.lifetime, · + 1)) := by
  rw [token?, string_eq_none (by decide) (by decide), number_eq_none (by decide),
    rawName_eq_none (by decide), name_eq_none (by decide), punct_eq_none (by decide)]
  simp only [char, lifetime, Option.map_none]
  cases charRest cs <;> cases name cs <;> rfl

/-- Behind the classes of quotes. -/
theorem token?_plain (hq : c ≠ '"') (ht : c ≠ '\'') (hb : c ≠ 'b') (cs : List Char) :
    token? (c :: cs) = ((number (c :: cs)).map (TokenKind.number, ·)
      <|> (rawName (c :: cs)).map (TokenKind.ident, ·)
      <|> (name (c :: cs)).map (TokenKind.ident, ·)
      <|> (punct (c :: cs)).map (TokenKind.punct, ·)) := by
  rw [token?, string_eq_none hq hb, char_eq_none ht hb, lifetime_eq_none ht]
  rfl

theorem token?_byte (cs : List Char) :
    token? ('b' :: cs) = ((string ('b' :: cs)).map (TokenKind.string, ·)
      <|> (char ('b' :: cs)).map (TokenKind.char, ·)
      <|> (name ('b' :: cs)).map (TokenKind.ident, ·)) := by
  have hname : name ('b' :: cs) = some (1 + run isNameChar cs) := rfl
  rw [token?, lifetime_eq_none (by decide), number_eq_none (by decide), rawName_eq_none (by decide),
    hname]
  cases string ('b' :: cs) <;> cases char ('b' :: cs) <;> rfl

/-! ### Tokens in front of a break -/

include hd

/-- No name is cut or goes on behind a break. -/
theorem name_break_none (h : name (s ++ r) = none) : name (s ++ d :: x) = none := by
  rw [name_break (r := r) hd x (by rw [h]; exact Nat.zero_le _), h]

theorem rawName_break_none (h : rawName (c :: s ++ r) = none) : rawName (c :: s ++ d :: x) = none := by
  have hstop : ∀ d ∈ stops, d ≠ '#' := forall_of_all (by decide)
  have hhash := hstop d hd.mem
  by_cases hc : c = 'r'
  · subst hc
    obtain _ | ⟨c', s⟩ := s
    · unfold rawName
      split
      · next hcs => simp_all
      · rfl
    · by_cases hc' : c' = '#'
      · subst hc'
        simp only [List.cons_append, rawName, Option.map_eq_none_iff] at h ⊢
        exact name_break_none hd x h
      · simp only [List.cons_append]
        unfold rawName
        split
        · next hcs => simp_all
        · rfl
  · exact rawName_eq_none hc _

/-- Behind a tick that opens a lifetime there is no character, in front of a break neither. -/
theorem charRest_break_none {m : Nat} (h : charRest (s ++ r) = none) (hname : name (s ++ r) = some m)
    (hm : m ≤ s.length) : charRest (s ++ d :: x) = none := by
  have hstop : ∀ d ∈ stops, d ≠ '\'' := forall_of_all (by decide)
  have hpos := (name_within _ _ hname).1
  obtain _ | ⟨c, s⟩ := s
  · simp at hm
    omega
  have hc : isNameStart c = true := Decidable.byContradiction fun hc => by
    rw [List.cons_append, name_eq_none (by simpa using hc)] at hname
    cases hname
  have hslash : c ≠ '\\' := by
    rintro rfl
    cases hc
  have hbare : ¬ (c = '\'' ∨ c = '\n') := by
    rintro (rfl | rfl) <;> cases hc
  simp only [List.cons_append] at h ⊢
  unfold charRest
  split
  · next hcs => exact absurd (List.cons.inj hcs).1 hslash
  · next hcs =>
    have hcs := (List.cons.inj hcs).2
    obtain _ | ⟨c', s⟩ := s
    · exact absurd (List.cons.inj hcs).1 (hstop d hd.mem)
    · obtain ⟨rfl, -⟩ := List.cons.inj hcs
      simp [charRest, hbare] at h
  · rfl

theorem token?_plain_break {kind : TokenKind} (hq : c ≠ '"') (ht : c ≠ '\'') (hb : c ≠ 'b')
    (h : token? (c :: s ++ r) = some (kind, n)) (hn : n ≤ (c :: s).length) :
    token? (c :: s ++ d :: x) = some (kind, n) ∨
      (c :: s).drop n = ['.'] ∧ d ∈ breaks ∧ TakesDot r ∧
        token? (c :: s ++ d :: x) = some (kind, (c :: s).length) := by
  simp only [List.cons_append, token?_plain hq ht hb] at h ⊢
  rw [← List.cons_append] at h ⊢
  cases hnumber : number (c :: s ++ r) with
  | some m =>
    rw [hnumber] at h
    obtain ⟨rfl, rfl⟩ := Prod.mk.inj (Option.some.inj h)
    rcases number_break hd x hnumber hn with hsame | ⟨hdot, hbreak, htakes, hall⟩
    · rw [hsame]
      exact .inl rfl
    · rw [hall]
      exact .inr ⟨hdot, hbreak, htakes, rfl⟩
  | none =>
    have hdigit : c.isDigit = false := by
      rw [List.cons_append, number] at hnumber
      cases hc : c.isDigit with
      | true => simp [hc] at hnumber
      | false => rfl
    rw [hnumber] at h
    rw [List.cons_append, number_eq_none hdigit, ← List.cons_append]
    refine .inl ?_
    cases hraw : rawName (c :: s ++ r) with
    | some m =>
      rw [hraw] at h
      obtain ⟨rfl, rfl⟩ := Prod.mk.inj (Option.some.inj h)
      rw [rawName_break hd x hraw hn]
      rfl
    | none =>
      rw [hraw] at h
      rw [rawName_break_none hd x hraw]
      cases hname : name (c :: s ++ r) with
      | some m =>
        rw [hname] at h
        obtain ⟨rfl, rfl⟩ := Prod.mk.inj (Option.some.inj h)
        rw [name_break (r := r) hd x (by rw [hname]; exact hn), hname]
        rfl
      | none =>
        rw [hname] at h
        rw [name_break_none hd x hname]
        cases hpunct : punct (c :: s ++ r) with
        | some m =>
          rw [hpunct] at h
          obtain ⟨rfl, rfl⟩ := Prod.mk.inj (Option.some.inj h)
          rw [punct_break hd x hpunct hn]
          rfl
        | none =>
          rw [hpunct] at h
          cases h

omit hd in
theorem token?_quote_break {kind : TokenKind} (h : token? ('"' :: s ++ r) = some (kind, n))
    (hn : n ≤ ('"' :: s).length) : token? ('"' :: s ++ v) = some (kind, n) := by
  simp only [List.cons_append, token?_quote, Option.map_eq_some_iff] at h ⊢
  obtain ⟨m, hm, he⟩ := h
  obtain ⟨rfl, rfl⟩ := Prod.mk.inj he
  exact ⟨m, quotedRest_append hm (by simpa using hn) _, rfl⟩

theorem token?_tick_break {kind : TokenKind} (h : token? ('\'' :: s ++ r) = some (kind, n))
    (hn : n ≤ ('\'' :: s).length) : token? ('\'' :: s ++ d :: x) = some (kind, n) := by
  simp only [List.cons_append, token?_tick] at h ⊢
  cases hchar : charRest (s ++ r) with
  | some m =>
    rw [hchar] at h
    obtain ⟨rfl, rfl⟩ := Prod.mk.inj (Option.some.inj h)
    rw [charRest_append hchar (by simpa using hn)]
    rfl
  | none =>
    rw [hchar] at h
    cases hname : name (s ++ r) with
    | some m =>
      rw [hname] at h
      obtain ⟨rfl, rfl⟩ := Prod.mk.inj (Option.some.inj h)
      have hm : m ≤ s.length := by simpa using hn
      rw [charRest_break_none hd x hchar hname hm, name_break (r := r) hd x (by rw [hname]; exact hm),
        hname]
      rfl
    | none =>
      rw [hname] at h
      cases h

omit hd in
theorem tokenPiece_quote (hq : c = '"' ∨ c = '\'') (cs : List Char) :
    piece (c :: cs) = match token? (c :: cs) with
      | some (kind, n) => .token kind n
      | none => .fault (.strayText (String.ofList ((c :: cs).take 10))) := by
  have hraw : rawStart? (c :: cs) = none := by
    unfold rawStart?
    split <;> simp_all
  have hblank : Text.isBlank c = false := by rcases hq with rfl | rfl <;> decide
  have hslash : c ≠ '/' := by rcases hq with rfl | rfl <;> decide
  cases htoken : token? (c :: cs) <;>
    simp only [piece_of_token hblank hslash, tokenPiece, hraw, htoken]

variable {lo : Int} {ts : List Token}

omit hd in
theorem string_byte {cs : List Char} (h : string ('b' :: cs) = some n) :
    ∃ w m, cs = '"' :: w ∧ quotedRest w = some m ∧ n = m + 2 := by
  unfold string at h
  split at h
  · next hcs => cases hcs
  · next hcs =>
    obtain ⟨m, hm, rfl⟩ := Option.map_eq_some_iff.1 h
    exact ⟨_, m, (List.cons.inj hcs).2, hm, rfl⟩
  · cases h

omit hd in
theorem char_byte {cs : List Char} (h : char ('b' :: cs) = some n) :
    ∃ w m, cs = '\'' :: w ∧ charRest w = some m ∧ n = m + 2 := by
  unfold char at h
  split at h
  · next hcs => cases hcs
  · next hcs =>
    obtain ⟨m, hm, rfl⟩ := Option.map_eq_some_iff.1 h
    exact ⟨_, m, (List.cons.inj hcs).2, hm, rfl⟩
  · cases h

omit hd in
/-- A quote or a tick at the head of a text that is read begins a token. -/
theorem token?_of_lexes (hq : c = '"' ∨ c = '\'') (h : Lexes r lo (c :: s) ts) :
    ∃ kind m, token? (c :: s ++ r) = some (kind, m) ∧ m ≤ s.length + 1 := by
  obtain ⟨m, hm, hp⟩ := h.head
  rw [List.cons_append, tokenPiece_quote hq, ← List.cons_append] at hp
  cases ht : token? (c :: s ++ r) with
  | none =>
    rw [ht] at hp
    rcases hp with hp | ⟨kind, hp⟩ <;> cases hp
  | some o =>
    rw [ht] at hp
    rcases hp with hp | ⟨kind, hp⟩
    · cases hp
    · obtain ⟨-, rfl⟩ := Piece.token.inj hp
      exact ⟨_, _, rfl, hm⟩

omit hd in
theorem token?_byte_of_string (h : string ('b' :: cs) = some n) : token? ('b' :: cs) = some (.string, n) := by
  rw [token?_byte, h]
  rfl

omit hd in
theorem token?_byte_of_char (h : char ('b' :: cs) = some n) : token? ('b' :: cs) = some (.char, n) := by
  obtain ⟨w, -, rfl, -⟩ := char_byte h
  have hnone : string ('b' :: '\'' :: w) = none := rfl
  rw [token?_byte, hnone, h]
  rfl

omit hd in
theorem token?_byte_of_none (hs : string ('b' :: cs) = none) (hc : char ('b' :: cs) = none) :
    token? ('b' :: cs) = (name ('b' :: cs)).map (TokenKind.ident, ·) := by
  rw [token?_byte, hs, hc]
  rfl

omit hd in
/-- The name in front of a quote or a tick that does not belong to it is a token of its own. -/
theorem token?_byte_alone (hq : c = '"' ∨ c = '\'') (hs : string ('b' :: c :: cs) = none)
    (hc : char ('b' :: c :: cs) = none) : token? ('b' :: c :: cs) = some (.ident, 1) := by
  have hrun : run isNameChar (c :: cs) = 0 := run_eq_zero fun _ h => by
    obtain rfl := Option.mem_some_iff.1 h
    rcases hq with rfl | rfl <;> decide
  have hname : name ('b' :: c :: cs) = some (1 + run isNameChar (c :: cs)) := rfl
  rw [token?_byte_of_none hs hc, hname, hrun]
  rfl

omit hd in
theorem string_byte_append (h : string ('b' :: (s ++ r)) = some n) (hn : n ≤ ('b' :: s).length)
    (v : List Char) : string ('b' :: (s ++ v)) = some n := by
  obtain ⟨w, m, hw, hm, rfl⟩ := string_byte h
  cases s with
  | nil => simp at hn
  | cons c s =>
    obtain ⟨rfl, rfl⟩ := List.cons.inj hw
    rw [List.cons_append, string, quotedRest_append hm (by simpa using hn)]
    rfl

omit hd in
theorem char_byte_append (h : char ('b' :: (s ++ r)) = some n) (hn : n ≤ ('b' :: s).length)
    (v : List Char) : char ('b' :: (s ++ v)) = some n := by
  obtain ⟨w, m, hw, hm, rfl⟩ := char_byte h
  cases s with
  | nil => simp at hn
  | cons c s =>
    obtain ⟨rfl, rfl⟩ := List.cons.inj hw
    rw [List.cons_append, char, charRest_append hm (by simpa using hn)]
    rfl

/-- A byte string that goes on behind the text would leave a quote that is not read. -/
theorem string_byte_break_none (h : string ('b' :: (s ++ r)) = none)
    (hread : ∀ s', s = '"' :: s' → Lexes r lo s ts) : string ('b' :: (s ++ d :: x)) = none := by
  have hstop : ∀ d ∈ stops, d ≠ '"' := forall_of_all (by decide)
  cases hs : string ('b' :: (s ++ d :: x)) with
  | none => rfl
  | some m =>
    obtain ⟨w, -, hw, -⟩ := string_byte hs
    cases s with
    | nil => exact absurd (List.cons.inj hw).1 (hstop d hd.mem)
    | cons c s =>
      obtain ⟨rfl, -⟩ := List.cons.inj hw
      obtain ⟨kind, m, ht, -⟩ := token?_of_lexes (.inl rfl) (hread s rfl)
      rw [List.cons_append, token?_quote] at ht
      obtain ⟨m, hm, -⟩ := Option.map_eq_some_iff.1 ht
      rw [List.cons_append, string, hm] at h
      cases h

/-- So would a byte leave a tick, which may begin a lifetime. -/
theorem char_byte_break_none (h : char ('b' :: (s ++ r)) = none)
    (hread : ∀ s', s = '\'' :: s' → Lexes r lo s ts) : char ('b' :: (s ++ d :: x)) = none := by
  have hstop : ∀ d ∈ stops, d ≠ '\'' := forall_of_all (by decide)
  cases hs : char ('b' :: (s ++ d :: x)) with
  | none => rfl
  | some m =>
    obtain ⟨w, m, hw, hm, -⟩ := char_byte hs
    cases s with
    | nil => exact absurd (List.cons.inj hw).1 (hstop d hd.mem)
    | cons c s =>
      obtain ⟨rfl, rfl⟩ := List.cons.inj hw
      obtain ⟨kind, k, ht, hk⟩ := token?_of_lexes (.inr rfl) (hread s rfl)
      rw [List.cons_append, char, Option.map_eq_none_iff] at h
      rw [List.cons_append, token?_tick, h] at ht
      cases hname : name (s ++ r) with
      | none =>
        rw [hname] at ht
        cases ht
      | some j =>
        rw [hname] at ht
        obtain ⟨-, rfl⟩ := Prod.mk.inj (Option.some.inj ht)
        rw [List.append_eq, charRest_break_none hd x h hname (by omega)] at hm
        cases hm

/-- A byte, a byte string or a name that begins like one ends where it did. -/
theorem token?_byte_break {kind : TokenKind} (h : token? ('b' :: s ++ r) = some (kind, n))
    (hn : n ≤ ('b' :: s).length) (hnext : Lexes r lo (('b' :: s).drop n) ts) :
    token? ('b' :: s ++ d :: x) = some (kind, n) := by
  rw [List.cons_append] at h ⊢
  cases hstring : string ('b' :: (s ++ r)) with
  | some m =>
    rw [token?_byte_of_string hstring] at h
    obtain ⟨rfl, rfl⟩ := Prod.mk.inj (Option.some.inj h)
    exact token?_byte_of_string (string_byte_append hstring hn _)
  | none =>
    cases hchar : char ('b' :: (s ++ r)) with
    | some m =>
      rw [token?_byte_of_char hchar] at h
      obtain ⟨rfl, rfl⟩ := Prod.mk.inj (Option.some.inj h)
      exact token?_byte_of_char (char_byte_append hchar hn _)
    | none =>
      have hread (c : Char) (hc : c = '"' ∨ c = '\'') (s' : List Char) (hs : s = c :: s') :
          Lexes r lo s ts := by
        subst hs
        rw [List.cons_append] at h hstring hchar
        rw [token?_byte_alone hc hstring hchar] at h
        obtain ⟨-, rfl⟩ := Prod.mk.inj (Option.some.inj h)
        exact hnext
      have hstring' := string_byte_break_none hd x hstring (hread _ (.inl rfl))
      have hchar' := char_byte_break_none hd x hchar (hread _ (.inr rfl))
      rw [token?_byte_of_none hstring hchar] at h
      obtain ⟨k, hk, he⟩ := Option.map_eq_some_iff.1 h
      obtain ⟨rfl, rfl⟩ := Prod.mk.inj he
      have hname : name ('b' :: (s ++ d :: x)) = name ('b' :: (s ++ r)) :=
        name_break (s := 'b' :: s) (r := r) hd x (by rw [List.cons_append, hk]; exact hn)
      rw [token?_byte_of_none hstring' hchar', hname, hk]
      rfl

theorem token?_break {kind : TokenKind} (h : token? (c :: s ++ r) = some (kind, n))
    (hn : n ≤ (c :: s).length) (hnext : Lexes r lo ((c :: s).drop n) ts) :
    token? (c :: s ++ d :: x) = some (kind, n) ∨
      (c :: s).drop n = ['.'] ∧ d ∈ breaks ∧ TakesDot r ∧
        token? (c :: s ++ d :: x) = some (kind, (c :: s).length) := by
  by_cases hq : c = '"'
  · subst hq
    exact .inl (token?_quote_break h hn)
  by_cases ht : c = '\''
  · subst ht
    exact .inl (token?_tick_break hd x h hn)
  by_cases hb : c = 'b'
  · subst hb
    exact .inl (token?_byte_break hd x h hn hnext)
  exact token?_plain_break hd x hq ht hb h hn

/-- The letter of a byte is no token in front of a name. -/
theorem break_of_byte {kind : TokenKind} (h : tokenPiece ('b' :: r) = .token kind n) (hn : n ≤ 1) :
    d ∈ breaks := by
  refine hd.name_or_break.elim (fun hname => ?_) id
  obtain ⟨-, c, u, rfl, hc⟩ := hname
  have hquote : c ≠ '"' ∧ c ≠ '\'' := by
    constructor <;> rintro rfl <;> cases hc
  simp only [tokenPiece] at h
  split at h
  · next hraw =>
    split at h
    · next hrest =>
      have := (rawStart?_le hraw).1
      have := (rawRest_within _ _ _ hrest).1
      obtain ⟨-, rfl⟩ := Piece.token.inj h
      omega
    · cases h
  · have hname : name ('b' :: c :: u) = some (1 + run isNameChar (c :: u)) := rfl
    have hstring : string ('b' :: c :: u) = none := by
      unfold string
      split <;> simp_all
    have hchar : char ('b' :: c :: u) = none := by
      unfold char
      split <;> simp_all
    rw [token?_byte, hstring, hchar, hname, run_cons, if_pos (isNameChar_of_isNameStart hc)] at h
    obtain ⟨-, rfl⟩ := Piece.token.inj h
    omega

theorem tokenPiece_break {kind : TokenKind} (h : tokenPiece (c :: s ++ r) = .token kind n)
    (hn : n ≤ (c :: s).length) (hnext : Lexes r lo ((c :: s).drop n) ts) :
    tokenPiece (c :: s ++ d :: x) = .token kind n ∨
      (c :: s).drop n = ['.'] ∧ d ∈ breaks ∧ TakesDot r ∧
        tokenPiece (c :: s ++ d :: x) = .token kind (c :: s).length := by
  have hbyte : c = 'b' → s = [] → d ∈ breaks := by
    rintro rfl rfl
    exact break_of_byte hd h hn
  simp only [tokenPiece] at h ⊢
  cases ho : rawStart? (c :: s ++ r) with
  | some o =>
    obtain ⟨opened, hashes⟩ := o
    rw [ho] at h
    dsimp only at h
    split at h
    · next m hm =>
      obtain ⟨rfl, rfl⟩ := Piece.token.inj h
      have hopened : opened ≤ (c :: s).length := by omega
      have hraw : rawStart? (c :: s ++ d :: x) = some (opened, hashes) := by
        rw [rawStart?_break (r := r) hd x hbyte, ho]
        intro o hr
        obtain rfl := Option.some.inj (ho.symm.trans hr)
        exact hopened
      rw [List.drop_append_of_le_length hopened] at hm
      rw [hraw]
      dsimp only
      rw [List.drop_append_of_le_length hopened,
        rawRest_append hm (by rw [List.length_drop]; omega)]
      exact .inl rfl
    · cases h
  | none =>
    have hraw : rawStart? (c :: s ++ d :: x) = none := by
      rw [rawStart?_break (r := r) hd x hbyte, ho]
      rw [ho]
      exact nofun
    rw [ho] at h
    rw [hraw]
    dsimp only at h ⊢
    split at h
    · next htoken =>
      obtain ⟨rfl, rfl⟩ := Piece.token.inj h
      rcases token?_break hd x htoken hn hnext with hsame | ⟨hdot, hbreak, htakes, hall⟩
      · rw [hsame]
        exact .inl rfl
      · rw [hall]
        exact .inr ⟨hdot, hbreak, htakes, rfl⟩
    · cases h

omit hd in
theorem piece_of_mark (hb : Text.isBlank c = false)
    (hc : c = '/' → ∀ e ∈ cs.head?, e ≠ '/' ∧ e ≠ '*') : piece (c :: cs) = tokenPiece (c :: cs) := by
  unfold piece
  split
  · next hcs => cases hcs
  · next hcs =>
    obtain ⟨rfl, rfl⟩ := List.cons.inj hcs
    exact absurd rfl (hc rfl _ rfl).1
  · next hcs =>
    obtain ⟨rfl, rfl⟩ := List.cons.inj hcs
    exact absurd rfl (hc rfl _ rfl).2
  · next hcs =>
    obtain ⟨rfl, rfl⟩ := List.cons.inj hcs
    simp [hb]

omit hd in
theorem mark_of_piece {kind : TokenKind} (h : piece (c :: cs) = .token kind n) :
    Text.isBlank c = false ∧ (c = '/' → ∀ e ∈ cs.head?, e ≠ '/' ∧ e ≠ '*') := by
  unfold piece at h
  split at h
  · next hcs => cases hcs
  · cases h
  · split at h <;> cases h
  · next hslash hstar hcs =>
    obtain ⟨rfl, rfl⟩ := List.cons.inj hcs
    split at h
    · cases h
    · next hb =>
      refine ⟨by simpa using hb, ?_⟩
      rintro rfl e he
      obtain ⟨w, rfl⟩ : ∃ w, cs = e :: w := by
        cases cs with
        | nil => cases he
        | cons c w => exact ⟨w, by rw [Option.mem_some_iff.1 he]⟩
      constructor
      · rintro rfl
        exact hslash w rfl rfl
      · rintro rfl
        exact hstar w rfl rfl

omit hd in
theorem tokenPiece_of_piece {kind : TokenKind} (h : piece cs = .token kind n) :
    tokenPiece cs = .token kind n := by
  cases cs with
  | nil => cases h
  | cons c cs =>
    obtain ⟨hb, hc⟩ := mark_of_piece h
    rwa [piece_of_mark hb hc] at h

omit hd in
/-- A dot alone is a mark. -/
theorem kind_of_dot {kind : TokenKind} (h : piece ('.' :: cs) = .token kind 1) : kind = .punct := by
  have htoken := tokenPiece_of_piece h
  have hraw : rawStart? ('.' :: cs) = none := rfl
  rw [tokenPiece, hraw, token?_plain (by decide) (by decide) (by decide), number_eq_none (by decide),
    rawName_eq_none (by decide), name_eq_none (by decide)] at htoken
  cases hp : punct ('.' :: cs) with
  | none => simp [hp] at htoken
  | some n =>
    simp only [hp] at htoken
    exact (Piece.token.inj htoken).1.symm

/-- A token within a text is one in front of a break as well, unless it takes a dot along. -/
theorem piece_break {kind : TokenKind} (h : piece (s ++ r) = .token kind n) (hn : n ≤ s.length)
    (hnext : Lexes r lo (s.drop n) ts) :
    piece (s ++ d :: x) = .token kind n ∨
      s.drop n = ['.'] ∧ d ∈ breaks ∧ TakesDot r ∧ piece (s ++ d :: x) = .token kind s.length := by
  have hstop : ∀ d ∈ stops, d ≠ '/' ∧ d ≠ '*' := forall_of_all (by decide)
  obtain _ | ⟨c, s⟩ := s
  · have := (piece_token h).1
    simp at hn
    omega
  obtain ⟨hb, hc⟩ := mark_of_piece h
  have hold : piece (c :: s ++ r) = tokenPiece (c :: s ++ r) := piece_of_mark hb hc
  have hnew : piece (c :: s ++ d :: x) = tokenPiece (c :: s ++ d :: x) := by
    refine piece_of_mark hb fun hslash e he => ?_
    cases s with
    | nil =>
      obtain rfl := Option.mem_some_iff.1 he
      exact hstop _ hd.mem
    | cons c' s => exact hc hslash e he
  rw [hold] at h
  rw [hnew]
  exact tokenPiece_break hd x h hn hnext

omit hd in
/-- A token within a text is one in front of a raw name as well, if it is one in front of a name. -/
theorem piece_raw {kind : TokenKind} {u : List Char} (hc : isNameStart c = true)
    (h : piece (s ++ c :: u) = .token kind n) (hn : n ≤ s.length)
    (hnext : Lexes (c :: u) lo (s.drop n) ts) (v : List Char) :
    piece (s ++ 'r' :: v) = .token kind n := by
  have hletter : 'r' ∉ breaks := by decide
  rcases piece_break (stops_of_name hc u) v h hn hnext with hsame | ⟨-, hbreak, -⟩
  · exact hsame
  · exact absurd hbreak hletter

end Lexeme

namespace Lexes

open Lexeme (breaks TakesDot)

variable {d : Char} {s r : List Char} {lo : Int} {ts : List Token}

/-- A dot alone is a mark. -/
theorem eq_dot (h : Lexes r lo ['.'] ts) : ∃ t, ts = [t] ∧ t.isPunct "." = true := by
  have hfirst {p cs : List Char} (hp : p ++ cs = ['.']) (hne : p ≠ []) : p = ['.'] ∧ cs = [] := by
    obtain ⟨c, p, rfl⟩ := List.exists_cons_of_ne_nil hne
    obtain ⟨rfl, hnil⟩ := List.cons.inj hp
    obtain ⟨rfl, rfl⟩ := List.append_eq_nil_iff.1 hnil
    exact ⟨rfl, rfl⟩
  generalize hs : ['.'] = s at h
  cases h with
  | done => cases hs
  | @skip _ p cs _ hp hne _ =>
    obtain ⟨rfl, rfl⟩ := hfirst hs.symm hne
    have hmark : '.' = '/' → ∀ e ∈ r.head?, e ≠ '/' ∧ e ≠ '*' := fun h => absurd h (by decide)
    rw [List.nil_append, List.singleton_append, Lexeme.piece_of_mark (by decide) hmark,
      Lexeme.tokenPiece] at hp
    split at hp
    · split at hp <;> cases hp
    · split at hp <;> cases hp
  | @token _ kind p cs ts hp hne h =>
    obtain ⟨rfl, rfl⟩ := hfirst hs.symm hne
    have hts : ts = [] := List.eq_nil_iff_forall_not_mem.2 fun t ht => by
      have := h.ordered.2 t ht
      simp at this
      omega
    obtain rfl : kind = .punct := Lexeme.kind_of_dot hp
    exact ⟨_, by rw [hts], rfl⟩

/-- In front of a break a text that ends in a token has the same tokens, unless it ends in a dot that
goes with the number before it. -/
theorem before_break (h : Lexes r lo s ts) (hend : ∃ t ∈ ts, t.hi = lo + s.length) (hd : d ∈ breaks)
    (x : List Char) : ∃ us, Lexes (d :: x) lo s us ∧
      (us = ts ∨ TakesDot r ∧ us.length < ts.length ∧ ∃ t ∈ ts.getLast?, t.isPunct "." = true) ∧
      ∃ t ∈ us, t.hi = lo + s.length := by
  induction h with
  | done =>
    obtain ⟨t, ht, -⟩ := hend
    cases ht
  | @skip lo p cs ts hp hne h ih =>
    rw [List.length_append, Int.natCast_add, ← Int.add_assoc] at hend ⊢
    obtain ⟨us, hus, heq, hend'⟩ := ih hend
    refine ⟨us, .skip ?_ hne hus, heq, hend'⟩
    cases cs with
    | nil =>
      obtain ⟨t, ht, hhi⟩ := hend
      have := h.ordered.2 t ht
      simp at hhi this
      omega
    | cons c cs => exact Lexeme.piece_skip_append hp hne fun hc => by simp [hc]
  | @token lo kind p cs ts hp hne h ih =>
    have hpos := List.length_pos_iff.2 hne
    rw [← List.append_assoc] at hp
    have hnext : Lexes r (lo + p.length) ((p ++ cs).drop p.length) ts := by rwa [List.drop_left]
    rcases Lexeme.piece_break (Lexeme.stops_of_break hd r) x hp (by simp) hnext with
      hsame | ⟨hdot, -, htakes, hall⟩
    · by_cases hcs : cs = []
      · subst hcs
        have hts : ts = [] := List.eq_nil_iff_forall_not_mem.2 fun t ht => by
          have := h.ordered.2 t ht
          simp at this
          omega
        subst hts
        exact ⟨_, .token (by simpa using hsame) hne .done, .inl rfl, hend⟩
      · have hlen := List.length_pos_iff.2 hcs
        rw [List.length_append, Int.natCast_add, ← Int.add_assoc] at hend ⊢
        obtain ⟨us, hus, heq, hend'⟩ := ih (by
          obtain ⟨t, ht, hhi⟩ := hend
          rcases List.mem_cons.1 ht with rfl | ht
          · dsimp only at hhi
            omega
          · exact ⟨t, ht, hhi⟩)
        refine ⟨_, .token (by simpa using hsame) hne hus, ?_, ?_⟩
        · rcases heq with rfl | ⟨htakes, hlt, t, ht, hdot⟩
          · exact .inl rfl
          · refine .inr ⟨htakes, Nat.succ_lt_succ hlt, t, ?_, hdot⟩
            rw [List.getLast?_cons, Option.mem_def.1 ht]
            rfl
        · obtain ⟨t, ht, hhi⟩ := hend'
          exact ⟨t, List.mem_cons_of_mem _ ht, hhi⟩
    · rw [List.drop_left] at hdot
      subst hdot
      obtain ⟨t, rfl, hmark⟩ := h.eq_dot
      have hall : Lexes (d :: x) lo (p ++ ['.'] ++ []) [_] :=
        .token (by simpa using hall) (by simp) .done
      rw [List.append_nil] at hall
      exact ⟨_, hall, .inr ⟨htakes, by simp, t, rfl, hmark⟩, _, List.mem_singleton_self _, by simp⟩

/-- A text that ends in a token has its tokens in front of every break, and has the ones that it has
in front of one. -/
theorem before_breaks (h : Lexes r lo s ts) (hend : ∃ t ∈ ts, t.hi = lo + s.length) :
    ∃ us, (us = ts ∨ us.length < ts.length ∧ ∃ t ∈ ts.getLast?, t.isPunct "." = true) ∧
      ∀ d ∈ breaks, ∀ x, Lexes (d :: x) lo s us := by
  have hblank : ' ' ∈ breaks := by decide
  obtain ⟨us, hus, heq, hend'⟩ := h.before_break hend hblank []
  refine ⟨us, heq.imp_right And.right, fun d hd x => ?_⟩
  obtain ⟨vs, hvs, hsame, -⟩ := hus.before_break hend' hd x
  rcases hsame with rfl | ⟨htakes, -⟩
  · exact hvs
  · exact absurd htakes (Lexeme.not_takesDot hblank [])

end Lexes

end BuilderMigration
