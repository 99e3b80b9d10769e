import BuilderMigration.Proofs.Token.Break

/-! Texts that have the same tokens wherever they stand: in front of anything, or in front of what no
name goes on into. A name is one token in front of whatever does not go on from it. -/

namespace BuilderMigration

open Lexeme (isNameChar isNameStart piece name)

variable {s : String} {c : Char} {rest v w : List Char}

/-- A text that has its tokens in front of any other, save that a name at its end goes on into one. -/
def Sealed (text : String) : Prop :=
  ∃ ts, ∀ rest, Lexes rest 0 text.toList ts ↔
    ∀ c ∈ text.toList.getLast?, isNameChar c → ∀ d ∈ rest.head?, isNameChar d = false

/-- A text that is one name. -/
def IsWord (s : String) : Prop := name s.toList = some s.length

instance (s : String) : Decidable (IsWord s) := inferInstanceAs (Decidable (_ = _))

/-- Texts that no name goes on into, and that make no other token of one. -/
def Aside (rest : List Char) : Prop :=
  ∀ c ∈ rest.head?, isNameChar c = false ∧ c ≠ '"' ∧ c ≠ '\'' ∧ c ≠ '#'

/-! ### Names -/

namespace Lexeme

theorem isNameStart_bounds (h : isNameStart c = true) : 65 ≤ c.toNat ∧ c.toNat ≤ 122 := by
  delta isNameStart Char.isAlpha Char.isUpper Char.isLower at h
  simp only [Bool.or_eq_true, Bool.and_eq_true, decide_eq_true_eq, beq_iff_eq,
    UInt32.le_iff_toNat_le, ge_iff_le] at h
  rcases h with (h | h) | rfl
  · exact ⟨h.1, Nat.le_trans h.2 (by decide)⟩
  · exact ⟨Nat.le_trans (by decide) h.1, h.2⟩
  · decide

theorem not_isBlank_of_isNameStart (h : isNameStart c = true) : Text.isBlank c = false := by
  have := isNameStart_bounds h
  simp only [Text.isBlank, Bool.or_eq_false_iff, Bool.and_eq_false_iff, decide_eq_false_iff_not,
    beq_eq_false_iff_ne]
  omega

/-- What begins a name begins no other token without more, and no comment. -/
theorem ne_of_isNameStart (h : isNameStart c = true) :
    c ≠ '"' ∧ c ≠ '\'' ∧ c ≠ '/' ∧ c.isDigit = false := by
  have := isNameStart_bounds h
  have hdigit : c.isDigit = false := by
    simp only [Char.isDigit, Bool.and_eq_false_iff, decide_eq_false_iff_not, ge_iff_le,
      UInt32.le_iff_toNat_le]
    exact .inr (Nat.not_le.2 (Nat.lt_of_lt_of_le (by decide) this.1))
  refine ⟨?_, ?_, ?_, hdigit⟩ <;> rintro rfl <;> cases h

/-- No raw string begins where neither a hash nor a quote stands. -/
theorem rawStart_eq_none (n : Nat) (h : ∀ c ∈ v.head?, c ≠ '"' ∧ c ≠ '#') :
    rawStart?.start n v = none := by
  have hrun : run (· == '#') v = 0 := run_eq_zero fun c hc => by simpa using (h c hc).2
  simp only [rawStart?.start, hrun, List.drop_zero]
  split
  · exact absurd rfl (h '"' rfl).1
  · rfl

theorem name_append (hw : name w = some w.length) (hr : ∀ c ∈ rest.head?, isNameChar c = false) :
    name (w ++ rest) = some w.length := by
  cases w with
  | nil => cases hw
  | cons c w =>
    simp only [name, List.cons_append, Option.ite_none_right_eq_some, Option.some.injEq,
      List.length_cons] at hw ⊢
    refine ⟨hw.1, ?_⟩
    have hrun := run_cut (q := isNameChar) (s := w) (r := []) hr
    simp only [List.append_nil] at hrun
    rw [hrun (by omega)]
    exact hw.2

/-- Behind the first character of a name in front of no name stands nothing that makes another token of it. -/
theorem aside_of_name (hw : name (c :: w) = some (c :: w).length) (hr : Aside rest) :
    ∀ d ∈ (w ++ rest).head?, d ≠ '"' ∧ d ≠ '\'' ∧ d ≠ '#' := by
  cases w with
  | nil => exact fun d hd => (hr d hd).2
  | cons d w =>
    intro e he
    obtain rfl := Option.mem_some_iff.1 he
    have hd : isNameChar d = true := by
      simp only [name, run_cons, Option.ite_none_right_eq_some, Option.some.injEq] at hw
      by_cases hd : isNameChar d = true
      · exact hd
      · simp [hd] at hw
    refine ⟨?_, ?_, ?_⟩ <;> rintro rfl <;> cases hd

/-- A name does not begin a raw string. -/
theorem rawStart?_word (hw : name (c :: w) = some (c :: w).length) (hr : Aside rest) :
    rawStart? (c :: (w ++ rest)) = none := by
  have hfree {w : List Char} (h : ∀ d ∈ (w ++ rest).head?, d ≠ '"' ∧ d ≠ '\'' ∧ d ≠ '#') (n : Nat) :
      rawStart?.start n (w ++ rest) = none :=
    rawStart_eq_none n fun d hd => ⟨(h d hd).1, (h d hd).2.2⟩
  unfold rawStart?
  split
  · next x hcs =>
    obtain ⟨rfl, hx⟩ := List.cons.inj hcs
    obtain _ | ⟨d, w⟩ := w
    · rw [List.nil_append] at hx
      have := (hr 'r' (by simp [hx])).1
      cases this
    · obtain ⟨rfl, rfl⟩ := List.cons.inj hx
      have htail : name ('r' :: w) = some ('r' :: w).length := by
        have hb : isNameStart 'b' = true := by decide
        have hstart : isNameStart 'r' = true := by decide
        have hchar : isNameChar 'r' = true := by decide
        simp only [name, run_cons, hb, hstart, hchar, if_true, Option.some.injEq,
          List.length_cons] at hw ⊢
        omega
      exact hfree (aside_of_name htail hr) 2
  · next hcs =>
    obtain ⟨rfl, rfl⟩ := List.cons.inj hcs
    exact hfree (aside_of_name hw hr) 1
  · rfl

/-- Nor is it a string, a character or a raw name. -/
theorem token?_word (hw : name (c :: w) = some (c :: w).length) (hr : Aside rest) :
    token? (c :: (w ++ rest)) = some (.ident, (c :: w).length) := by
  have hname := name_append hw fun d hd => (hr d hd).1
  rw [List.cons_append] at hname
  have hhead := aside_of_name hw hr
  have hc : isNameStart c = true := by
    simp only [name, Option.ite_none_right_eq_some] at hw
    exact hw.1
  obtain ⟨hq, ht, -, hdigit⟩ := ne_of_isNameStart hc
  by_cases hb : c = 'b'
  · subst hb
    have hstring : string ('b' :: (w ++ rest)) = none := by
      cases h : string ('b' :: (w ++ rest)) with
      | none => rfl
      | some n =>
        obtain ⟨x, -, hx, -⟩ := string_byte h
        exact absurd rfl (hhead '"' (by simp [hx])).1
    have hchar : char ('b' :: (w ++ rest)) = none := by
      cases h : char ('b' :: (w ++ rest)) with
      | none => rfl
      | some n =>
        obtain ⟨x, -, hx, -⟩ := char_byte h
        exact absurd rfl (hhead '\'' (by simp [hx])).2.1
    rw [token?_byte_of_none hstring hchar, hname]
    rfl
  · have hrawName : rawName (c :: (w ++ rest)) = none := by
      unfold rawName
      split
      · next hcs => exact absurd rfl (hhead '#' (by simp [(List.cons.inj hcs).2])).2.2
      · rfl
    rw [token?_plain hq ht hb, number_eq_none hdigit, hrawName, hname]
    rfl

theorem piece_word (hw : name w = some w.length) (hr : Aside rest) :
    piece (w ++ rest) = .token .ident w.length := by
  cases w with
  | nil => cases hw
  | cons c w =>
    have hc : isNameStart c = true := by
      simp only [name, Option.ite_none_right_eq_some] at hw
      exact hw.1
    obtain ⟨-, -, hslash, -⟩ := ne_of_isNameStart hc
    rw [List.cons_append, piece_of_token (not_isBlank_of_isNameStart hc) hslash, tokenPiece,
      rawStart?_word hw hr, token?_word hw hr]

/-- A name that begins in no way like a raw one or a string is one token in front of anything. -/
theorem piece_name {n : Nat} (h : name (c :: v) = some n) (hb : c ≠ 'b') (hr : c ≠ 'r') :
    piece (c :: v) = .token .ident n := by
  have hc : isNameStart c = true := by
    rw [name, Option.ite_none_right_eq_some] at h
    exact h.1
  obtain ⟨hq, ht, hslash, hdigit⟩ := ne_of_isNameStart hc
  have hraw : rawStart? (c :: v) = none := by
    unfold rawStart?
    split <;> simp_all
  rw [piece_of_token (not_isBlank_of_isNameStart hc) hslash, tokenPiece, hraw, token?_plain hq ht hb,
    number_eq_none hdigit, rawName_eq_none hr, h]
  rfl

/-- A name within a text is a name alone. -/
theorem name_of_append (h : name (w ++ rest) = some w.length) : name w = some w.length := by
  cases w with
  | nil => exact absurd (name_within _ _ h).1 (Nat.lt_irrefl 0)
  | cons c w =>
    simp only [name, List.cons_append, Option.ite_none_right_eq_some, Option.some.injEq,
      List.length_cons] at h ⊢
    refine ⟨h.1, ?_⟩
    have hrun := run_append isNameChar w rest
    have := run_le isNameChar w
    split at hrun <;> omega

/-- An identifier is a name, or a raw one. -/
theorem token?_ident {n : Nat} (h : token? v = some (.ident, n)) :
    rawName v = some n ∨ name v = some n := by
  have hother {k : TokenKind} (hk : k ≠ .ident) {o : Option Nat} {o' : Option (TokenKind × Nat)}
      (h : (o.map (k, ·) <|> o') = some (.ident, n)) : o' = some (.ident, n) := by
    cases o with
    | none => exact h
    | some m => exact absurd (Prod.mk.inj (Option.some.inj h)).1 hk
  have hname := hother (by decide) (hother (by decide) (hother (by decide) (hother (by decide) h)))
  cases hraw : rawName v with
  | some m =>
    rw [hraw] at hname
    exact .inl (congrArg some (Prod.mk.inj (Option.some.inj hname)).2)
  | none =>
    rw [hraw] at hname
    cases hplain : name v with
    | some m =>
      rw [hplain] at hname
      exact .inr (congrArg some (Prod.mk.inj (Option.some.inj hname)).2)
    | none =>
      rw [hplain] at hname
      obtain ⟨m, -, hm⟩ := Option.map_eq_some_iff.1 (show (punct v).map _ = _ from hname)
      cases (Prod.mk.inj hm).1

/-- A token that is a name is written plainly, or behind the mark of a raw one. -/
theorem name_of_piece (h : piece (w ++ rest) = .token .ident w.length) :
    name (w ++ rest) = some w.length ∨
      ∃ v, w = 'r' :: '#' :: v ∧ name (v ++ rest) = some v.length := by
  have hpos := (piece_token h).1
  replace h := tokenPiece_of_piece h
  unfold tokenPiece at h
  split at h
  · split at h <;> cases h
  · split at h
    · next hk =>
      obtain ⟨rfl, rfl⟩ := Piece.token.inj h
      rcases token?_ident hk with hraw | hname
      · unfold rawName at hraw
        split at hraw
        · next cs hcs =>
          obtain ⟨m, hm, hlength⟩ := Option.map_eq_some_iff.1 hraw
          obtain _ | ⟨c, _ | ⟨d, v⟩⟩ := w
          · simp at hpos
          · simp at hlength
          simp only [List.cons_append, List.cons.injEq] at hcs
          obtain ⟨rfl, rfl, rfl⟩ := hcs
          obtain rfl : m = v.length := by simpa using hlength
          exact .inr ⟨v, rfl, hm⟩
        · cases hraw
      · exact .inl hname
    · cases h

/-- No name goes on into what stands behind it. -/
theorem behind_name (h : name (w ++ rest) = some w.length) :
    ∀ c ∈ rest.head?, isNameChar c = false := by
  intro c hc
  obtain ⟨r, rfl⟩ := List.head?_eq_some_iff.1 hc
  cases w with
  | nil => exact absurd (name_within _ _ h).1 (Nat.lt_irrefl 0)
  | cons d w =>
    simp only [name, List.cons_append, Option.ite_none_right_eq_some, Option.some.injEq,
      List.length_cons] at h
    have hrun := run_append isNameChar w (c :: r)
    rw [run_cons] at hrun
    cases hchar : isNameChar c with
    | false => rfl
    | true =>
      rw [hchar, if_pos rfl] at hrun
      split at hrun <;> omega

theorem behind_ident (h : piece (w ++ rest) = .token .ident w.length) :
    ∀ c ∈ rest.head?, isNameChar c = false := by
  rcases name_of_piece h with hname | ⟨v, rfl, hname⟩
  · exact behind_name hname
  · exact behind_name hname

theorem isNameStart_of_piece {n : Nat} (h : piece (c :: v) = .token .ident n) :
    isNameStart c = true := by
  obtain ⟨-, hn⟩ := piece_token h
  obtain ⟨w, rest, hcut, hw⟩ : ∃ w rest, c :: v = w ++ rest ∧ w.length = n :=
    ⟨(c :: v).take n, (c :: v).drop n, (List.take_append_drop ..).symm, List.length_take_of_le hn⟩
  rw [← hw] at h
  rcases name_of_piece (hcut ▸ h) with hname | ⟨v, rfl, -⟩
  · rw [← hcut, name, Option.ite_none_right_eq_some] at hname
    exact hname.1
  · obtain ⟨rfl, -⟩ := List.cons.inj hcut
    decide

/-- A name behind the mark of a raw one is one token. -/
theorem piece_rawWord (hw : name w = some w.length) (hr : ∀ c ∈ rest.head?, isNameChar c = false) :
    piece ('r' :: '#' :: (w ++ rest)) = .token .ident (w.length + 2) := by
  have hname := name_append hw hr
  have hquote : ∀ c ∈ (w ++ rest).head?, c ≠ '"' ∧ (c == '#') = false := by
    intro c hc
    obtain ⟨v, hv⟩ := List.head?_eq_some_iff.1 hc
    rw [hv, name, Option.ite_none_right_eq_some] at hname
    constructor
    · rintro rfl
      cases hname.1
    · rw [beq_eq_false_iff_ne]
      rintro rfl
      cases hname.1
  have hraw : rawStart? ('r' :: '#' :: (w ++ rest)) = none := by
    have hrun : run (· == '#') ('#' :: (w ++ rest)) = 1 := by
      rw [run_cons, run_eq_zero fun c hc => (hquote c hc).2]
      rfl
    simp only [rawStart?, rawStart?.start, hrun, List.drop_succ_cons, List.drop_zero]
    split
    · next hcs => exact absurd rfl (hquote '"' (by rw [hcs]; rfl)).1
    · rfl
  rw [piece_of_token rfl (by decide), tokenPiece, hraw, token?_plain (by decide) (by decide) (by decide),
    number_eq_none (by decide), rawName, hname]
  rfl

end Lexeme

/-- The text of a name. A raw one goes without its marker. -/
theorem isWord_of_piece (h : piece (w ++ rest) = .token .ident w.length) :
    IsWord (Scan.tokenText .ident w) := by
  rcases Lexeme.name_of_piece h with hname | ⟨v, rfl, hname⟩
  · have hword := Lexeme.name_of_append hname
    have htext : Scan.tokenText .ident w = String.ofList w := by
      unfold Scan.tokenText
      split
      · -- no name goes on with the mark of a raw one
        have hhash : isNameChar '#' = false := by decide
        simp [name, Lexeme.run_cons, hhash] at hword
      · rfl
    rwa [htext, IsWord, String.toList_ofList, String.length_ofList]
  · have hword := Lexeme.name_of_append hname
    rwa [IsWord, Scan.tokenText, String.toList_ofList, String.length_ofList]

/-- The names among the tokens of a text. -/
theorem Lexes.isWord {lo : Int} {cs : List Char} {ts : List Token} (h : Lexes rest lo cs ts) :
    ∀ t ∈ ts, t.kind = .ident → IsWord t.value := by
  induction h with
  | done => simp
  | skip _ _ _ ih => exact ih
  | token hp _ _ ih =>
    refine List.forall_mem_cons.2 ⟨fun hkind => ?_, ih⟩
    dsimp only at hkind
    subst hkind
    exact isWord_of_piece hp

/-- A name begins with a character that names begin with. -/
theorem Lexes.starts_name {lo : Int} {cs : List Char} {ts : List Token} {t : Token}
    (h : Lexes rest lo (c :: cs) ts) (ht : t ∈ ts) (hlo : t.lo = lo) (hkind : t.kind = .ident) :
    isNameStart c = true := by
  generalize hx : c :: cs = x at h
  cases h with
  | done => cases ht
  | skip hp hne h =>
    have := (h.ordered.2 t ht).1
    have := List.length_pos_iff.2 hne
    omega
  | @token _ kind p ds us hp hne h =>
    have hpos := List.length_pos_iff.2 hne
    rcases List.mem_cons.1 ht with rfl | ht
    · dsimp only at hkind
      subst hkind
      rw [← List.append_assoc, ← hx, List.cons_append] at hp
      exact Lexeme.isNameStart_of_piece hp
    · have := (h.ordered.2 t ht).1
      omega

end BuilderMigration
