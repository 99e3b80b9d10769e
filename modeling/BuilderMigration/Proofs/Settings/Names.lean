import BuilderMigration.Proofs.Settings.Checked
import BuilderMigration.Proofs.Token.Wording
import Mathlib.Data.List.TakeWhile

/-! The names that checked settings hold. Such a name is a name of the source language, or it goes on into
a letter that no token holds; either way what it tells does not depend on what follows it. -/

namespace BuilderMigration

open Lexeme (isNameChar isNameStart name piece shortMarks)

variable {c : Char} {cs w v : List Char} {s : String}

/-! ### Letters beyond ASCII -/

namespace Lexeme

/-- No token begins with a letter beyond ASCII. -/
theorem piece_beyond (hc : 128 ≤ c.toNat) (hb : Text.isBlank c = false) (cs : List Char) :
    ∃ cause, piece (c :: cs) = .fault cause := by
  have hne {d : Char} (hd : d.toNat < 128) : c ≠ d := by
    rintro rfl
    omega
  have hmarks : ∀ d ∈ shortMarks, d.toNat < 128 := forall_of_all (by decide)
  have hmark : c ∉ shortMarks := fun h => absurd (hmarks c h) (by omega)
  have hdigit : c.isDigit = false := by
    simp only [Char.isDigit, Bool.and_eq_false_iff, decide_eq_false_iff_not, ge_iff_le,
      UInt32.le_iff_toNat_le]
    exact .inr (Nat.not_le.2 (Nat.lt_of_lt_of_le (by decide) hc))
  have hname : isNameStart c = false := by
    cases h : isNameStart c with
    | false => rfl
    | true =>
      have := isNameStart_bounds h
      omega
  have hraw : rawStart? (c :: cs) = none := by
    unfold rawStart?
    split
    · next hcs => exact absurd (List.cons.inj hcs).1 (hne (by decide))
    · next hcs => exact absurd (List.cons.inj hcs).1 (hne (by decide))
    · rfl
  have htoken : token? (c :: cs) = none := by
    rw [token?_plain (hne (by decide)) (hne (by decide)) (hne (by decide)), number_eq_none hdigit,
      rawName_eq_none (hne (by decide)), name_eq_none hname, punct_eq_none hmark]
    rfl
  rw [piece_of_token hb (hne (by decide)), tokenPiece, hraw, htoken]
  exact ⟨_, rfl⟩

end Lexeme

/-! ### Names that were checked -/

namespace Settings

/-- A name of the source language does not begin with a digit. -/
theorem isNameStart_of_isNameChar (h : isNameChar c = true) (hd : Text.isDigit c = false) :
    isNameStart c = true := by
  have hascii : c.toNat < 128 := by
    delta isNameChar Char.isAlphanum Char.isAlpha Char.isUpper Char.isLower Char.isDigit at h
    simp only [Bool.or_eq_true, Bool.and_eq_true, decide_eq_true_eq, beq_iff_eq,
      UInt32.le_iff_toNat_le, ge_iff_le] at h
    have hval : c.val.toNat = c.toNat := rfl
    rcases h with ((h | h) | h) | rfl
    · exact Nat.lt_of_le_of_lt h.2 (by decide)
    · exact Nat.lt_of_le_of_lt h.2 (by decide)
    · exact Nat.lt_of_le_of_lt h.2 (by decide)
    · decide
  rw [Text.isDigit, if_pos hascii] at hd
  simpa [isNameChar, isNameStart, Char.isAlphanum, hd] using h

theorem name_of_all (h : ∀ d ∈ c :: w, isNameChar d = true) (hd : Text.isDigit c = false) :
    Lexeme.name (c :: w) = some (c :: w).length := by
  rw [List.forall_mem_cons] at h
  have hrun : Lexeme.run isNameChar w = w.length := by
    rw [Lexeme.run, List.takeWhile_eq_self_iff.2 h.2]
  rw [Lexeme.name, if_pos (isNameStart_of_isNameChar h.1 hd), hrun, List.length_cons, Nat.add_comm]

/-- A name that goes on into a letter beyond ASCII is cut short there. -/
theorem wording_beyond (hw : ∀ d ∈ w, isNameChar d = true) (hd : ∀ d ∈ w.head?, Text.isDigit d = false)
    (hc : isNameChar c = false) (hbeyond : 128 ≤ c.toNat ∧ Text.isBlank c = false) :
    ∃ x : Wording, x.faulty = true ∧ ∀ cs, wording (w ++ c :: cs) = x := by
  have hfault (cs : List Char) : wording (c :: cs) = ⟨[], true⟩ := by
    obtain ⟨cause, h⟩ := Lexeme.piece_beyond hbeyond.1 hbeyond.2 cs
    exact wording_fault h
  have hne {d : Char} (hd : d.toNat < 128) : c ≠ d := by
    rintro rfl
    omega
  cases w with
  | nil => exact ⟨⟨[], true⟩, rfl, hfault⟩
  | cons d w =>
    refine ⟨⟨[(.ident, Scan.tokenText .ident (d :: w))], true⟩, rfl, fun cs => ?_⟩
    have haside : Aside (c :: cs) := by
      intro e he
      obtain rfl := Option.some.inj he
      exact ⟨hc, hne (by decide), hne (by decide), hne (by decide)⟩
    have hpiece := Lexeme.piece_word (name_of_all hw (hd d rfl)) haside
    rw [wording_token hpiece (by simp), hfault]
    rfl

/-- A name that settings hold tells the same in front of whatever no name goes on into. -/
theorem IsName.legible (h : IsName s) : Legible s := by
  cases hs : s.toList with
  | nil => exact absurd (String.toList_eq_nil_iff.1 hs) h.ne_empty
  | cons c cs =>
    have hdigit : Text.isDigit c = false := h.head c (by rw [hs]; rfl)
    have hdot : c ≠ '.' := by
      rintro rfl
      exact h.not_dot (hs ▸ List.mem_cons_self)
    have hhead : ∀ d ∈ ((c :: cs).takeWhile isNameChar).head?, Text.isDigit d = false := by
      intro d hd
      rw [List.takeWhile_cons] at hd
      split at hd
      · exact Option.some.inj hd ▸ hdigit
      · cases hd
    refine ⟨?_, c, by simp [hs], hdot⟩
    have hsplit := List.takeWhile_append_dropWhile (p := isNameChar) (l := c :: cs)
    cases hv : (c :: cs).dropWhile isNameChar with
    | nil =>
      have hword : IsWord s := by
        rw [IsWord, hs, ← String.length_toList, hs]
        exact name_of_all (List.dropWhile_eq_nil_iff.1 hv) hdigit
      exact hword.legible.tells
    | cons d v =>
      have hd : isNameChar d = false := by
        have := List.head?_dropWhile_not isNameChar (c :: cs)
        rw [hv] at this
        simpa using this
      have hmem : d ∈ s.toList := hs ▸ (List.dropWhile_suffix isNameChar).mem (by simp [hv])
      have hbeyond := (isNameChar_or_beyond (h.chars d hmem)).resolve_left (by simp [hd])
      obtain ⟨x, hx, htells⟩ := wording_beyond (fun e he => List.mem_takeWhile_imp he) hhead hd hbeyond
      refine ⟨x, .of_faulty hx fun rest _ => ?_⟩
      rw [hs, ← hsplit, hv, List.append_assoc, List.cons_append, htells]

/-- The builders in the signatures of checked settings. -/
theorem legible_of_check {raw : List (String × RawValue)} {settings : Settings}
    (h : check raw = .ok settings) : ∀ e ∈ settings.closureSignatures, Legible e.2 :=
  fun e he => ((clean_of_check h).signatures e he).2.legible

end Settings

end BuilderMigration
