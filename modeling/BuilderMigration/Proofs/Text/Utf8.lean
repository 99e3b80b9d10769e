import BuilderMigration.Text.Utf8
import Mathlib.Data.List.Basic

/-! Decoding of UTF-8 loses nothing: the bytes of a decoded text are the bytes it was decoded from. -/

namespace BuilderMigration.Utf8

variable {bytes rest : List UInt8} {first b : UInt8} {c : Char} {width : Nat} {s : String}

/-! ### Encoding -/

theorem encode_ofList (cs : List Char) :
    encode (String.ofList cs) = cs.flatMap String.utf8EncodeChar := by
  simp [encode, List.utf8Encode]

theorem encode_injective : Function.Injective encode := fun _ _ h =>
  String.toByteArray_inj.1 (ByteArray.ext (Array.toList_inj.1 h))

/-- The bytes of a text in pieces are those of the pieces. -/
theorem encode_flatten (pieces : List (List Char)) :
    encode (String.ofList pieces.flatten) =
      (pieces.map fun cs => encode (String.ofList cs)).flatten := by
  induction pieces with
  | nil => rfl
  | cons cs pieces ih =>
    rw [encode_ofList] at ih ⊢
    rw [List.flatten_cons, List.flatMap_append, ih, List.map_cons, List.flatten_cons, encode_ofList]

/-! ### One character -/

theorem val_ofNat {n : Nat} (h : n.isValidChar) : (Char.ofNat n).val.toNat = n := by
  rw [Char.ofNat, dif_pos h]
  rfl

theorem eq_ofNat {n : Nat} {b : UInt8} (h : n = b.toNat) : UInt8.ofNat n = b := by
  rw [h, UInt8.ofNat_toNat]

theorem continues_iff : continues b = true ↔ 128 ≤ b.toNat ∧ b.toNat < 192 := by
  rw [continues, Bool.and_eq_true, decide_eq_true_eq, decide_eq_true_eq, UInt8.le_iff_toNat_le,
    UInt8.lt_iff_toNat_lt]
  rfl

/-- What a second byte that fits keeps clear of. -/
theorem bounds_of_secondFits (h : secondFits first b = true) :
    (128 ≤ b.toNat ∧ b.toNat < 192) ∧ (first.toNat = 224 → 160 ≤ b.toNat) ∧
      (first.toNat = 237 → b.toNat < 160) ∧ (first.toNat = 240 → 144 ≤ b.toNat) ∧
        (first.toNat = 244 → b.toNat < 144) := by
  simp only [secondFits, Bool.and_eq_true, continues_iff, Bool.not_eq_true', Bool.and_eq_false_iff,
    beq_eq_false_iff_ne, decide_eq_false_iff_not, ge_iff_le, UInt8.le_iff_toNat_le,
    UInt8.lt_iff_toNat_lt, ne_eq, ← UInt8.toNat_inj, UInt8.reduceToNat] at h
  omega

theorem bounds_of_width? (h : width? first = some width) :
    (width = 1 ∧ first.toNat < 128) ∨ (width = 2 ∧ 194 ≤ first.toNat ∧ first.toNat < 224) ∨
      (width = 3 ∧ 224 ≤ first.toNat ∧ first.toNat < 240) ∨
        (width = 4 ∧ 240 ≤ first.toNat ∧ first.toNat < 245) := by
  simp only [width?, UInt8.lt_iff_toNat_lt, UInt8.reduceToNat] at h
  split at h
  · cases h
    omega
  split at h
  · cases h
  split at h
  · cases h
    omega
  split at h
  · cases h
    omega
  split at h
  · cases h
    omega
  · cases h

theorem utf8EncodeChar_one (h : first.toNat < 128) :
    String.utf8EncodeChar (Char.ofNat first.toNat) = [first] := by
  have hvalid : first.toNat.isValidChar := .inl (by omega)
  simp only [String.utf8EncodeChar, val_ofNat hvalid]
  rw [if_pos (by omega), UInt8.ofNat_toNat]

theorem utf8EncodeChar_two (h : 194 ≤ first.toNat ∧ first.toNat < 224)
    (hb : 128 ≤ b.toNat ∧ b.toNat < 192) :
    String.utf8EncodeChar (Char.ofNat (first.toNat % 32 * 64 + low b)) = [first, b] := by
  rw [low]
  generalize hn : first.toNat % 32 * 64 + b.toNat % 64 = n
  have hvalid : n.isValidChar := .inl (by omega)
  simp only [String.utf8EncodeChar, val_ofNat hvalid]
  rw [if_neg (by omega), if_pos (by omega), eq_ofNat (b := first) (by omega),
    eq_ofNat (b := b) (by omega)]

theorem utf8EncodeChar_three {d : UInt8} (h : 224 ≤ first.toNat ∧ first.toNat < 240)
    (hb : secondFits first b = true) (hd : 128 ≤ d.toNat ∧ d.toNat < 192) :
    String.utf8EncodeChar (Char.ofNat ((first.toNat % 16 * 64 + low b) * 64 + low d)) =
      [first, b, d] := by
  have hbounds := bounds_of_secondFits hb
  rw [low, low]
  generalize hn : (first.toNat % 16 * 64 + b.toNat % 64) * 64 + d.toNat % 64 = n
  have hvalid : n.isValidChar := by
    unfold Nat.isValidChar
    omega
  simp only [String.utf8EncodeChar, val_ofNat hvalid]
  rw [if_neg (by omega), if_neg (by omega), if_pos (by omega), eq_ofNat (b := first) (by omega),
    eq_ofNat (b := b) (by omega), eq_ofNat (b := d) (by omega)]

theorem utf8EncodeChar_four {d e : UInt8} (h : 240 ≤ first.toNat ∧ first.toNat < 245)
    (hb : secondFits first b = true) (hd : 128 ≤ d.toNat ∧ d.toNat < 192)
    (he : 128 ≤ e.toNat ∧ e.toNat < 192) :
    String.utf8EncodeChar
        (Char.ofNat (((first.toNat % 8 * 64 + low b) * 64 + low d) * 64 + low e)) =
      [first, b, d, e] := by
  have hbounds := bounds_of_secondFits hb
  rw [low, low, low]
  generalize hn : ((first.toNat % 8 * 64 + b.toNat % 64) * 64 + d.toNat % 64) * 64 + e.toNat % 64 = n
  have hvalid : n.isValidChar := by
    unfold Nat.isValidChar
    omega
  simp only [String.utf8EncodeChar, val_ofNat hvalid]
  rw [if_neg (by omega), if_neg (by omega), if_neg (by omega), eq_ofNat (b := first) (by omega),
    eq_ofNat (b := b) (by omega), eq_ofNat (b := d) (by omega), eq_ofNat (b := e) (by omega)]

/-- A character that is read is encoded by the bytes that it was read from. -/
theorem head_spec (h : head first rest = .ok (c, width)) :
    0 < width ∧ String.utf8EncodeChar c = (first :: rest).take width := by
  unfold head at h
  split at h
  · cases h
  · next hwidth =>
    obtain ⟨rfl, rfl⟩ := Prod.mk.inj (Except.ok.inj h)
    have hbounds := bounds_of_width? hwidth
    exact ⟨Nat.one_pos, utf8EncodeChar_one (by omega)⟩
  · cases h
  · next w b bs hone hwidth =>
    have hbounds := bounds_of_width? hwidth
    have hone : w ≠ 1 := hone
    split at h
    · cases h
    · next hb =>
      rw [Bool.not_eq_true, Bool.not_eq_false'] at hb
      have hsecond := bounds_of_secondFits hb
      split at h
      · next hw =>
        obtain ⟨rfl, rfl⟩ := Prod.mk.inj (Except.ok.inj h)
        exact ⟨by omega, utf8EncodeChar_two (by omega) hsecond.1⟩
      · next hw =>
        split at h
        · cases h
        · next d ds =>
          split at h
          · cases h
          · next hd =>
            rw [Bool.not_eq_true, Bool.not_eq_false', continues_iff] at hd
            split at h
            · next hw' =>
              obtain ⟨rfl, rfl⟩ := Prod.mk.inj (Except.ok.inj h)
              exact ⟨by omega, utf8EncodeChar_three (by omega) hb hd⟩
            · next hw' =>
              split at h
              · cases h
              · next e es =>
                split at h
                · cases h
                · next he =>
                  rw [Bool.not_eq_true, Bool.not_eq_false', continues_iff] at he
                  obtain ⟨rfl, rfl⟩ := Prod.mk.inj (Except.ok.inj h)
                  exact ⟨by omega, utf8EncodeChar_four (by omega) hb hd he⟩

/-! ### Texts -/

theorem flatMap_of_decodeFrom {offset pending : Nat} {cs : List Char}
    (h : decodeFrom offset pending bytes = .ok cs) :
    cs.flatMap String.utf8EncodeChar = bytes.drop pending := by
  induction bytes generalizing offset pending cs with
  | nil =>
    rw [decodeFrom] at h
    obtain rfl := Except.ok.inj h
    rw [List.drop_nil]
    rfl
  | cons b bytes ih =>
    cases pending with
    | succ pending =>
      rw [decodeFrom] at h
      rw [List.drop_succ_cons, ih h]
    | zero =>
      rw [decodeFrom] at h
      split at h
      · cases h
      · next c width hhead =>
        obtain ⟨hpos, hc⟩ := head_spec hhead
        cases hd : decodeFrom (offset + 1) (width - 1) bytes with
        | error e =>
          rw [hd] at h
          cases h
        | ok later =>
          rw [hd] at h
          obtain rfl := Except.ok.inj h
          obtain ⟨n, rfl⟩ := Nat.exists_eq_add_one_of_ne_zero (Nat.ne_of_gt hpos)
          rw [List.flatMap_cons, hc, ih hd, List.drop_zero, Nat.add_sub_cancel, List.take_succ_cons,
            List.cons_append, List.take_append_drop]

theorem encode_of_decode (h : decode bytes = .ok s) : encode s = bytes := by
  rw [decode] at h
  cases hd : decodeFrom 0 0 bytes with
  | error e =>
    rw [hd] at h
    cases h
  | ok cs =>
    rw [hd] at h
    obtain rfl := Except.ok.inj h
    rw [encode_ofList, flatMap_of_decodeFrom hd, List.drop_zero]

end BuilderMigration.Utf8
