import BuilderMigration.Token.Scan
import BuilderMigration.Proofs.Token.Lexeme
import BuilderMigration.Proofs.Token.Order

/-! The tokens of a text stand in order within the positions of the text. -/

namespace BuilderMigration

namespace Scan

theorem offset_after (p : Place) (c : Char) : (p.after c).offset = p.offset + 1 := by
  unfold Place.after
  split <;> rfl

/-- Tokens begin behind the piece that is pending. -/
theorem scanFrom_ordered (start : Int) (p : Place) (pending : Nat) (cs : List Char) :
    Ordered (start + p.offset + pending) (scanFrom start p pending cs).tokens := by
  induction cs generalizing p pending with
  | nil => cases pending <;> exact trivial
  | cons c cs ih =>
    have hnext (rest : Nat) := offset_after p c ▸ ih (p.after c) rest
    cases pending with
    | succ pending =>
      refine (hnext pending).mono ?_
      push_cast
      omega
    | zero =>
      simp only [scanFrom]
      split
      · refine (hnext _).mono ?_
        push_cast
        omega
      · trivial
      · next kind length h =>
        have := Lexeme.piece_token h
        refine ⟨?_, ?_, (hnext _).mono ?_⟩
        · exact Int.le_of_eq (Int.add_zero _)
        · dsimp only
          omega
        · dsimp only
          push_cast
          omega

/-- No token goes beyond the text. -/
theorem hi_le_of_mem_scanFrom {start : Int} {p : Place} {pending : Nat} {cs : List Char} {t : Token}
    (h : t ∈ (scanFrom start p pending cs).tokens) : t.hi ≤ start + p.offset + cs.length := by
  induction cs generalizing p pending with
  | nil => cases pending <;> cases h
  | cons c cs ih =>
    have hnext {rest : Nat} (h : t ∈ (scanFrom start (p.after c) rest cs).tokens) :
        t.hi ≤ start + p.offset + (c :: cs).length := by
      have := ih h
      rw [offset_after] at this
      simp only [List.length_cons]
      push_cast at this ⊢
      omega
    cases pending with
    | succ pending => exact hnext h
    | zero =>
      simp only [scanFrom] at h
      split at h
      · exact hnext h
      · cases h
      · next kind length hpiece =>
        obtain rfl | h := List.mem_cons.1 h
        · have := (Lexeme.piece_token hpiece).2
          dsimp only
          omega
        · exact hnext h

end Scan

variable {code : String} {start : Int} {t : Token}

theorem tokenize_ordered (code : String) (start : Int) : Ordered start (tokenize code start).tokens := by
  have := Scan.scanFrom_ordered start {} 0 code.toList
  exact this.mono (by simp)

theorem le_lo_of_mem {ts : List Token} (h : Ordered start ts) (ht : t ∈ ts) : start ≤ t.lo := by
  induction ts generalizing start with
  | nil => cases ht
  | cons u us ih =>
    obtain ⟨h₁, h₂, h₃⟩ := h
    obtain rfl | ht := List.mem_cons.1 ht
    · exact h₁
    · have := ih h₃ ht
      omega

theorem hi_le_of_mem_tokenize (h : t ∈ (tokenize code start).tokens) :
    t.hi ≤ start + code.length := by
  have := Scan.hi_le_of_mem_scanFrom h
  rw [String.length_toList] at this
  simpa using this

end BuilderMigration
