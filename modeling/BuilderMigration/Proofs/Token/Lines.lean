import BuilderMigration.Proofs.Source.Positions
import BuilderMigration.Proofs.Token.Scan
import Mathlib.Data.List.GetD
import Mathlib.Data.List.Induction

/-! Lines and columns. A position is looked up in the table of the lines of its file; a token has its line
and column from the scan, which counts newlines as it goes. Both say how many newlines stand in front of
the position and how far behind the last of them it stands. -/

namespace BuilderMigration

/-! ### Lines of a text -/

/-- The line that the offset `i` of a text belongs to begins at `k`: at the head of the text or behind a
newline, with no other newline in front of `i`. -/
structure LineStart (cs : List Char) (i k : Nat) : Prop where
  le : k ≤ i
  behind : k = 0 ∨ cs[k - 1]? = some '\n'
  unbroken : ∀ j, k ≤ j → j < i → cs[j]? ≠ some '\n'

namespace SourceFile

variable {cs : List Char} {i k lo hi offset : Nat} {starts : List Nat}

theorem sinceNewline_append_singleton (cs : List Char) (c : Char) :
    sinceNewline (cs ++ [c]) = if c = '\n' then 0 else sinceNewline cs + 1 := by
  rw [sinceNewline, List.reverse_append, List.reverse_singleton, List.singleton_append,
    List.takeWhile_cons]
  split
  · next hc => rw [if_neg (by simpa using hc), List.length_cons, sinceNewline]
  · next hc => rw [if_pos (by simpa using hc), List.length_nil]

theorem exists_lineStart (h : i ≤ cs.length) :
    ∃ k, LineStart cs i k ∧ sinceNewline (cs.take i) = i - k := by
  induction i with
  | zero => exact ⟨0, ⟨Nat.le_refl 0, .inl rfl, fun j _ hj => absurd hj (Nat.not_lt_zero j)⟩, rfl⟩
  | succ i ih =>
    obtain ⟨k, hk, hsince⟩ := ih (Nat.le_of_succ_le h)
    have hi : cs[i]? = some cs[i] := List.getElem?_eq_getElem h
    rw [List.take_succ_eq_append_getElem h, sinceNewline_append_singleton]
    split
    · next hc =>
      refine ⟨i + 1, ⟨Nat.le_refl _, .inr (hi.trans (congrArg some hc)), fun j hj hlt => ?_⟩, ?_⟩ <;> omega
    · next hc =>
      have hle := hk.le
      refine ⟨k, ⟨Nat.le_succ_of_le hle, hk.behind, fun j hj hlt => ?_⟩, by omega⟩
      rcases Nat.lt_succ_iff_lt_or_eq.1 hlt with hlt | rfl
      · exact hk.unbroken j hj hlt
      · rw [hi]
        exact fun heq => hc (Option.some.inj heq)

/-! ### The table of lines -/

/-- The offsets at which the lines of a file begin. -/
def lineStarts (f : SourceFile) : List Nat := 0 :: laterLineStarts 0 f.chars

/-- The last place of a table, from `lo` up to `hi`, whose entry is not beyond an offset, where the entries
grow: the half is kept that must hold it. -/
def lastUpTo (starts : List Nat) (offset lo hi : Nat) : Nat :=
  if lo < hi then
    let mid := (lo + hi + 1) / 2
    if starts.getD mid 0 ≤ offset then lastUpTo starts offset mid hi
    else lastUpTo starts offset lo (mid - 1)
  else lo
termination_by hi - lo

/-- Line and column of an offset by halving the table of lines. -/
def searchLineColumn (f : SourceFile) (offset : Nat) : Nat × Nat :=
  let line := lastUpTo f.lineStarts offset 0 (f.lineStarts.length - 1)
  (line + 1, offset - f.lineStarts.getD line 0 + 1)

theorem pairwise_laterLineStarts (k : Nat) (cs : List Char) :
    (laterLineStarts k cs).Pairwise (· < ·) := by
  induction cs generalizing k with
  | nil => exact .nil
  | cons c cs ih =>
    rw [laterLineStarts]
    split
    · exact .cons (fun start hstart => lt_of_mem_laterLineStarts hstart) (ih (k + 1))
    · exact ih (k + 1)

theorem pairwise_lineStarts (f : SourceFile) : f.lineStarts.Pairwise (· < ·) :=
  .cons (fun _ hstart => lt_of_mem_laterLineStarts hstart) (pairwise_laterLineStarts 0 f.chars)

/-- In a table that grows the entries up to an offset come first. -/
theorem getD_le_iff (h : starts.Pairwise (· < ·)) (hi : i < starts.length) :
    starts.getD i 0 ≤ offset ↔ i < (starts.takeWhile (· ≤ offset)).length := by
  induction starts generalizing i with
  | nil => cases hi
  | cons s starts ih =>
    obtain ⟨hfirst, hrest⟩ := List.pairwise_cons.1 h
    rw [List.takeWhile_cons]
    split
    · next hs =>
      cases i with
      | zero => simpa using hs
      | succ i =>
        rw [List.getD_cons_succ, List.length_cons, Nat.add_lt_add_iff_right]
        exact ih hrest (Nat.lt_of_succ_lt_succ hi)
    · next hs =>
      have hs : offset < s := by simpa using hs
      refine iff_of_false (fun hle => ?_) (Nat.not_lt_zero _)
      cases i with
      | zero =>
        rw [List.getD_cons_zero] at hle
        omega
      | succ i =>
        have hi := Nat.lt_of_succ_lt_succ hi
        have := hfirst _ (List.getElem_mem hi)
        rw [List.getD_cons_succ, List.getD_eq_getElem _ _ hi] at hle
        omega

/-- Halving finds the last entry up to an offset. -/
theorem lastUpTo_eq (h : starts.Pairwise (· < ·))
    (hlo : lo < (starts.takeWhile (· ≤ offset)).length)
    (hhi : (starts.takeWhile (· ≤ offset)).length ≤ hi + 1) (hlength : hi < starts.length) :
    lastUpTo starts offset lo hi = (starts.takeWhile (· ≤ offset)).length - 1 := by
  fun_induction lastUpTo starts offset lo hi with
  | case1 lo hi hlt mid hmid ih =>
    rw [getD_le_iff h (by omega)] at hmid
    exact ih hmid hhi hlength
  | case2 lo hi hlt mid hmid ih =>
    rw [getD_le_iff h (by omega)] at hmid
    exact ih hlo (by omega) (by omega)
  | case3 lo hi hlt => omega

theorem getD_getLastD (p : Nat → Bool) (first : Nat) (starts : List Nat) :
    (first :: starts).getD (starts.takeWhile p).length 0 = (starts.takeWhile p).getLastD first := by
  induction starts generalizing first with
  | nil => rfl
  | cons s starts ih =>
    rw [List.takeWhile_cons]
    split
    · rw [List.length_cons, List.getD_cons_succ, List.getLastD_cons, ih]
    · rfl

/-- The table of lines gives the same by halving as in order. -/
theorem searchLineColumn_eq (f : SourceFile) (offset : Nat) :
    f.searchLineColumn offset = f.lineColumn offset := by
  have htake : f.lineStarts.takeWhile (· ≤ offset) =
      0 :: (laterLineStarts 0 f.chars).takeWhile (· ≤ offset) := by
    rw [lineStarts, List.takeWhile_cons_of_pos (by simp)]
  have hprefix := (List.takeWhile_prefix (· ≤ offset) : _ <+: f.lineStarts).length_le
  have hlast : lastUpTo f.lineStarts offset 0 (f.lineStarts.length - 1) =
      ((laterLineStarts 0 f.chars).takeWhile (· ≤ offset)).length := by
    rw [lastUpTo_eq f.pairwise_lineStarts, htake, List.length_cons, Nat.add_sub_cancel]
    all_goals rw [htake, List.length_cons] at *; omega
  rw [searchLineColumn, lineColumn, hlast, lineStarts, getD_getLastD]

end SourceFile

/-! ### Places of the scan -/

namespace Scan

variable {start : Int} {p : Place} {pending : Nat} {cs : List Char} {t : Token}

/-- Counting character by character comes to the newlines so far and what stands behind the last. -/
theorem foldl_after (q : List Char) :
    q.foldl Place.after {} = ⟨q.length, q.count '\n' + 1, SourceFile.sinceNewline q + 1⟩ := by
  induction q using List.reverseRecOn with
  | nil => rfl
  | append_singleton q c ih =>
    rw [List.foldl_append, ih, List.foldl_cons, List.foldl_nil, Place.after, List.length_append,
      List.count_append, List.count_singleton, SourceFile.sinceNewline_append_singleton]
    split
    · next hc =>
      subst hc
      rfl
    · next hc => rw [if_neg (by simpa using hc)]; rfl

/-- A token has the place that the characters in front of it lead to. -/
theorem exists_place (h : t ∈ (scanFrom start p pending cs).tokens) :
    ∃ q, q <+: cs ∧ t.lo = start + (q.foldl Place.after p).offset ∧
      t.line = (q.foldl Place.after p).line ∧ t.column = (q.foldl Place.after p).column := by
  induction cs generalizing p pending with
  | nil => cases pending <;> cases h
  | cons c cs ih =>
    have hnext {rest : Nat} (h : t ∈ (scanFrom start (p.after c) rest cs).tokens) :
        ∃ q, q <+: c :: cs ∧ t.lo = start + (q.foldl Place.after p).offset ∧
          t.line = (q.foldl Place.after p).line ∧ t.column = (q.foldl Place.after p).column := by
      obtain ⟨q, hq, hplace⟩ := ih h
      exact ⟨c :: q, (List.prefix_cons_inj c).2 hq, hplace⟩
    cases pending with
    | succ pending => exact hnext h
    | zero =>
      simp only [scanFrom] at h
      split at h
      · exact hnext h
      · cases h
      · obtain rfl | h := List.mem_cons.1 h
        · exact ⟨[], List.nil_prefix, rfl, rfl, rfl⟩
        · exact hnext h

end Scan

/-- The line of a position counts the newlines in front of it, its column what stands between the last of
them and the position; halving the table of lines finds the same; and a token carries the line and the
column of the position where it begins. -/
theorem tokenize_lineColumn (name code : String) (start : Int) :
    let file : SourceFile := ⟨name, code.toList, start⟩
    (∀ i ≤ code.length, ∃ k, LineStart code.toList i k ∧
        file.lineColumn (start + i - file.start).toNat =
          ((code.toList.take i).count '\n' + 1, i - k + 1)) ∧
      (∀ offset, file.searchLineColumn offset = file.lineColumn offset) ∧
      ∀ t ∈ (tokenize code start).tokens,
        file.lineColumn (t.lo - file.start).toNat = (t.line, t.column) := by
  intro file
  have hlength : file.chars.length = code.length := String.length_toList
  refine ⟨fun i hi => ?_, file.searchLineColumn_eq, fun t ht => ?_⟩
  · rw [← hlength] at hi
    obtain ⟨k, hk, hsince⟩ := SourceFile.exists_lineStart hi
    have hoffset : (start + i - file.start).toNat = i := by
      have : file.start = start := rfl
      omega
    refine ⟨k, hk, ?_⟩
    rw [hoffset, file.lineColumn_eq hi, hsince]
  · obtain ⟨q, hq, hlo, hline, hcolumn⟩ := Scan.exists_place ht
    rw [Scan.foldl_after] at hlo hline hcolumn
    dsimp only at hlo hline hcolumn
    have hoffset : (t.lo - file.start).toNat = q.length := by
      have : file.start = start := rfl
      omega
    rw [hoffset, file.lineColumn_eq hq.length_le, List.prefix_iff_eq_take.1 hq |>.symm, hline, hcolumn]

end BuilderMigration
