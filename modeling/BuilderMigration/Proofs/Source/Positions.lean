import BuilderMigration.Source.SourceMap
import Mathlib.Data.List.TakeWhile

/-! Positions in a map of files: the file that one belongs to, its line and column there, and the text
between two of them. -/

namespace BuilderMigration

/-! ### Lines and columns -/

namespace SourceFile

/-- How many characters stand behind the last newline of a text. -/
def sinceNewline (cs : List Char) : Nat := (cs.reverse.takeWhile (· ≠ '\n')).length

theorem sinceNewline_of_notMem {cs : List Char} (h : '\n' ∉ cs) : sinceNewline cs = cs.length := by
  have hall : ∀ c ∈ cs.reverse, decide (c ≠ '\n') = true := by
    intro c hc
    rw [decide_eq_true_eq]
    rintro rfl
    exact h (List.mem_reverse.1 hc)
  rw [sinceNewline, List.takeWhile_eq_self_iff.2 hall, List.length_reverse]

/-- Only the text behind a newline counts. -/
theorem sinceNewline_append_cons (before after : List Char) :
    sinceNewline (before ++ '\n' :: after) = sinceNewline after := by
  have hstop : ('\n' :: before.reverse).takeWhile (· ≠ '\n') = [] := rfl
  rw [sinceNewline, List.reverse_append, List.reverse_cons, List.append_assoc, List.singleton_append,
    List.takeWhile_append, hstop, List.append_nil, sinceNewline]
  split
  · next h => exact h.symm
  · rfl

theorem sinceNewline_cons (c : Char) {cs : List Char} (h : '\n' ∈ cs) :
    sinceNewline (c :: cs) = sinceNewline cs := by
  obtain ⟨before, after, rfl⟩ := List.append_of_mem h
  rw [← List.cons_append, sinceNewline_append_cons, sinceNewline_append_cons]

theorem lt_of_mem_laterLineStarts {cs : List Char} {k start : Nat}
    (h : start ∈ laterLineStarts k cs) : k < start := by
  induction cs generalizing k with
  | nil => cases h
  | cons c cs ih =>
    rw [laterLineStarts] at h
    split at h
    · obtain rfl | h := List.mem_cons.1 h
      · omega
      · have := ih h
        omega
    · have := ih h
      omega

/-- The lines that have begun in front of an offset: as many as there are newlines, and the last of
them at the character behind the last newline. -/
theorem takeWhile_laterLineStarts (cs : List Char) (k n first : Nat) (hn : n ≤ cs.length)
    (hfirst : first ≤ k) :
    ((laterLineStarts k cs).takeWhile (· ≤ k + n)).length = (cs.take n).count '\n' ∧
      k + n - ((laterLineStarts k cs).takeWhile (· ≤ k + n)).getLastD first =
        if '\n' ∈ cs.take n then sinceNewline (cs.take n) else k + n - first := by
  induction cs generalizing k n first with
  | nil => simp [laterLineStarts]
  | cons c cs ih =>
    cases n with
    | zero =>
      have hnone : (laterLineStarts k (c :: cs)).takeWhile (· ≤ k + 0) = [] := by
        rw [List.takeWhile_eq_nil_iff]
        intro hlength
        have := lt_of_mem_laterLineStarts (List.getElem_mem hlength)
        simpa using this
      rw [hnone]
      exact ⟨rfl, by simp⟩
    | succ n =>
      have hshift : k + (n + 1) = k + 1 + n := by omega
      rw [List.length_cons, Nat.add_le_add_iff_right] at hn
      rw [laterLineStarts, List.take_succ_cons, hshift]
      split
      · next hc =>
        obtain ⟨hcount, hlast⟩ := ih (k + 1) n (k + 1) hn (Nat.le_refl _)
        rw [List.takeWhile_cons_of_pos (by simp), List.length_cons, hcount, hc, List.count_cons_self,
          List.getLastD_cons, hlast, if_pos List.mem_cons_self]
        refine ⟨rfl, ?_⟩
        split
        · next hmem => exact (sinceNewline_cons '\n' hmem).symm
        · next hnone =>
          rw [← List.nil_append ('\n' :: _), sinceNewline_append_cons, sinceNewline_of_notMem hnone,
            List.length_take_of_le hn]
          omega
      · next hc =>
        obtain ⟨hcount, hlast⟩ := ih (k + 1) n first hn (by omega)
        rw [hcount, hlast, List.count_cons_of_ne (by simpa using hc)]
        refine ⟨rfl, ?_⟩
        have hmem : '\n' ∈ c :: cs.take n ↔ '\n' ∈ cs.take n := by
          rw [List.mem_cons, or_iff_right (Ne.symm hc)]
        simp only [hmem]
        split
        · next h => rw [sinceNewline_cons c h]
        · rfl

/-- The line of an offset counts the newlines in front of it, its column the characters behind the last
of them. -/
theorem lineColumn_eq (f : SourceFile) {offset : Nat} (h : offset ≤ f.chars.length) :
    f.lineColumn offset =
      ((f.chars.take offset).count '\n' + 1, sinceNewline (f.chars.take offset) + 1) := by
  obtain ⟨hcount, hlast⟩ := takeWhile_laterLineStarts f.chars 0 offset 0 h (Nat.le_refl 0)
  rw [Nat.zero_add] at hcount hlast
  rw [lineColumn]
  rw [hcount, hlast, Nat.sub_zero]
  split
  · rfl
  · next hnone => rw [sinceNewline_of_notMem hnone, List.length_take_of_le h]

end SourceFile

/-! ### Maps of files -/

namespace SourceMap

variable {m : SourceMap} {f g : SourceFile} {s : Span} {text : String} {pos : Int}

/-- Maps that come about by registering files and expansions. -/
inductive Registered : SourceMap → Prop
  | empty : Registered {}
  | add {m : SourceMap} (h : Registered m) (name text : String) : Registered (m.add name text).2
  | expand {m : SourceMap} (h : Registered m) (e : Expansion) : Registered (m.expand e).2

/-- Files lie one behind the other in front of the next free position, with a gap behind each. -/
theorem Registered.laid (h : m.Registered) :
    (m.files.Pairwise fun f g => f.stop < g.start) ∧ ∀ f ∈ m.files, f.stop < m.next := by
  induction h with
  | empty => exact ⟨.nil, nofun⟩
  | expand _ _ ih => exact ih
  | @add m _ name text ih =>
    have hfiles : (m.add name text).2.files = m.files ++ [⟨name, text.toList, m.next⟩] := rfl
    have hnext : (m.add name text).2.next = m.next + text.toList.length + 1 := rfl
    rw [hfiles, hnext, List.pairwise_append, List.forall_mem_append]
    refine ⟨⟨ih.1, List.pairwise_singleton _ _, ?_⟩, ?_, ?_⟩
    · exact fun f hf g hg => List.mem_singleton.1 hg ▸ ih.2 f hf
    · intro f hf
      have := ih.2 f hf
      omega
    · refine List.forall_mem_singleton.2 ?_
      simp only [SourceFile.stop]
      omega

theorem holds_iff : f.holds pos = true ↔ f.start ≤ pos ∧ pos ≤ f.stop := by
  rw [SourceFile.holds, Bool.and_eq_true, decide_eq_true_eq, decide_eq_true_eq]

/-- No position belongs to two files. -/
theorem Registered.eq_of_holds (h : m.Registered) (hf : f ∈ m.files) (hg : g ∈ m.files)
    (hfp : f.holds pos = true) (hgp : g.holds pos = true) : f = g := by
  rw [holds_iff] at hfp hgp
  have hapart := List.pairwise_iff_getElem.1 h.laid.1
  obtain ⟨i, hi, rfl⟩ := List.getElem_of_mem hf
  obtain ⟨j, hj, rfl⟩ := List.getElem_of_mem hg
  rcases Nat.lt_trichotomy i j with hij | rfl | hij
  · have := hapart i j hi hj hij
    omega
  · rfl
  · have := hapart j i hj hi hij
    omega

theorem mem_of_file? (h : m.file? pos = some f) : f ∈ m.files ∧ f.start ≤ pos ∧ pos ≤ f.stop := by
  have hholds := List.find?_some h
  exact ⟨List.mem_of_find?_eq_some h, holds_iff.1 hholds⟩

/-- Text that can be recovered lies in one file. -/
theorem exists_file_of_snippet (h : m.snippet? s = some text) : ∃ f, m.file? s.lo = some f ∧
    s.lo ≤ s.hi ∧ s.hi ≤ f.stop ∧
      text = String.ofList (Text.slice f.chars (s.lo - f.start).toNat (s.hi - f.start).toNat) := by
  unfold snippet? at h
  split at h
  · cases h
  · next hguard =>
    simp only [Bool.or_eq_true, decide_eq_true_eq, not_or] at hguard
    cases hf : m.file? s.lo with
    | none =>
      rw [hf] at h
      cases h
    | some f =>
      rw [hf] at h
      dsimp only at h
      split at h
      · cases h
      · exact ⟨f, rfl, by omega, by omega, (Option.some.inj h).symm⟩

theorem Registered.one_le_next (h : m.Registered) : 1 ≤ m.next := by
  induction h with
  | empty => exact Int.le_refl 1
  | expand _ _ ih => exact ih
  | @add m _ name text ih =>
    have hnext : (m.add name text).2.next = m.next + text.toList.length + 1 := rfl
    omega

/-- A position in front of the next free one belongs to one file, any other to none. -/
theorem Registered.countP_holds (h : m.Registered) (pos : Int) :
    m.files.countP (·.holds pos) = if 1 ≤ pos ∧ pos < m.next then 1 else 0 := by
  induction h with
  | empty =>
    rw [if_neg (by dsimp only; omega)]
    rfl
  | expand _ _ ih => exact ih
  | @add m h name text ih =>
    have hfiles : (m.add name text).2.files = m.files ++ [⟨name, text.toList, m.next⟩] := rfl
    have hnext : (m.add name text).2.next = m.next + text.toList.length + 1 := rfl
    have hone := h.one_le_next
    rw [hfiles, hnext, List.countP_append, ih, List.countP_singleton]
    simp only [holds_iff, SourceFile.stop]
    split <;> split <;> split <;> omega

/-- Where no position belongs to two files, the file that is found is the one that it belongs to. -/
theorem Registered.file?_eq_some_iff (h : m.Registered) :
    m.file? pos = some f ↔ f ∈ m.files ∧ f.holds pos = true := by
  refine ⟨fun hf => ⟨(mem_of_file? hf).1, holds_iff.2 (mem_of_file? hf).2⟩, fun ⟨hf, hholds⟩ => ?_⟩
  have hsome : (m.file? pos).isSome = true := List.find?_isSome.2 ⟨f, hf, hholds⟩
  obtain ⟨g, hg⟩ := Option.isSome_iff_exists.1 hsome
  obtain ⟨hgmem, hgholds⟩ := mem_of_file? hg
  rw [hg, h.eq_of_holds hf hgmem hholds (holds_iff.2 hgholds)]

/-- Text is recovered just if a span is no dummy and lies, in its order, in one file and in a context that
is not generated. -/
theorem Registered.snippet?_eq_some_iff (h : m.Registered) :
    m.snippet? s = some text ↔
      s.isDummy = false ∧ s.lo ≤ s.hi ∧ m.expansions.isGenerated s.ctxt = false ∧
        ∃ f ∈ m.files, f.holds s.lo = true ∧ f.holds s.hi = true ∧
          text = String.ofList (Text.slice f.chars (s.lo - f.start).toNat (s.hi - f.start).toNat) := by
  constructor
  · intro hs
    obtain ⟨f, hf, hle, hstop, htext⟩ := exists_file_of_snippet hs
    obtain ⟨hmem, hlo⟩ := mem_of_file? hf
    have hguard : (s.isDummy || decide (s.hi < s.lo) || m.expansions.isGenerated s.ctxt) = false := by
      rw [snippet?] at hs
      split at hs
      · cases hs
      · next hguard => simpa using hguard
    simp only [Bool.or_eq_false_iff] at hguard
    refine ⟨hguard.1.1, hle, hguard.2, f, hmem, holds_iff.2 hlo, holds_iff.2 ⟨?_, hstop⟩, htext⟩
    omega
  · rintro ⟨hdummy, hle, hgenerated, f, hf, hlo, hhi, rfl⟩
    have hstop := (holds_iff.1 hhi).2
    rw [snippet?, hdummy, hgenerated, h.file?_eq_some_iff.2 ⟨hf, hlo⟩]
    dsimp only
    rw [if_neg (by simpa using hle), if_neg (by omega)]

/-- Registered files share out the positions in front of the next free one; text is recovered of spans
within one of them and of no other. -/
theorem Registered.partitions (h : m.Registered) :
    (∀ pos, m.files.countP (·.holds pos) = if 1 ≤ pos ∧ pos < m.next then 1 else 0) ∧
      (∀ pos f, m.file? pos = some f ↔ f ∈ m.files ∧ f.holds pos = true) ∧
      (∀ s text, m.snippet? s = some text ↔
        s.isDummy = false ∧ s.lo ≤ s.hi ∧ m.expansions.isGenerated s.ctxt = false ∧
          ∃ f ∈ m.files, f.holds s.lo = true ∧ f.holds s.hi = true ∧
            text =
              String.ofList (Text.slice f.chars (s.lo - f.start).toNat (s.hi - f.start).toNat)) ∧
      ∀ s p q, ∀ f ∈ m.files, ∀ g ∈ m.files, f ≠ g → f.holds p = true → g.holds q = true →
        s.lo ≤ p → p ≤ s.hi → s.lo ≤ q → q ≤ s.hi → m.snippet? s = none := by
  refine ⟨h.countP_holds, fun pos f => h.file?_eq_some_iff, fun s text => h.snippet?_eq_some_iff, ?_⟩
  intro s p q f hf g hg hne hp hq hlop hphi hloq hqhi
  rw [Option.eq_none_iff_forall_ne_some]
  intro text htext
  obtain ⟨-, -, -, whole, hwhole, hlo, hhi, -⟩ := h.snippet?_eq_some_iff.1 htext
  rw [holds_iff] at hlo hhi
  have hfile {pos : Int} {k : SourceFile} (hk : k ∈ m.files) (hholds : k.holds pos = true)
      (hle : s.lo ≤ pos) (hge : pos ≤ s.hi) : k = whole :=
    h.eq_of_holds hk hwhole hholds (holds_iff.2 ⟨by omega, by omega⟩)
  exact hne ((hfile hf hp hlop hphi).trans (hfile hg hq hloq hqhi).symm)

/-- Three files, the second of them empty. -/
def threeFiles : SourceMap := (((SourceMap.add {} "a" "ab").2.add "b" "").2.add "c" "cd").2

/-- The one position of an empty file is its own, and a span that leads into it has no text. -/
theorem partitions_threeFiles : threeFiles.Registered ∧
    threeFiles.files.countP (·.holds 4) = 1 ∧ threeFiles.files.countP (·.holds 8) = 0 ∧
      threeFiles.snippet? ⟨5, 7, 0⟩ = some "cd" ∧ threeFiles.snippet? ⟨3, 4, 0⟩ = none := by
  have h : threeFiles.Registered := .add (.add (.add .empty "a" "ab") "b" "") "c" "cd"
  obtain ⟨hcount, -, htext, hnone⟩ := h.partitions
  refine ⟨h, hcount 4, hcount 8, (htext ⟨5, 7, 0⟩ "cd").2 ?_, ?_⟩
  · exact ⟨rfl, by decide, rfl, ⟨"c", "cd".toList, 5⟩, by decide +kernel, by decide, by decide, by decide +kernel⟩
  · exact hnone ⟨3, 4, 0⟩ 3 4 ⟨"a", "ab".toList, 1⟩ (by decide +kernel) ⟨"b", "".toList, 4⟩
      (by decide +kernel) (by decide +kernel) (by decide) (by decide) (by decide) (by decide) (by decide)
      (by decide)

end SourceMap

end BuilderMigration
