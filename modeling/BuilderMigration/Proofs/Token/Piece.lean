import BuilderMigration.Proofs.Token.Lexeme

/-! What the piece at the head of a text owes to the text behind it. Strings, characters and block
comments are told by their own text; every other piece looks at what follows it, and never goes on into
a break: a blank, a comma, a semicolon or a bracket. Between tokens stand blanks, line comments and block
comments. A block comment is described by its marks, read from left to right without overlap: they are
nested as brackets are. -/

namespace BuilderMigration.Lexeme

variable {c d mark : Char} {cs p u v s r x : List Char} {n depth hashes : Nat}

/-! ### Blanks and comments -/

theorem piece_of_blank (h : Text.isBlank c = true) (cs : List Char) : piece (c :: cs) = .skip 1 := by
  have hc : c ≠ '/' := by
    rintro rfl
    simp [Text.isBlank] at h
  unfold piece
  split <;> simp_all

theorem piece_of_blockComment (h : blockComment 0 ('/' :: '*' :: cs) = some n) :
    piece ('/' :: '*' :: cs) = .skip n := by
  unfold piece
  split
  · next hcs => cases hcs
  · next hcs => simp at hcs
  · next hcs =>
    simp only [List.cons.injEq, true_and] at hcs
    rw [← hcs, h]
  · next hopen hcs =>
    obtain ⟨rfl, rfl⟩ := List.cons.inj hcs
    exact absurd rfl (hopen cs rfl)

theorem piece_of_token (hb : Text.isBlank c = false) (hc : c ≠ '/') (cs : List Char) :
    piece (c :: cs) = tokenPiece (c :: cs) := by
  unfold piece
  split <;> simp_all

theorem blockComment_within (depth : Nat) (cs : List Char) : Within cs (blockComment depth cs) := by
  induction depth, cs using blockComment.induct with
  | case1 depth cs ih => exact ih.more (by simp)
  | case2 depth cs hd =>
    rw [blockComment, if_pos hd]
    exact .some (by omega) (by simp)
  | case3 depth cs hd ih =>
    rw [blockComment, if_neg hd]
    exact ih.more (by simp)
  | case4 depth c cs h₁ h₂ ih =>
    rw [blockComment.eq_3 _ _ _ h₁ h₂]
    exact ih.more (by simp)
  | case5 depth => exact .none

theorem two_le_blockComment (depth : Nat) (cs : List Char) :
    ∀ n, blockComment depth cs = some n → 2 ≤ n := by
  induction depth, cs using blockComment.induct with
  | case1 depth cs ih =>
    simp only [blockComment, Option.map_eq_some_iff, forall_exists_index, and_imp]
    omega
  | case2 depth cs hd => simp [blockComment, if_pos hd]
  | case3 depth cs hd ih =>
    simp only [blockComment, if_neg hd, Option.map_eq_some_iff, forall_exists_index, and_imp]
    omega
  | case4 depth c cs h₁ h₂ ih =>
    rw [blockComment.eq_3 _ _ _ h₁ h₂]
    simp only [Option.map_eq_some_iff, forall_exists_index, and_imp]
    rintro n m hm rfl
    have := ih m hm
    omega
  | case5 depth => nofun

/-- A character with which no mark begins is passed over. -/
theorem blockComment_text (hne : cs ≠ []) (h₁ : ∀ ds, c = '/' → cs ≠ '*' :: ds)
    (h₂ : ∀ ds, c = '*' → cs ≠ '/' :: ds) (depth : Nat) (u : List Char) :
    blockComment depth (c :: (cs ++ u)) = (blockComment depth (cs ++ u)).map (· + 1) := by
  obtain ⟨d, cs, rfl⟩ := List.exists_cons_of_ne_nil hne
  refine blockComment.eq_3 _ _ _ (fun ds hc hd => ?_) fun ds hc hd => ?_
  · exact h₁ cs hc (by simp_all)
  · exact h₂ cs hc (by simp_all)

/-- The end of a block comment is told by the comment. -/
theorem blockComment_append (h : blockComment depth (p ++ u) = some p.length) (v : List Char) :
    blockComment depth (p ++ v) = some p.length := by
  induction depth, p using blockComment.induct with
  | case1 depth cs ih =>
    simp only [List.cons_append, blockComment, List.length_cons, Option.map_eq_some_iff,
      Nat.add_right_cancel_iff, exists_eq_right] at h ⊢
    exact ih h
  | case2 depth cs hd =>
    simp only [List.cons_append, blockComment, if_pos hd] at h ⊢
    exact h
  | case3 depth cs hd ih =>
    simp only [List.cons_append, blockComment, if_neg hd, List.length_cons, Option.map_eq_some_iff,
      Nat.add_right_cancel_iff, exists_eq_right] at h ⊢
    exact ih h
  | case4 depth c cs h₁ h₂ ih =>
    cases cs with
    | nil => exact absurd (two_le_blockComment _ _ _ h) (by simp)
    | cons c' cs =>
      have hstep := blockComment_text (List.cons_ne_nil c' cs) h₁ h₂ depth
      simp only [List.cons_append, List.length_cons] at h ⊢
      rw [← List.cons_append, hstep] at h ⊢
      simp only [Option.map_eq_some_iff, Nat.add_right_cancel_iff, exists_eq_right] at h ⊢
      exact ih h
  | case5 depth => exact absurd (two_le_blockComment _ _ _ h) (by simp)

/-! ### Runs -/

theorem run_cons (q : Char → Bool) (c : Char) (cs : List Char) :
    run q (c :: cs) = if q c then run q cs + 1 else 0 := by
  unfold run
  rw [List.takeWhile_cons]
  split <;> rfl

/-- A run that ends within a text does so whatever follows, and one through all of it goes on. -/
theorem run_append (q : Char → Bool) (s r : List Char) :
    run q (s ++ r) = if run q s < s.length then run q s else s.length + run q r := by
  induction s with
  | nil => simp [run]
  | cons c s ih =>
    rw [List.cons_append, run_cons, run_cons, ih, List.length_cons]
    cases q c <;> grind

theorem run_eq_zero {q : Char → Bool} (h : ∀ c ∈ v.head?, q c = false) : run q v = 0 := by
  cases v with
  | nil => rfl
  | cons c cs => simp [run_cons, h c (by simp)]

/-- A run within a text is the same in front of any text that does not continue it. -/
theorem run_cut {q : Char → Bool} (hv : ∀ c ∈ v.head?, q c = false)
    (h : run q (s ++ r) ≤ s.length) : run q (s ++ v) = run q (s ++ r) := by
  rw [run_append] at h
  rw [run_append, run_append, run_eq_zero hv]
  grind

/-- A line comment is one in front of any text that does not make it longer. -/
theorem lineComment_append (h : lineComment (p ++ (c :: u)) = p.length)
    (hv : c = '\n' → v.head? = some '\n') : lineComment (p ++ v) = p.length := by
  have hnext : c = '\n' := Decidable.byContradiction fun hc => by
    rw [lineComment, run_append, run_cons] at h
    split at h
    · omega
    · simp [hc] at h
  refine Eq.trans (run_cut (fun d hd => ?_) (Nat.le_of_eq h)) h
  rw [hv hnext, Option.mem_some_iff] at hd
  simp [← hd]

theorem tokenPiece_ne_skip : tokenPiece cs ≠ .skip n := by
  unfold tokenPiece
  split <;> split <;> nofun

/-- A blank or a comment is one in front of any text that makes no line comment longer. -/
theorem piece_skip_append (h : piece (p ++ (c :: u)) = .skip p.length) (hp : p ≠ [])
    (hv : c = '\n' → v.head? = some '\n') : piece (p ++ v) = .skip p.length := by
  obtain _ | ⟨c₁, _ | ⟨c₂, p⟩⟩ := p
  · exact absurd rfl hp
  · -- one character: a blank, since no comment is that short
    rw [List.singleton_append] at h ⊢
    unfold piece at h
    split at h
    · next hcs => cases hcs
    · simp [lineComment, run_cons] at h
    · split at h
      · next hblock =>
        obtain rfl := Piece.skip.inj h
        exact absurd (two_le_blockComment _ _ _ hblock) (by simp)
      · cases h
    · next hcs =>
      obtain ⟨rfl, rfl⟩ := List.cons.inj hcs
      split at h
      · next hblank => exact piece_of_blank hblank v
      · exact absurd h tokenPiece_ne_skip
  · simp only [List.cons_append] at h ⊢
    unfold piece at h
    split at h
    · next hcs => cases hcs
    · next hcs =>
      simp only [List.cons.injEq] at hcs
      obtain ⟨rfl, rfl, rfl⟩ := hcs
      exact congrArg Piece.skip (lineComment_append (p := '/' :: '/' :: p) (Piece.skip.inj h) hv)
    · next hcs =>
      simp only [List.cons.injEq] at hcs
      obtain ⟨rfl, rfl, rfl⟩ := hcs
      split at h
      · next hblock =>
        obtain rfl := Piece.skip.inj h
        have hblock := blockComment_append (p := '/' :: '*' :: p) hblock v
        exact piece_of_blockComment hblock
      · cases h
    · split at h
      · cases Piece.skip.inj h
      · exact absurd h tokenPiece_ne_skip

/-- A text that is not empty begins with a fault or with a piece. -/
theorem piece_cases (hne : cs ≠ []) : (∃ cause, piece cs = .fault cause) ∨
    ∃ p v, cs = p ++ v ∧ p ≠ [] ∧
      (piece cs = .skip p.length ∨ ∃ kind, piece cs = .token kind p.length) := by
  have hpiece {n : Nat} (hn : 0 < n ∧ n ≤ cs.length)
      (h : piece cs = .skip n ∨ ∃ kind, piece cs = .token kind n) :
      ∃ p v, cs = p ++ v ∧ p ≠ [] ∧
        (piece cs = .skip p.length ∨ ∃ kind, piece cs = .token kind p.length) := by
    refine ⟨cs.take n, cs.drop n, (List.take_append_drop n cs).symm, ?_, ?_⟩
    · rw [Ne, List.take_eq_nil_iff]
      exact not_or.2 ⟨by omega, hne⟩
    · rwa [List.length_take_of_le hn.2]
  cases h : piece cs with
  | fault cause => exact .inl ⟨cause, rfl⟩
  | token kind n => exact .inr (h ▸ hpiece (piece_token h) (.inr ⟨kind, h⟩))
  | skip n =>
    refine .inr (h ▸ hpiece ?_ (.inl h))
    unfold piece at h
    split at h
    · exact absurd rfl hne
    · next cs =>
      obtain rfl := Piece.skip.inj h
      have := run_le (· != '\n') ('/' :: '/' :: cs)
      rw [lineComment]
      refine ⟨?_, this⟩
      simp [run_cons]
    · split at h
      · next hblock =>
        obtain rfl := Piece.skip.inj h
        exact blockComment_within _ _ _ hblock
      · cases h
    · split at h
      · obtain rfl := Piece.skip.inj h
        exact ⟨Nat.one_pos, by simp⟩
      · exact absurd h tokenPiece_ne_skip

end BuilderMigration.Lexeme

namespace BuilderMigration

/-! ### Block comments -/

/-- What a text is made of where comments are concerned. -/
inductive CommentMark where
  | opening
  | closing
  | text (c : Char)

/-- The marks of a text, read from left to right without overlap. -/
def commentMarks : List Char → List CommentMark
  | '/' :: '*' :: cs => .opening :: commentMarks cs
  | '*' :: '/' :: cs => .closing :: commentMarks cs
  | c :: cs => .text c :: commentMarks cs
  | [] => []

/-- Marks in which every comment that is opened is closed, and no other. -/
inductive Balanced : List CommentMark → Prop
  | nil : Balanced []
  | text {c : Char} {ms : List CommentMark} (h : Balanced ms) : Balanced (.text c :: ms)
  | nested {ms ns : List CommentMark} (h : Balanced ms) (h' : Balanced ns) :
      Balanced (.opening :: ms ++ .closing :: ns)

/-- A block comment, with the comments that it holds. -/
def IsBlockComment (cs : List Char) : Prop :=
  ∃ ms, commentMarks cs = .opening :: ms ++ [.closing] ∧ Balanced ms

/-- Marks that close `depth + 1` comments, with balanced ones in front of each end, and stop there. -/
def ClosesAll : Nat → List CommentMark → Prop
  | 0, ms => ∃ inner, ms = inner ++ [.closing] ∧ Balanced inner
  | depth + 1, ms => ∃ inner rest, ms = inner ++ .closing :: rest ∧ Balanced inner ∧ ClosesAll depth rest

variable {depth : Nat} {ms : List CommentMark} {c : Char} {p u cs rest : List Char}

theorem ClosesAll.text (h : ClosesAll depth ms) : ClosesAll depth (.text c :: ms) := by
  cases depth with
  | zero =>
    obtain ⟨inner, rfl, hi⟩ := h
    exact ⟨.text c :: inner, rfl, hi.text⟩
  | succ depth =>
    obtain ⟨inner, rest, rfl, hi, hr⟩ := h
    exact ⟨.text c :: inner, rest, rfl, hi.text, hr⟩

/-- A comment that is opened takes the first of the ends. -/
theorem ClosesAll.opening (h : ClosesAll (depth + 1) ms) : ClosesAll depth (.opening :: ms) := by
  obtain ⟨inner, rest, rfl, hi, hr⟩ := h
  cases depth with
  | zero =>
    obtain ⟨last, rfl, hl⟩ := hr
    exact ⟨.opening :: inner ++ .closing :: last, by simp, hi.nested hl⟩
  | succ depth =>
    obtain ⟨next, rest, rfl, hn, hr⟩ := hr
    exact ⟨.opening :: inner ++ .closing :: next, rest, by simp, hi.nested hn, hr⟩

/-- What lies up to the end of some open comments closes them all. -/
theorem closesAll_of_blockComment
    (h : Lexeme.blockComment (depth + 1) (p ++ u) = some p.length) :
    ClosesAll depth (commentMarks p) := by
  generalize hd : depth + 1 = d at h
  induction d, p using Lexeme.blockComment.induct generalizing depth with
  | case1 d cs ih =>
    simp only [List.cons_append, Lexeme.blockComment, List.length_cons, Option.map_eq_some_iff,
      Nat.add_right_cancel_iff, exists_eq_right] at h
    exact (ih (by omega) h).opening
  | case2 d cs hle =>
    simp only [List.cons_append, Lexeme.blockComment, if_pos hle, List.length_cons,
      Option.some.injEq] at h
    obtain rfl : cs = [] := List.eq_nil_of_length_eq_zero (by omega)
    obtain rfl : depth = 0 := by omega
    exact ⟨[], rfl, .nil⟩
  | case3 d cs hle ih =>
    simp only [List.cons_append, Lexeme.blockComment, if_neg hle, List.length_cons,
      Option.map_eq_some_iff, Nat.add_right_cancel_iff, exists_eq_right] at h
    obtain ⟨depth, rfl⟩ : ∃ m, depth = m + 1 := ⟨depth - 1, by omega⟩
    exact ⟨[], _, rfl, .nil, ih (by omega) h⟩
  | case4 d c cs h₁ h₂ ih =>
    cases cs with
    | nil =>
      have := Lexeme.two_le_blockComment _ _ _ h
      simp at this
    | cons c' cs =>
      rw [List.cons_append, Lexeme.blockComment_text (List.cons_ne_nil c' cs) h₁ h₂] at h
      simp only [List.length_cons, Option.map_eq_some_iff, Nat.add_right_cancel_iff,
        exists_eq_right] at h
      rw [commentMarks.eq_3 _ _ h₁ h₂]
      exact (ih hd h).text
  | case5 d =>
    have := Lexeme.two_le_blockComment _ _ _ h
    simp at this

/-- A comment that is skipped is a block comment. -/
theorem isBlockComment_of_blockComment
    (h : Lexeme.blockComment 0 ('/' :: '*' :: p ++ u) = some ('/' :: '*' :: p).length) :
    IsBlockComment ('/' :: '*' :: p) := by
  simp only [List.cons_append, Lexeme.blockComment, List.length_cons, Option.map_eq_some_iff,
    Nat.add_right_cancel_iff, exists_eq_right] at h
  obtain ⟨ms, hms, hb⟩ := closesAll_of_blockComment h
  exact ⟨ms, by rw [commentMarks, hms]; rfl, hb⟩

/-! ### Gaps -/

/-- Blanks and comments in front of the text `rest`. A line comment goes to just before a newline or
to the end of the text. -/
inductive Gap (rest : List Char) : List Char → Prop
  | nil : Gap rest []
  | blank {c : Char} {cs : List Char} (hc : Text.isBlank c = true) (h : Gap rest cs) :
      Gap rest (c :: cs)
  | lineComment {body cs : List Char} (hb : '\n' ∉ body) (he : ∀ c ∈ (cs ++ rest).head?, c = '\n')
      (h : Gap rest cs) : Gap rest ('/' :: '/' :: body ++ cs)
  | blockComment {p cs : List Char} (hp : IsBlockComment p) (h : Gap rest cs) : Gap rest (p ++ cs)

/-- A line comment that is skipped holds no newline, and one or the end of the text follows. -/
theorem lineComment_spec (h : Lexeme.lineComment (p ++ cs) = p.length) :
    '\n' ∉ p ∧ ∀ c ∈ cs.head?, c = '\n' := by
  induction p with
  | nil =>
    refine ⟨List.not_mem_nil, fun c hc => ?_⟩
    obtain ⟨cs, rfl⟩ := List.head?_eq_some_iff.1 hc
    refine Decidable.byContradiction fun hne => ?_
    simp [Lexeme.lineComment, Lexeme.run_cons, hne] at h
  | cons d p ih =>
    rw [Lexeme.lineComment, List.cons_append, Lexeme.run_cons] at h
    by_cases hd : d = '\n'
    · simp [hd] at h
    · have hp : Lexeme.lineComment (p ++ cs) = p.length := by
        simpa [hd, Lexeme.lineComment] using h
      obtain ⟨hnot, hhead⟩ := ih hp
      exact ⟨by simp [hnot, Ne.symm hd], hhead⟩

/-- A piece that is skipped makes the gap behind it longer. -/
theorem Gap.of_skip (h : Lexeme.piece (p ++ (cs ++ rest)) = .skip p.length) (hne : p ≠ [])
    (hg : Gap rest cs) : Gap rest (p ++ cs) := by
  obtain ⟨c₁, q, rfl⟩ := List.exists_cons_of_ne_nil hne
  rw [List.cons_append] at h
  generalize hall : c₁ :: (q ++ (cs ++ rest)) = all at h
  unfold Lexeme.piece at h
  split at h
  · cases hall
  · next ds =>
    have hline := Lexeme.Piece.skip.inj h
    obtain ⟨rfl, hq⟩ := List.cons.inj hall
    have hlen := Lexeme.run_le (· != '\n') ('/' :: '/' :: ds)
    cases q with
    | nil => simp [Lexeme.lineComment, Lexeme.run_cons] at hline
    | cons c₂ q =>
      obtain ⟨rfl, rfl⟩ := List.cons.inj hq
      obtain ⟨hnot, hhead⟩ := lineComment_spec (p := '/' :: '/' :: q) hline
      exact .lineComment (fun hm => hnot (by simp [hm])) hhead hg
  · next ds =>
    obtain ⟨rfl, hq⟩ := List.cons.inj hall
    split at h
    · next n hblock =>
      obtain rfl := Lexeme.Piece.skip.inj h
      cases q with
      | nil => exact absurd (Lexeme.two_le_blockComment _ _ _ hblock) (by simp)
      | cons c₂ q =>
        obtain ⟨rfl, rfl⟩ := List.cons.inj hq
        exact .blockComment (isBlockComment_of_blockComment hblock) hg
    · cases h
  · next c ds _ _ =>
    split at h
    · next hblank =>
      obtain ⟨rfl, -⟩ := List.cons.inj hall
      obtain rfl : q = [] := by
        have := Lexeme.Piece.skip.inj h
        simpa using this.symm
      exact .blank hblank hg
    · exact absurd h Lexeme.tokenPiece_ne_skip

end BuilderMigration
