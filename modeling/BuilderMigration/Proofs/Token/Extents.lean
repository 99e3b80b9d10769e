import BuilderMigration.Proofs.Token.Lexes

/-! Where block comments and raw strings end. A block comment ends behind the shortest text in which each
comment that is opened is closed, with its marks read from left to right without overlap; it never ends if
there is no such text. A raw string ends with the first quote that is followed by as many hashes as stand in
front of it, so it holds any text that has no such quote in it. -/

namespace BuilderMigration

open Lexeme (blockComment piece rawRest rawStart? run)

variable {ms ns : List CommentMark} {c : Char} {p q s t u : List Char} {n hashes : Nat}

/-! ### Marks of comments -/

theorem exists_of_opening (h : commentMarks q = .opening :: ms) :
    ∃ cs, q = '/' :: '*' :: cs ∧ commentMarks cs = ms := by
  unfold commentMarks at h
  split at h
  · exact ⟨_, rfl, (List.cons.inj h).2⟩
  all_goals cases h

theorem exists_of_closing (h : commentMarks q = .closing :: ms) :
    ∃ cs, q = '*' :: '/' :: cs ∧ commentMarks cs = ms := by
  unfold commentMarks at h
  split at h
  · cases h
  · exact ⟨_, rfl, (List.cons.inj h).2⟩
  all_goals cases h

theorem exists_of_text (h : commentMarks q = .text c :: ms) :
    ∃ cs, q = c :: cs ∧ commentMarks cs = ms ∧ (∀ ds, c = '/' → cs ≠ '*' :: ds) ∧
      ∀ ds, c = '*' → cs ≠ '/' :: ds := by
  unfold commentMarks at h
  split at h
  · cases h
  · cases h
  · next h₁ h₂ =>
    simp only [List.cons.injEq, CommentMark.text.injEq] at h
    obtain ⟨rfl, rfl⟩ := h
    exact ⟨_, rfl, rfl, h₁, h₂⟩
  · cases h

/-! ### Block comments -/

/-- The search for the end of a comment passes over balanced marks. -/
theorem blockComment_balanced (h : Balanced ms) (hq : commentMarks q = ms ++ .closing :: ns)
    (depth : Nat) (u : List Char) : ∃ p r, q = p ++ r ∧ commentMarks r = .closing :: ns ∧
      blockComment (depth + 1) (q ++ u) = (blockComment (depth + 1) (r ++ u)).map (· + p.length) := by
  induction h generalizing q ns depth with
  | nil => exact ⟨[], q, rfl, hq, by simp⟩
  | @text c ms _ ih =>
    obtain ⟨cs, rfl, hcs, h₁, h₂⟩ := exists_of_text hq
    have hne : cs ≠ [] := by
      rintro rfl
      simp [commentMarks] at hcs
    obtain ⟨p, r, rfl, hr, hp⟩ := ih hcs depth
    refine ⟨c :: p, r, rfl, hr, ?_⟩
    rw [List.cons_append, Lexeme.blockComment_text hne h₁ h₂, hp, Option.map_map]
    rfl
  | @nested ms ms' _ _ ih ih' =>
    rw [List.cons_append, List.cons_append, List.append_assoc, List.cons_append] at hq
    obtain ⟨q₁, rfl, hq₁⟩ := exists_of_opening hq
    obtain ⟨p₁, r₁, rfl, hr₁, hp₁⟩ := ih hq₁ (depth + 1)
    obtain ⟨q₂, rfl, hq₂⟩ := exists_of_closing hr₁
    obtain ⟨p₂, r, rfl, hr, hp₂⟩ := ih' hq₂ depth
    refine ⟨'/' :: '*' :: (p₁ ++ '*' :: '/' :: p₂), r, by simp, hr, ?_⟩
    have hdeep : ¬ depth + 1 + 1 ≤ 1 := by omega
    simp only [List.cons_append, blockComment, hp₁, if_neg hdeep, Nat.add_sub_cancel, hp₂,
      Option.map_map]
    congr 1
    funext n
    simp only [Function.comp_apply, List.length_cons, List.length_append]
    omega

/-- A head `p` of the text `t` that begins as a comment does and in which every comment that is opened is
closed. -/
structure Commented (p t : List Char) : Prop where
  heads : p <+: t
  opens : ['/', '*'] <+: p
  balanced : Balanced (commentMarks p)

/-- The shortest head of a text in which every comment that is opened is closed. -/
structure ShortestComment (p t : List Char) : Prop extends Commented p t where
  le : ∀ q, Commented q t → p.length ≤ q.length

/-- A comment ends no later than any head of the text that is balanced. -/
theorem Commented.exists_blockComment (h : Commented q t) :
    ∃ n ≤ q.length, blockComment 0 t = some n := by
  obtain ⟨⟨u, rfl⟩, ⟨cs, rfl⟩, hb⟩ := h
  simp only [List.cons_append, List.nil_append, commentMarks] at hb ⊢
  generalize hms : CommentMark.opening :: commentMarks cs = ms at hb
  cases hb with
  | nil => cases hms
  | text => cases hms
  | @nested ms ns hi hr =>
    obtain ⟨p, r, rfl, hr, hp⟩ := blockComment_balanced hi (List.cons.inj hms).2 0 u
    obtain ⟨cs, rfl, -⟩ := exists_of_closing hr
    refine ⟨p.length + 4, by simp, ?_⟩
    simp only [blockComment, hp, List.cons_append]
    simp [Nat.add_comm, Nat.add_left_comm]

/-- What a block comment takes of a text is balanced. -/
theorem commented_take (h : blockComment 0 ('/' :: '*' :: u) = some n) :
    Commented (('/' :: '*' :: u).take n) ('/' :: '*' :: u) ∧ (('/' :: '*' :: u).take n).length = n := by
  have hlength := List.length_take_of_le (Lexeme.blockComment_within 0 _ n h).2
  have htwo := Lexeme.two_le_blockComment 0 _ n h
  obtain ⟨k, rfl⟩ := Nat.exists_eq_add_of_le' htwo
  simp only [List.take_succ_cons] at hlength ⊢
  have hcomment : IsBlockComment ('/' :: '*' :: u.take k) := by
    refine isBlockComment_of_blockComment (u := u.drop k) ?_
    rw [List.cons_append, List.cons_append, List.take_append_drop, h, hlength]
  obtain ⟨ms, hms, hb⟩ := hcomment
  refine ⟨⟨?_, List.prefix_append _ _, ?_⟩, hlength⟩
  · exact List.take_prefix (k + 2) ('/' :: '*' :: u)
  · rw [hms]
    exact .nested hb .nil

theorem ShortestComment.length_eq (h : ShortestComment p t) (h' : ShortestComment q t) :
    p.length = q.length :=
  Nat.le_antisymm (h.le q h'.toCommented) (h'.le p h.toCommented)

theorem shortestComment_take (h : blockComment 0 ('/' :: '*' :: u) = some n) :
    ShortestComment (('/' :: '*' :: u).take n) ('/' :: '*' :: u) ∧
      n = (('/' :: '*' :: u).take n).length := by
  obtain ⟨hc, hlength⟩ := commented_take h
  refine ⟨⟨hc, fun q hq => ?_⟩, hlength.symm⟩
  obtain ⟨m, hm, hend⟩ := hq.exists_blockComment
  rw [hlength]
  exact Option.some.inj (h.symm.trans hend) ▸ hm

theorem blockComment_eq_some_iff : blockComment 0 ('/' :: '*' :: u) = some n ↔
    ∃ p, ShortestComment p ('/' :: '*' :: u) ∧ n = p.length := by
  constructor
  · intro h
    exact ⟨_, shortestComment_take h⟩
  · rintro ⟨p, hp, rfl⟩
    obtain ⟨n, -, hn⟩ := hp.exists_blockComment
    obtain ⟨hshortest, hlength⟩ := shortestComment_take hn
    rw [hn, hlength, hp.length_eq hshortest]

theorem blockComment_eq_none_iff : blockComment 0 ('/' :: '*' :: u) = none ↔
    ¬ ∃ p, Commented p ('/' :: '*' :: u) := by
  constructor
  · rintro h ⟨p, hp⟩
    obtain ⟨n, -, hn⟩ := hp.exists_blockComment
    cases h.symm.trans hn
  · intro h
    cases hn : blockComment 0 ('/' :: '*' :: u) with
    | none => rfl
    | some n => exact absurd ⟨_, (commented_take hn).1⟩ h

/-! ### Raw strings -/

/-- What ends a raw string: a quote and some hashes. -/
def rawEnd (hashes : Nat) : List Char := '"' :: List.replicate hashes '#'

/-- A text between quotes as a raw string, with some hashes on either side. -/
def rawString (hashes : Nat) (s : String) : String :=
  String.ofList ('r' :: (List.replicate hashes '#' ++ '"' :: (s.toList ++ rawEnd hashes)))

/-- Hashes in front of a text with a quote in it stand in front of the quote. -/
theorem hashes_heads (h : List.replicate hashes '#' <+: s ++ '"' :: u) :
    List.replicate hashes '#' <+: s := by
  by_cases hle : hashes ≤ s.length
  · exact List.prefix_of_prefix_length_le h (List.prefix_append _ _) (by simpa using hle)
  · have hquote : s ++ ['"'] <+: List.replicate hashes '#' := by
      have hheads : s ++ ['"'] <+: s ++ '"' :: u := ⟨u, by simp⟩
      refine List.prefix_of_prefix_length_le hheads h ?_
      simp only [List.length_append, List.length_singleton, List.length_replicate]
      omega
    have hmem : '"' ∈ List.replicate hashes '#' := hquote.subset (by simp)
    cases List.eq_of_mem_replicate hmem

/-- A text that holds no end of a raw string goes on to the one behind it. -/
theorem rawRest_of_not_infix (h : ¬ rawEnd hashes <:+: s) (u : List Char) :
    rawRest hashes (s ++ (rawEnd hashes ++ u)) = some (s.length + (hashes + 1)) := by
  induction s with
  | nil => simp [rawEnd, rawRest]
  | cons c s ih =>
    have hno : ¬ (c = '"' ∧
        (List.replicate hashes '#').isPrefixOf (s ++ (rawEnd hashes ++ u)) = true) := by
      rintro ⟨rfl, hhead⟩
      obtain ⟨r, rfl⟩ := hashes_heads (List.isPrefixOf_iff_prefix.1 hhead)
      exact h (List.prefix_append (rawEnd hashes) r).isInfix
    have hrest := ih fun hs => h (hs.trans (List.suffix_cons c s).isInfix)
    rw [List.cons_append, rawRest, if_neg hno, hrest, Option.map_some, List.length_cons]
    congr 1
    omega

/-- A raw string ends within a text that holds an end of it. -/
theorem rawRest_of_infix (h : rawEnd hashes <:+: s) (u : List Char) :
    ∃ n ≤ s.length, rawRest hashes (s ++ u) = some n := by
  obtain ⟨a, b, rfl⟩ := h
  induction a with
  | nil =>
    refine ⟨hashes + 1, by simp [rawEnd], ?_⟩
    simp [rawEnd, rawRest]
  | cons c a ih =>
    obtain ⟨n, hn, hend⟩ := ih
    simp only [List.cons_append, List.length_cons, rawRest]
    split
    · refine ⟨hashes + 1, ?_, rfl⟩
      simp only [rawEnd, List.length_append, List.length_cons, List.length_replicate]
      omega
    · exact ⟨n + 1, Nat.succ_le_succ hn, by rw [hend]; rfl⟩

/-- The piece that begins with the opening of a raw string. -/
theorem piece_rawString (h : rawRest hashes u = some n) :
    piece ('r' :: (List.replicate hashes '#' ++ '"' :: u)) = .token .string (hashes + 2 + n) := by
  have hrun : run (· == '#') (List.replicate hashes '#' ++ '"' :: u) = hashes := by
    rw [Lexeme.run_append]
    simp [run]
  have hstart : rawStart? ('r' :: (List.replicate hashes '#' ++ '"' :: u)) = some (hashes + 2, hashes) := by
    simp only [rawStart?, rawStart?.start, hrun]
    rw [List.drop_left' (List.length_replicate ..)]
    simp only [Option.some.injEq, Prod.mk.injEq, and_true]
    omega
  have hdrop : ('r' :: (List.replicate hashes '#' ++ '"' :: u)).drop (hashes + 2) = u := by
    rw [List.drop_succ_cons, List.append_cons]
    exact List.drop_left' (by simp)
  rw [Lexeme.piece_of_token (by decide) (by decide), Lexeme.tokenPiece, hstart]
  dsimp only
  rw [hdrop, h]

theorem length_rawString (hashes : Nat) (s : String) :
    (rawString hashes s).length = hashes + 2 + (s.length + (hashes + 1)) := by
  simp only [rawString, rawEnd, String.length_ofList, List.length_cons, List.length_append,
    List.length_replicate, String.length_toList]
  omega

/-- A text in quotes and hashes is one string just if it holds no quote with as many hashes behind it. -/
theorem tokenize_rawString_iff (hashes : Nat) (s : String) (start : Int) :
    tokenize (rawString hashes s) start = ⟨[⟨.string, rawString hashes s, start,
        start + (rawString hashes s).length, 1, 1⟩], none⟩ ↔
      ¬ rawEnd hashes <:+: s.toList := by
  have hchars : (rawString hashes s).toList =
      'r' :: (List.replicate hashes '#' ++ '"' :: (s.toList ++ rawEnd hashes)) := String.toList_ofList
  constructor
  · intro h hin
    obtain ⟨n, hn, hend⟩ := rawRest_of_infix hin (rawEnd hashes)
    have hhi := congrArg (fun scan => scan.tokens.map (·.hi)) h
    rw [tokenize, hchars, Scan.scanFrom, piece_rawString hend] at hhi
    have hfirst := (List.cons.inj hhi).1
    rw [length_rawString] at hfirst
    rw [String.length_toList] at hn
    dsimp only at hfirst
    omega
  · intro h
    have hend := rawRest_of_not_infix h []
    rw [List.append_nil, String.length_toList] at hend
    have hpiece : piece ((rawString hashes s).toList ++ []) =
        .token .string (rawString hashes s).toList.length := by
      rw [List.append_nil, String.length_toList, length_rawString, hchars, piece_rawString hend]
    have hne : (rawString hashes s).toList ≠ [] := by
      rw [hchars]
      exact List.cons_ne_nil _ _
    have hscan : Scan.scanFrom start {} 0 ((rawString hashes s).toList ++ []) = _ :=
      Scan.scanFrom_token hpiece hne
    rw [List.append_nil] at hscan
    rw [tokenize, hscan]
    simp [Scan.scanFrom, Scan.tokenText, ← String.length_toList]

/-- A block comment ends behind the shortest text that is balanced, and never if there is none. A raw string
is one token with all its text just if it holds no end of its own. -/
theorem extents_exact (u : List Char) (hashes : Nat) (s : String) (start : Int) :
    ((∀ n, blockComment 0 ('/' :: '*' :: u) = some n ↔
        ∃ p, ShortestComment p ('/' :: '*' :: u) ∧ n = p.length) ∧
      (blockComment 0 ('/' :: '*' :: u) = none ↔ ¬ ∃ p, Commented p ('/' :: '*' :: u))) ∧
    (tokenize (rawString hashes s) start = ⟨[⟨.string, rawString hashes s, start,
        start + (rawString hashes s).length, 1, 1⟩], none⟩ ↔
      ¬ rawEnd hashes <:+: s.toList) :=
  ⟨⟨fun _ => blockComment_eq_some_iff, blockComment_eq_none_iff⟩, tokenize_rawString_iff hashes s start⟩

/-- A slash belongs to one mark only. -/
example : blockComment 0 "/*/ /*/**/*/ */ x".toList = some 15 ∧ blockComment 0 "/*/".toList = none := by
  decide

end BuilderMigration
