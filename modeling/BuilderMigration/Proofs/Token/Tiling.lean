import BuilderMigration.Proofs.Token.Piece
import BuilderMigration.Proofs.Token.Lexes

/-! Nothing of a text is lost. The scan goes from piece to piece and takes characters off the text at
every step; what it leaves behind are tokens, each with its own text, and the gaps around them. -/

namespace BuilderMigration

/-! ### The scan by steps -/

/-- A scan of the text that is left at a place, in some number of steps from piece to piece. Each step
takes at least one character. -/
inductive Scan.Steps (start : Int) : Place → List Char → Scan → Nat → Prop
  | done {p : Place} : Steps start p [] ⟨[], none⟩ 0
  | fault {p : Place} {cs : List Char} {cause : SyntaxError.Cause} (hne : cs ≠ [])
      (h : Lexeme.piece cs = .fault cause) : Steps start p cs ⟨[], some (faultAt p cause)⟩ 0
  | skip {p : Place} {q cs : List Char} {scan : Scan} {n : Nat} (hne : q ≠ [])
      (h : Lexeme.piece (q ++ cs) = .skip q.length) (hs : Steps start (q.foldl Place.after p) cs scan n) :
      Steps start p (q ++ cs) scan (n + 1)
  | token {p : Place} {q cs : List Char} {kind : TokenKind} {scan : Scan} {n : Nat} (hne : q ≠ [])
      (h : Lexeme.piece (q ++ cs) = .token kind q.length)
      (hs : Steps start (q.foldl Place.after p) cs scan n) :
      Steps start p (q ++ cs) ⟨⟨kind, tokenText kind q, start + p.offset, start + p.offset + q.length,
        p.line, p.column⟩ :: scan.tokens, scan.fault⟩ (n + 1)

/-- Every scan ends, after no more steps than there are characters. -/
theorem Scan.exists_steps (start : Int) (p : Place) (cs : List Char) :
    ∃ n, n ≤ cs.length ∧ Steps start p cs (scanFrom start p 0 cs) n := by
  induction hl : cs.length using Nat.strongRecOn generalizing p cs with
  | ind l ih =>
    by_cases hcs : cs = []
    · subst hcs
      exact ⟨0, Nat.zero_le _, .done⟩
    rcases Lexeme.piece_cases hcs with ⟨cause, hf⟩ | ⟨q, ds, rfl, hne, hq⟩
    · refine ⟨0, Nat.zero_le _, ?_⟩
      obtain ⟨c, cs, rfl⟩ := List.exists_cons_of_ne_nil hcs
      rw [scanFrom, hf]
      exact .fault hcs hf
    · have hpos := List.length_pos_iff.2 hne
      rw [List.length_append] at hl
      obtain ⟨n, hn, hs⟩ := ih ds.length (by omega) (q.foldl Place.after p) ds rfl
      refine ⟨n + 1, by omega, ?_⟩
      rcases hq with hq | ⟨kind, hq⟩
      · rw [scanFrom_skip hq hne]
        exact .skip hne hq hs
      · rw [scanFrom_token hq hne]
        exact .token hne hq hs

/-! ### Tokens and the gaps around them -/

/-- The text that a token has as its own: its value, with the marker in front where a raw identifier
lost it. -/
def Token.Spelled (t : Token) (text : List Char) : Prop :=
  text = (if t.kind = .ident ∧ ['r', '#'] <+: text then ['r', '#'] else []) ++ t.value.toList

theorem spelled_tokenText (kind : TokenKind) (text : List Char) (lo hi : Int) (line column : Nat) :
    Token.Spelled ⟨kind, Scan.tokenText kind text, lo, hi, line, column⟩ text := by
  unfold Token.Spelled Scan.tokenText
  split
  · simp
  · next hno =>
    split
    · next h =>
      obtain ⟨hk, cs, rfl⟩ := h
      exact (hno cs hk rfl).elim
    · simp

/-- The text `cs` at position `lo` as tokens with gaps around them, up to the text `rest`. -/
inductive Tiles (rest : List Char) : Int → List Char → List Token → Prop
  | gap {lo : Int} {gap : List Char} (hg : Gap rest gap) : Tiles rest lo (gap ++ rest) []
  | token {lo : Int} {gap text cs : List Char} {t : Token} {ts : List Token}
      (hg : Gap (text ++ cs) gap) (hne : text ≠ []) (hlo : t.lo = lo + gap.length)
      (hhi : t.hi = t.lo + text.length) (hv : t.Spelled text) (h : Tiles rest t.hi cs ts) :
      Tiles rest lo (gap ++ (text ++ cs)) (t :: ts)

variable {rest cs p : List Char} {lo start : Int} {ts : List Token}

/-- Something skipped in front of tokens and gaps belongs to the first gap. -/
theorem Tiles.skip (hp : Lexeme.piece (p ++ cs) = .skip p.length) (hne : p ≠ [])
    (h : Tiles rest (lo + p.length) cs ts) : Tiles rest lo (p ++ cs) ts := by
  cases h with
  | @gap _ gap hg =>
    rw [← List.append_assoc]
    exact .gap (.of_skip hp hne hg)
  | @token _ gap text cs t ts hg hte hlo hhi hv h =>
    rw [← List.append_assoc]
    refine .token (.of_skip hp hne hg) hte ?_ hhi hv h
    rw [hlo, List.length_append]
    omega

/-- What is left is no gap. -/
theorem Tiles.untokened : Tiles rest lo rest [] := @Tiles.gap rest lo [] .nil

/-- A token with no gap in front of it. -/
theorem Tiles.abut {t : Token} (hp : p ≠ []) (hlo : t.lo = lo) (hhi : t.hi = t.lo + p.length)
    (hv : t.Spelled p) (h : Tiles rest t.hi cs ts) : Tiles rest lo (p ++ cs) (t :: ts) :=
  @Tiles.token rest lo [] p cs t ts .nil hp (by simp [hlo]) hhi hv h

theorem Scan.Steps.tiles {p : Place} {scan : Scan} {n : Nat} (h : Steps start p cs scan n) :
    ∃ rest, Tiles rest (start + p.offset) cs scan.tokens ∧ (scan.fault = none → rest = []) := by
  induction h with
  | done => exact ⟨[], .untokened, fun _ => rfl⟩
  | @fault p cs cause hne h => exact ⟨cs, .untokened, nofun⟩
  | @skip p q cs scan n hne h _ ih =>
    obtain ⟨rest, ht, hr⟩ := ih
    rw [offset_foldl_after, Int.natCast_add, ← Int.add_assoc] at ht
    exact ⟨rest, ht.skip h hne, hr⟩
  | @token p q cs kind scan n hne h _ ih =>
    obtain ⟨rest, ht, hr⟩ := ih
    rw [offset_foldl_after, Int.natCast_add, ← Int.add_assoc] at ht
    exact ⟨rest, .abut hne rfl rfl (spelled_tokenText ..) ht, hr⟩

/-! ### Positions -/

/-- The characters from the position `lo` on up to `hi` of a text that begins at `start`. -/
def charsAt (start : Int) (cs : List Char) (lo hi : Int) : List Char :=
  (cs.drop (lo - start).toNat).take (hi - lo).toNat

/-- The characters of a text that begins at `start` from the position `lo` on. -/
def charsFrom (start : Int) (cs : List Char) (lo : Int) : List Char := cs.drop (lo - start).toNat

theorem charsFrom_append {front : List Char} (h : lo = start + front.length) :
    charsFrom start (front ++ cs) lo = cs := by
  have : (lo - start).toNat = front.length := by omega
  rw [charsFrom, this, List.drop_left]

theorem charsAt_append {front text : List Char} {hi : Int} (h : lo = start + front.length)
    (hhi : hi = lo + text.length) : charsAt start (front ++ (text ++ cs)) lo hi = text := by
  have : (hi - lo).toNat = text.length := by omega
  rw [charsAt, ← charsFrom, charsFrom_append h, this, List.take_left]

/-- From the position `lo` on a text that begins at `start` is tokens and the gaps around them: the
tokens are not empty and stand in order, each with its own text where it says; in front of each there
is a gap, and behind the last one too if the text is read to its end. -/
structure Lossless (start : Int) (cs : List Char) (lo : Int) (ts : List Token) (whole : Bool) :
    Prop where
  ordered : Ordered lo ts
  within : ∀ t ∈ ts, t.hi ≤ start + cs.length
  spelled : ∀ t ∈ ts, t.Spelled (charsAt start cs t.lo t.hi)
  between : ∀ before t after, ts = before ++ t :: after →
    Gap (charsFrom start cs t.lo) (charsAt start cs (endFrom lo before) t.lo)
  behind : whole = true → Gap [] (charsFrom start cs (endFrom lo ts))

theorem Tiles.lossless {front : List Char} {whole : Bool} (h : Tiles rest lo cs ts)
    (hlo : lo = start + front.length) (hw : whole = true → rest = []) :
    Lossless start (front ++ cs) lo ts whole := by
  induction h generalizing front with
  | @gap lo gap hg =>
    refine ⟨trivial, nofun, nofun, fun before t after h => ?_, fun h => ?_⟩
    · simp at h
    · obtain rfl := hw h
      rwa [List.append_nil, endFrom, charsFrom_append hlo]
  | @token lo gap text cs t ts hg hne htlo hthi hv _ ih =>
    have hpos := List.length_pos_iff.2 hne
    have hfront : t.lo = start + (front ++ gap).length := by
      rw [List.length_append]
      omega
    have hall : front ++ (gap ++ (text ++ cs)) = (front ++ gap ++ text) ++ cs := by simp
    have hnext : Lossless start (front ++ gap ++ text ++ cs) t.hi ts whole := by
      refine ih ?_
      rw [List.length_append, Int.natCast_add, ← Int.add_assoc, ← hfront, hthi]
    have hrest : charsFrom start (front ++ (gap ++ (text ++ cs))) t.lo = text ++ cs := by
      rw [← List.append_assoc front, charsFrom_append hfront]
    constructor
    case ordered => exact ⟨by omega, by omega, hnext.ordered⟩
    case within =>
      rw [hall]
      refine List.forall_mem_cons.2 ⟨?_, hnext.within⟩
      simp only [List.length_append] at hfront ⊢
      omega
    case spelled =>
      refine List.forall_mem_cons.2 ⟨?_, hall ▸ hnext.spelled⟩
      rwa [← List.append_assoc front, charsAt_append hfront hthi]
    case between =>
      intro before u after h
      cases before with
      | nil =>
        obtain ⟨rfl, rfl⟩ := List.cons.inj h
        rw [hrest, endFrom, charsAt_append hlo htlo]
        exact hg
      | cons v before =>
        obtain ⟨rfl, rfl⟩ := List.cons.inj h
        rw [hall]
        exact hnext.between before u after rfl
    case behind =>
      rw [hall]
      exact hnext.behind

/-- Tokenizing loses nothing, whether it comes to the end of the text or to a fault, and takes no more
steps than there are characters. -/
theorem tokenize_lossless (code : String) (start : Int) :
    Lossless start code.toList start (tokenize code start).tokens (tokenize code start).fault.isNone ∧
      ∃ n, n ≤ code.length ∧ Scan.Steps start {} code.toList (tokenize code start) n := by
  obtain ⟨n, hn, hs⟩ := Scan.exists_steps start {} code.toList
  obtain ⟨rest, ht, hr⟩ := hs.tiles
  rw [Int.natCast_zero, Int.add_zero] at ht
  constructor
  · have hwhole (hnone : (tokenize code start).fault.isNone = true) : rest = [] :=
      hr (Option.isNone_iff_eq_none.1 hnone)
    have hfront : start = start + ([] : List Char).length := (Int.add_zero start).symm
    exact ht.lossless hfront hwhole
  · rw [String.length_toList] at hn
    exact ⟨n, hn, hs⟩

end BuilderMigration
