import BuilderMigration.Grammar.Reading
import BuilderMigration.Proofs.Shift.Tree
import BuilderMigration.Proofs.Token.Piece
import BuilderMigration.Proofs.Token.Scan

/-! Reading a text in front of another one. A text is made of whole pieces in front of what follows it
if no piece that begins in it goes on behind its end. Texts that are read so one in front of the other
are read as one, and a text can be cut where a token begins or ends. -/

namespace BuilderMigration

/-- A token apart from its line and column. -/
def Token.bare (t : Token) : Token := { t with line := 0, column := 0 }

/-- The text `cs` at position `lo` in front of `rest` is made of whole pieces, with the tokens `ts`. -/
inductive Lexes (rest : List Char) : Int → List Char → List Token → Prop
  | done {lo : Int} : Lexes rest lo [] []
  | skip {lo : Int} {p cs : List Char} {ts : List Token}
      (hp : Lexeme.piece (p ++ (cs ++ rest)) = .skip p.length) (hne : p ≠ [])
      (h : Lexes rest (lo + p.length) cs ts) : Lexes rest lo (p ++ cs) ts
  | token {lo : Int} {kind : TokenKind} {p cs : List Char} {ts : List Token}
      (hp : Lexeme.piece (p ++ (cs ++ rest)) = .token kind p.length) (hne : p ≠ [])
      (h : Lexes rest (lo + p.length) cs ts) :
      Lexes rest lo (p ++ cs) (⟨kind, Scan.tokenText kind p, lo, lo + p.length, 0, 0⟩ :: ts)

variable {rest rest' a b cs : List Char} {lo k : Int} {ts us : List Token} {t : Token}

namespace Lexes

/-! ### Texts one in front of the other -/

theorem append (ha : Lexes (b ++ rest) lo a ts) (hb : Lexes rest (lo + a.length) b us) :
    Lexes rest lo (a ++ b) (ts ++ us) := by
  induction ha with
  | done => simpa using hb
  | skip hp hne h ih =>
    rw [List.append_assoc]
    refine .skip (by rwa [List.append_assoc]) hne (ih ?_)
    rwa [Int.add_assoc, ← Int.natCast_add, ← List.length_append]
  | token hp hne h ih =>
    rw [List.append_assoc]
    refine .token (by rwa [List.append_assoc]) hne (ih ?_)
    rwa [Int.add_assoc, ← Int.natCast_add, ← List.length_append]

theorem shift (k : Int) (h : Lexes rest lo cs ts) :
    Lexes rest (lo + k) cs (ts.map (·.shift k)) := by
  induction h with
  | done => exact .done
  | skip hp hne h ih =>
    refine .skip hp hne ?_
    rwa [Int.add_right_comm]
  | token hp hne h ih =>
    rw [List.map_cons]
    have hhi := Int.add_right_comm
    simp only [Token.shift]
    rw [hhi]
    refine .token hp hne ?_
    rwa [hhi]

/-- Where a text stands makes no difference. -/
theorem shift_iff : Lexes rest (lo + k) cs (ts.map (·.shift k)) ↔ Lexes rest lo cs ts := by
  refine ⟨fun h => ?_, shift k⟩
  have hback : Token.shift (-k) ∘ Token.shift k = id := by
    funext t
    simp [Token.shift, Int.add_neg_cancel_right]
  have := h.shift (-k)
  rwa [List.map_map, hback, List.map_id, Int.add_neg_cancel_right] at this

/-- Tokens stand in order within the text. -/
theorem ordered (h : Lexes rest lo cs ts) :
    Ordered lo ts ∧ ∀ t ∈ ts, lo ≤ t.lo ∧ t.lo < t.hi ∧ t.hi ≤ lo + cs.length := by
  induction h with
  | done => exact ⟨trivial, nofun⟩
  | @skip lo p cs ts hp hne h ih =>
    rw [List.length_append]
    refine ⟨ih.1.mono (by omega), fun t ht => ?_⟩
    have := ih.2 t ht
    omega
  | @token lo kind p cs ts hp hne h ih =>
    have hpos := List.length_pos_iff.2 hne
    rw [List.length_append]
    refine ⟨⟨Int.le_refl _, by dsimp only; omega, ih.1⟩, fun t ht => ?_⟩
    rcases List.mem_cons.1 ht with rfl | ht
    · dsimp only
      omega
    · have := ih.2 t ht
      omega

theorem eq_append_of_length_le {p q cs ds : List Char} (h : p ++ cs = q ++ ds)
    (hl : p.length ≤ q.length) : ∃ m, q = p ++ m ∧ cs = m ++ ds := by
  obtain ⟨m, rfl⟩ := List.prefix_of_prefix_length_le ⟨cs, h⟩ ⟨ds, rfl⟩ hl
  rw [List.append_assoc] at h
  exact ⟨m, rfl, List.append_cancel_left h⟩

/-- A text can be cut where a token of it begins or ends. -/
theorem split (h : Lexes rest lo cs ts) (hcs : cs = a ++ b) (ht : t ∈ ts)
    (hcut : t.lo = lo + a.length ∨ t.hi = lo + a.length) :
    ∃ us vs, ts = us ++ vs ∧ Lexes (b ++ rest) lo a us ∧ Lexes rest (lo + a.length) b vs := by
  induction h generalizing a with
  | done => cases ht
  | @skip lo p cs ts hp hne h ih =>
    have := h.ordered.2 t ht
    obtain ⟨m, rfl, rfl⟩ := eq_append_of_length_le hcs (by omega)
    rw [List.length_append] at hcut ⊢
    obtain ⟨us, vs, rfl, h₁, h₂⟩ := ih rfl ht (by omega)
    rw [Int.natCast_add, ← Int.add_assoc]
    exact ⟨us, vs, rfl, .skip (by simpa using hp) hne h₁, h₂⟩
  | @token lo kind p cs ts hp hne h ih =>
    by_cases ha : a = []
    · subst ha
      rw [List.nil_append] at hcs
      refine ⟨[], _, rfl, .done, ?_⟩
      rw [← hcs, List.length_nil, Int.natCast_zero, Int.add_zero]
      exact .token hp hne h
    have hpos := List.length_pos_iff.2 ha
    have hle : p.length ≤ a.length := by
      rcases List.mem_cons.1 ht with rfl | ht
      · dsimp only at hcut
        omega
      · have := h.ordered.2 t ht
        omega
    obtain ⟨m, rfl, rfl⟩ := eq_append_of_length_le hcs hle
    rw [List.length_append, Int.natCast_add, ← Int.add_assoc]
    suffices hrest : ∃ us vs, ts = us ++ vs ∧ Lexes (b ++ rest) (lo + p.length) m us ∧
        Lexes rest (lo + p.length + m.length) b vs by
      obtain ⟨us, vs, rfl, h₁, h₂⟩ := hrest
      exact ⟨_ :: us, vs, rfl, .token (by simpa using hp) hne h₁, h₂⟩
    by_cases hm : m = []
    · subst hm
      exact ⟨[], ts, rfl, .done, by simpa using h⟩
    · have hmpos := List.length_pos_iff.2 hm
      rw [List.length_append] at hcut
      rcases List.mem_cons.1 ht with rfl | ht
      · dsimp only at hcut
        omega
      · exact ih rfl ht (by omega)

/-! ### The first piece -/

theorem skip_inv {p : List Char} (hp : Lexeme.piece (p ++ (cs ++ rest)) = .skip p.length)
    (hne : p ≠ []) (h : Lexes rest lo (p ++ cs) ts) : Lexes rest (lo + p.length) cs ts := by
  generalize hx : p ++ cs = x at h
  have hpiece {q ds : List Char} (hq : q ++ ds = x) :
      Lexeme.piece (q ++ (ds ++ rest)) = .skip p.length := by
    rw [← List.append_assoc, hq, ← hx, List.append_assoc, hp]
  cases h with
  | done => simp_all
  | @skip _ q ds _ hq _ h =>
    obtain ⟨rfl, rfl⟩ := List.append_inj hx (by simpa [hq] using (hpiece rfl).symm)
    exact h
  | token hq => cases (hpiece rfl).symm.trans hq

theorem token_inv {p : List Char} {kind : TokenKind} {value : String}
    (h : Lexes rest lo (p ++ cs) (⟨kind, value, lo, lo + p.length, 0, 0⟩ :: ts)) :
    Lexeme.piece (p ++ (cs ++ rest)) = .token kind p.length ∧
      Lexes rest (lo + p.length) cs ts := by
  generalize hx : p ++ cs = x at h
  generalize hall : Token.mk kind value lo (lo + p.length) 0 0 :: ts = all at h
  cases h with
  | done => cases hall
  | @skip _ q ds _ hq hne h =>
    -- behind a blank or a comment no token begins at its head
    have := (h.ordered.2 ⟨kind, value, lo, lo + p.length, 0, 0⟩ (by simp [← hall])).1
    have := List.length_pos_iff.2 hne
    dsimp only at *
    omega
  | @token _ _ q ds _ hq hne h =>
    simp only [List.cons.injEq, Token.mk.injEq] at hall
    obtain ⟨⟨rfl, -, -, hlen, -⟩, rfl⟩ := hall
    obtain ⟨rfl, rfl⟩ := List.append_inj hx (by omega)
    exact ⟨hq, h⟩

/-- The piece at the head of a text that is made of whole pieces. -/
theorem head {c : Char} (h : Lexes rest lo (c :: cs) ts) : ∃ n, n ≤ (c :: cs).length ∧
    (Lexeme.piece (c :: cs ++ rest) = .skip n ∨ ∃ kind, Lexeme.piece (c :: cs ++ rest) = .token kind n) := by
  generalize hx : c :: cs = x at h
  cases h with
  | done => cases hx
  | @skip _ p ds _ hp _ _ => exact ⟨p.length, by simp, .inl (by rwa [List.append_assoc])⟩
  | @token _ kind p ds _ hp _ _ => exact ⟨p.length, by simp, .inr ⟨kind, by rwa [List.append_assoc]⟩⟩

/-- A text that is made of whole pieces elsewhere, and whose tokens are found where it stands now, is
made of the same pieces there. -/
theorem agree {c : Char} (ha : Lexes (c :: rest) lo a ts) (hc : c ≠ '\n')
    (h : Lexes rest' lo (a ++ b) (ts ++ us)) :
    Lexes (b ++ rest') lo a ts ∧ Lexes rest' (lo + a.length) b us := by
  induction ha with
  | done => exact ⟨.done, by simpa using h⟩
  | @skip lo p cs ts hp hne _ ih =>
    rw [List.append_assoc] at h
    have hskip : Lexeme.piece (p ++ (cs ++ (b ++ rest'))) = .skip p.length := by
      cases cs with
      | nil => exact Lexeme.piece_skip_append hp hne fun h => absurd h hc
      | cons d cs => exact Lexeme.piece_skip_append hp hne fun h => by simp [h]
    obtain ⟨h₁, h₂⟩ := ih (skip_inv (by simpa using hskip) hne h)
    rw [List.length_append, Int.natCast_add, ← Int.add_assoc]
    exact ⟨.skip hskip hne h₁, h₂⟩
  | @token lo kind p cs ts hp hne _ ih =>
    rw [List.append_assoc] at h
    obtain ⟨hp', h⟩ := token_inv h
    obtain ⟨h₁, h₂⟩ := ih h
    rw [List.length_append, Int.natCast_add, ← Int.add_assoc]
    exact ⟨.token (by simpa using hp') hne h₁, h₂⟩

end Lexes

/-! ### Scans -/

namespace Scan

variable {start : Int} {p : Place} {q : List Char} {kind : TokenKind}

theorem offset_foldl_after (p : Place) (q : List Char) :
    (q.foldl Place.after p).offset = p.offset + q.length := by
  induction q generalizing p with
  | nil => rfl
  | cons c q ih => rw [List.foldl_cons, ih, offset_after, List.length_cons, Nat.add_right_comm,
      Nat.add_assoc]

theorem scanFrom_pending (start : Int) (p : Place) (q cs : List Char) :
    scanFrom start p q.length (q ++ cs) = scanFrom start (q.foldl Place.after p) 0 cs := by
  induction q generalizing p with
  | nil => rfl
  | cons c q ih => exact ih _

theorem scanFrom_skip (h : Lexeme.piece (q ++ cs) = .skip q.length) (hne : q ≠ []) :
    scanFrom start p 0 (q ++ cs) = scanFrom start (q.foldl Place.after p) 0 cs := by
  cases q with
  | nil => exact absurd rfl hne
  | cons c q =>
    rw [List.cons_append] at h ⊢
    rw [scanFrom, h]
    exact scanFrom_pending start _ q cs

theorem scanFrom_token (h : Lexeme.piece (q ++ cs) = .token kind q.length) (hne : q ≠ []) :
    scanFrom start p 0 (q ++ cs) =
      let rest := scanFrom start (q.foldl Place.after p) 0 cs
      ⟨⟨kind, tokenText kind q, start + p.offset, start + p.offset + q.length, p.line, p.column⟩
        :: rest.tokens, rest.fault⟩ := by
  cases q with
  | nil => exact absurd rfl hne
  | cons c q =>
    rw [List.cons_append] at h ⊢
    rw [scanFrom, h]
    have hrest : scanFrom start (p.after c) ((c :: q).length - 1) (q ++ cs) = _ :=
      scanFrom_pending start (p.after c) q cs
    dsimp only
    rw [hrest, ← List.cons_append, List.take_left]
    rfl

/-- A scan without a fault finds the tokens of its text. -/
theorem scanFrom_of_lexes (h : Lexes [] (start + p.offset) cs ts) :
    (scanFrom start p 0 cs).fault = none ∧ (scanFrom start p 0 cs).tokens.map Token.bare = ts := by
  generalize hlo : start + p.offset = lo at h
  induction h generalizing p with
  | done => exact ⟨rfl, rfl⟩
  | @skip lo q cs ts hp hne _ ih =>
    rw [List.append_nil] at hp
    rw [scanFrom_skip hp hne]
    exact ih (by rw [offset_foldl_after]; omega)
  | @token lo kind q cs ts hp hne _ ih =>
    rw [List.append_nil] at hp
    obtain ⟨h₁, h₂⟩ := ih (p := q.foldl Place.after p) (by rw [offset_foldl_after]; omega)
    rw [scanFrom_token hp hne]
    refine ⟨h₁, ?_⟩
    rw [List.map_cons, h₂, Token.bare, hlo]

theorem lexes_of_scanFrom (h : (scanFrom start p 0 cs).fault = none) :
    Lexes [] (start + p.offset) cs ((scanFrom start p 0 cs).tokens.map Token.bare) := by
  induction hn : cs.length using Nat.strongRecOn generalizing p cs with
  | ind n ih =>
    by_cases hcs : cs = []
    · subst hcs
      exact .done
    rcases Lexeme.piece_cases hcs with ⟨cause, hf⟩ | ⟨q, ds, rfl, hne, hq⟩
    · obtain ⟨c, cs, rfl⟩ := List.exists_cons_of_ne_nil hcs
      rw [scanFrom, hf] at h
      cases h
    have hlt : ds.length < n := by
      have := List.length_pos_iff.2 hne
      rw [← hn, List.length_append]
      omega
    have hnext (hd : (scanFrom start (q.foldl Place.after p) 0 ds).fault = none) :
        Lexes [] (start + p.offset + q.length) ds
          ((scanFrom start (q.foldl Place.after p) 0 ds).tokens.map Token.bare) := by
      have := ih _ hlt hd rfl
      rwa [offset_foldl_after, Int.natCast_add, ← Int.add_assoc] at this
    rcases hq with hq | ⟨kind, hq⟩
    · rw [scanFrom_skip hq hne] at h ⊢
      exact .skip (by rwa [List.append_nil]) hne (hnext h)
    · rw [scanFrom_token hq hne] at h ⊢
      exact .token (by rwa [List.append_nil]) hne (hnext h)

end Scan

variable {code : String} {start : Int}

theorem lexes_of_tokensOf (h : tokensOf code start = .ok ts) :
    Lexes [] start code.toList (ts.map Token.bare) := by
  unfold tokensOf at h
  dsimp only at h
  split at h
  · next hf =>
    obtain rfl := Except.ok.inj h
    have := Scan.lexes_of_scanFrom (p := {}) hf
    rwa [Int.natCast_zero, Int.add_zero] at this
  · cases h

theorem tokensOf_of_lexes (h : Lexes [] start code.toList ts) :
    ∃ us, tokensOf code start = .ok us ∧ us.map Token.bare = ts := by
  have hscan : (tokenize code start).fault = none ∧ (tokenize code start).tokens.map Token.bare = ts :=
    Scan.scanFrom_of_lexes (by rwa [Int.natCast_zero, Int.add_zero])
  refine ⟨(tokenize code start).tokens, ?_, hscan.2⟩
  rw [tokensOf, hscan.1]

/-! ### Tokens in front of a text -/

/-- The tokens of a text at position `lo` in front of another one: none if it is not made of whole
pieces there. Of the piece that has begun `pending` characters are left. -/
def tokensBefore (rest : List Char) (lo : Int) : Nat → List Char → Option (List Token)
  | 0, [] => some []
  | _ + 1, [] => none
  | pending + 1, _ :: cs => tokensBefore rest (lo + 1) pending cs
  | 0, c :: cs =>
    match Lexeme.piece (c :: cs ++ rest) with
    | .skip length => tokensBefore rest (lo + 1) (length - 1) cs
    | .fault _ => none
    | .token kind length =>
      (tokensBefore rest (lo + 1) (length - 1) cs).map
        (⟨kind, Scan.tokenText kind ((c :: cs).take length), lo, lo + length, 0, 0⟩ :: ·)

theorem tokensBefore_pending (rest : List Char) (lo : Int) (q cs : List Char) :
    tokensBefore rest lo q.length (q ++ cs) = tokensBefore rest (lo + q.length) 0 cs := by
  induction q generalizing lo with
  | nil => simp
  | cons c q ih =>
    rw [List.length_cons, List.cons_append, tokensBefore, ih]
    congr 1
    omega

theorem le_length_of_tokensBefore {n : Nat} (h : tokensBefore rest lo n cs = some ts) :
    n ≤ cs.length := by
  induction cs generalizing lo n with
  | nil =>
    cases n with
    | zero => exact Nat.le_refl _
    | succ n => cases h
  | cons c cs ih =>
    cases n with
    | zero => exact Nat.zero_le _
    | succ n => exact Nat.succ_le_succ (ih h)

theorem tokensBefore_skip {q : List Char} (hq : Lexeme.piece (q ++ cs ++ rest) = .skip q.length)
    (hne : q ≠ []) : tokensBefore rest lo 0 (q ++ cs) = tokensBefore rest (lo + q.length) 0 cs := by
  obtain ⟨c, q, rfl⟩ := List.exists_cons_of_ne_nil hne
  rw [← tokensBefore_pending, List.length_cons, List.cons_append, tokensBefore, tokensBefore]
  simp only [List.cons_append] at hq ⊢
  rw [hq]
  rfl

theorem tokensBefore_token {q : List Char} {kind : TokenKind}
    (hq : Lexeme.piece (q ++ cs ++ rest) = .token kind q.length) (hne : q ≠ []) :
    tokensBefore rest lo 0 (q ++ cs) = (tokensBefore rest (lo + q.length) 0 cs).map
      (⟨kind, Scan.tokenText kind q, lo, lo + q.length, 0, 0⟩ :: ·) := by
  obtain ⟨c, q, rfl⟩ := List.exists_cons_of_ne_nil hne
  have htake : (c :: (q ++ cs)).take (q.length + 1) = c :: q := by simp
  rw [← tokensBefore_pending, List.length_cons, List.cons_append, tokensBefore, tokensBefore]
  simp only [List.cons_append, List.length_cons] at hq ⊢
  rw [hq]
  dsimp only
  rw [htake, Nat.add_sub_cancel]

theorem tokensBefore_iff : tokensBefore rest lo 0 cs = some ts ↔ Lexes rest lo cs ts := by
  constructor
  · intro h
    induction hn : cs.length using Nat.strongRecOn generalizing lo cs ts with
    | ind n ih =>
      obtain _ | ⟨c, cs⟩ := cs
      · obtain rfl := Option.some.inj h
        exact .done
      have hfront {q ds : List Char} (hq : c :: cs ++ rest = q ++ ds) (hle : q.length ≤ cs.length + 1) :
          ∃ m, c :: cs = q ++ m :=
        List.prefix_of_prefix_length_le ⟨ds, hq.symm⟩ ⟨rest, rfl⟩ (by simpa using hle)
          |>.imp fun _ => Eq.symm
      have hlt {q m : List Char} (hq : c :: cs = q ++ m) (hne : q ≠ []) : m.length < n := by
        have := congrArg List.length hq
        have := List.length_pos_iff.2 hne
        rw [List.length_append] at *
        omega
      have hall : c :: cs ++ rest ≠ [] := by simp
      rcases Lexeme.piece_cases hall with
        ⟨cause, hf⟩ | ⟨q, ds, hall, hne, hq | ⟨kind, hq⟩⟩
      · rw [tokensBefore, hf] at h
        cases h
      · have hle : q.length - 1 ≤ cs.length := by
          rw [tokensBefore, hq] at h
          exact le_length_of_tokensBefore h
        obtain ⟨m, hm⟩ := hfront hall (by omega)
        have hlen := hlt hm hne
        rw [hm] at h hq ⊢
        rw [tokensBefore_skip hq hne] at h
        exact .skip (by rwa [← List.append_assoc]) hne (ih _ hlen h rfl)
      · have hle : q.length - 1 ≤ cs.length := by
          rw [tokensBefore, hq] at h
          obtain ⟨ts, h, -⟩ := Option.map_eq_some_iff.1 h
          exact le_length_of_tokensBefore h
        obtain ⟨m, hm⟩ := hfront hall (by omega)
        have hlen := hlt hm hne
        rw [hm] at h hq ⊢
        rw [tokensBefore_token hq hne] at h
        obtain ⟨us, hus, rfl⟩ := Option.map_eq_some_iff.1 h
        exact .token (by rwa [← List.append_assoc]) hne (ih _ hlen hus rfl)
  · intro h
    induction h with
    | done => rfl
    | skip hp hne _ ih => rw [tokensBefore_skip (by rwa [List.append_assoc]) hne, ih]
    | token hp hne _ ih =>
      rw [tokensBefore_token (by rwa [List.append_assoc]) hne, ih]
      rfl

end BuilderMigration
