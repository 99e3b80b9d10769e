import BuilderMigration.Proofs.Renaming.Imprint
import BuilderMigration.Proofs.Shift.Reading
import BuilderMigration.Proofs.Source.Edit
import BuilderMigration.Proofs.Token.Stands

/-! A text in which one identifier is written anew, as a raw name, wherever it stands. What stands between
the identifiers is read in front of a raw name as in front of another one, and a raw name ends where the
identifier ended; so the tokens of the new text are those of the old one, with the new name in place. -/

namespace BuilderMigration

open Lexeme (isNameChar isNameStart piece)

variable {rest cs out p : List Char} {lo pos : Int} {es : List Edit} {ts : List Token}
  {x v spelling : String}

/-! ### The edits -/

/-- The edits that write every identifier `x` among some tokens anew. -/
def respelling (x spelling : String) (ts : List Token) : List Edit :=
  (ts.filter (·.isKeyword x)).map fun t => ⟨t.lo, t.hi, spelling⟩

/-- A text with every identifier `x` written anew. -/
def respell (code x spelling : String) : String :=
  applyEdits code (respelling x spelling (tokenize code 0).tokens)

/-- The name `v` as a raw one. -/
def rawSpelling (v : String) : String := "r#" ++ v

theorem toList_rawSpelling (v : String) : (rawSpelling v).toList = 'r' :: '#' :: v.toList :=
  String.toList_append

theorem respelling_cons (x spelling : String) (t : Token) (ts : List Token) :
    respelling x spelling (t :: ts) =
      if t.isKeyword x then ⟨t.lo, t.hi, spelling⟩ :: respelling x spelling ts
      else respelling x spelling ts := by
  rw [respelling, List.filter_cons]
  split <;> rfl

theorem respelling_bare (x spelling : String) (ts : List Token) :
    respelling x spelling (ts.map Token.bare) = respelling x spelling ts := by
  induction ts with
  | nil => rfl
  | cons t ts ih => rw [List.map_cons, respelling_cons, respelling_cons, ih]; rfl

theorem exists_token {e : Edit} (he : e ∈ respelling x spelling ts) :
    ∃ t ∈ ts, t.kind = .ident ∧ e = ⟨t.lo, t.hi, spelling⟩ := by
  obtain ⟨t, ht, rfl⟩ := List.mem_map.1 he
  obtain ⟨ht, hx⟩ := List.mem_filter.1 ht
  exact ⟨t, ht, (Token.isKeyword_iff.1 hx).1, rfl⟩

theorem Edit.Apart.mono {length : Nat} (h : Edit.Apart length pos es) (hl : lo ≤ pos) :
    Edit.Apart length lo es := by
  cases es with
  | nil => exact Int.le_trans hl h
  | cons e es => exact ⟨Int.le_trans hl h.1, h.2⟩

theorem apart_respelling {length : Nat} (h : Ordered pos ts) (hpos : pos ≤ length)
    (hend : ∀ t ∈ ts, t.hi ≤ length) : Edit.Apart length pos (respelling x spelling ts) := by
  induction ts generalizing pos with
  | nil => exact hpos
  | cons t ts ih =>
    obtain ⟨hlo, hlt, hrest⟩ := h
    obtain ⟨hhi, hend⟩ := List.forall_mem_cons.1 hend
    have hlater := ih hrest hhi hend
    rw [respelling_cons]
    split
    · exact ⟨hlo, hlt, hlater⟩
    · exact hlater.mono (by omega)

/-! ### The new text -/

theorem Spliced.eq_of_nil (h : Spliced pos cs [] out) : out = cs := by
  generalize hes : [] = es at h
  cases h with
  | done => rfl
  | edit => cases hes

/-- Edits behind the head of a text leave the head. -/
theorem Spliced.behind (h : Spliced pos (p ++ cs) es out)
    (hes : ∀ e ∈ es, pos + p.length ≤ e.start) :
    ∃ after, out = p ++ after ∧ Spliced (pos + p.length) cs es after := by
  generalize hx : p ++ cs = x at h
  cases h with
  | done => exact ⟨cs, hx.symm, .done _ _⟩
  | @edit _ gap range before after e es hstart hstop hrest =>
    have hle := hes e List.mem_cons_self
    rw [List.append_assoc] at hx
    obtain ⟨m, rfl, rfl⟩ := Lexes.eq_append_of_length_le hx (by omega)
    rw [List.length_append] at hstart
    refine ⟨m ++ e.replacement.toList ++ after, by simp, ?_⟩
    rw [← List.append_assoc]
    exact .edit (by omega) hstop hrest

/-- An edit of the head of a text exchanges the head. -/
theorem Spliced.head {e : Edit} (h : Spliced pos (p ++ cs) (e :: es) out) (hstart : e.start = pos)
    (hstop : e.stop = pos + p.length) :
    ∃ after, out = e.replacement.toList ++ after ∧ Spliced (pos + p.length) cs es after := by
  generalize hx : p ++ cs = x at h
  cases h with
  | @edit _ gap range before after _ _ hgap hrange hrest =>
    have hempty : gap = [] := List.eq_nil_of_length_eq_zero (by omega)
    subst hempty
    obtain ⟨rfl, rfl⟩ := List.append_inj hx (by simp at *; omega)
    exact ⟨after, by simp, hstop ▸ hrest⟩

/-- Behind a token the new text is the old one up to where a raw name is in place of a name. -/
theorem Lexes.exchanged (h : Lexes rest lo cs ts)
    (hs : Spliced lo cs (respelling x (rawSpelling v) ts) out) :
    out = cs ∨ ∃ gap c u w us, cs = gap ++ c :: u ∧ out = gap ++ 'r' :: w ∧
      isNameStart c = true ∧ Lexes (c :: u ++ rest) lo gap us := by
  generalize hes : respelling x (rawSpelling v) ts = es at hs
  cases hs with
  | done => exact .inl rfl
  | @edit _ gap range before after e es hstart hstop hrest =>
    obtain ⟨t, ht, hkind, rfl⟩ : ∃ t ∈ ts, t.kind = .ident ∧ e = ⟨t.lo, t.hi, rawSpelling v⟩ :=
      exists_token (hes ▸ List.mem_cons_self)
    obtain ⟨us, vs, rfl, hgap, hname⟩ := h.split (List.append_assoc ..) ht (.inl hstart)
    have htail : t ∈ vs := by
      rcases List.mem_append.1 ht with ht | ht
      · have := hgap.ordered.2 t ht
        dsimp only at hstart
        omega
      · exact ht
    cases hx : range ++ before with
    | nil =>
      have := (h.ordered.2 t ht).2.1
      have := congrArg List.length hx
      rw [List.length_append, List.length_nil] at this
      dsimp only at hstop
      omega
    | cons c u =>
      rw [hx] at hgap hname
      refine .inr ⟨gap, c, u, '#' :: v.toList ++ after, us, by rw [List.append_assoc, hx], ?_,
        hname.starts_name htail hstart hkind, hgap⟩
      rw [toList_rawSpelling, List.append_assoc]
      rfl

section

variable {after : List Char} {kind : TokenKind} (h : Lexes [] lo cs ts)
  (hs : Spliced lo cs (respelling x (rawSpelling v) ts) after)

include h hs

/-- A blank or a comment in front of a text is one in front of the new text. -/
theorem skip_exchanged (hp : piece (p ++ cs) = .skip p.length) (hne : p ≠ []) :
    piece (p ++ after) = .skip p.length := by
  rcases h.exchanged hs with rfl | ⟨gap, c, u, w, -, rfl, rfl, hc, -⟩
  · exact hp
  · cases gap with
    | nil =>
      refine Lexeme.piece_skip_append hp hne ?_
      rintro rfl
      cases hc
    | cons d gap => exact Lexeme.piece_skip_append hp hne fun hd => by simp [hd]

/-- A token in front of a text is one in front of the new text. -/
theorem token_exchanged (hp : piece (p ++ cs) = .token kind p.length) :
    piece (p ++ after) = .token kind p.length := by
  rcases h.exchanged hs with rfl | ⟨gap, c, u, w, us, rfl, rfl, hc, hgap⟩
  · exact hp
  · rw [← List.append_assoc] at hp ⊢
    rw [List.append_nil] at hgap
    exact Lexeme.piece_raw hc hp (by simp) (by rwa [List.drop_left]) w

/-- A name in front of a text ends in front of the new text, too. -/
theorem behind_exchanged (hp : piece (p ++ cs) = .token .ident p.length) :
    ∀ c ∈ after.head?, isNameChar c = false := by
  have hold := Lexeme.behind_ident hp
  rcases h.exchanged hs with rfl | ⟨gap, c, u, w, us, rfl, rfl, hc, -⟩
  · exact hold
  · cases gap with
    | nil =>
      have hchar := hold c rfl
      rw [Lexeme.isNameChar_of_isNameStart hc] at hchar
      cases hchar
    | cons d gap => exact hold

end

/-! ### Imprints of the new tokens -/

/-- The imprint of a token with the raw name `v` in place of the name `x`. -/
def Imprint.raw (x v : String) (a : Imprint) : Imprint :=
  if a.kind = .ident ∧ a.value = x then { a with value := v, width := v.length + 2 } else a

/-- Imprints behind a gap. -/
def apart : List Imprint → List Imprint
  | [] => []
  | a :: as => { a with joined := false } :: as

theorem apart_map_raw (x v : String) (as : List Imprint) :
    apart (as.map (Imprint.raw x v)) = (apart as).map (Imprint.raw x v) := by
  cases as with
  | nil => rfl
  | cons a as =>
    simp only [List.map_cons, apart, Imprint.raw]
    split <;> rfl

theorem imprints_apart (h : Ordered pos ts) (hlt : lo < pos) :
    imprints lo ts = apart (imprints pos ts) := by
  cases ts with
  | nil => rfl
  | cons t ts =>
    have hlo := h.1
    have hjoined : (t.lo == lo) = false := by
      rw [beq_eq_false_iff_ne]
      omega
    simp only [imprints, Token.imprint, apart, hjoined]

/-- The first token of a text. -/
theorem imprints_token (lo : Int) (kind : TokenKind) (value : String) (n : Nat) (ts : List Token) :
    imprints lo (⟨kind, value, lo, lo + n, 0, 0⟩ :: ts) =
      ⟨true, kind, value, n⟩ :: imprints (lo + n) ts := by
  have hwidth : lo + n - lo = n := by omega
  simp [imprints, Token.imprint, hwidth]

/-! ### Tokens of the new text -/

/-- The tokens of the new text, wherever it stands, are those of the old one with the new name. -/
theorem Lexes.respelt (hv : IsWord v) (h : Lexes [] lo cs ts)
    (hs : Spliced lo cs (respelling x (rawSpelling v) ts) out) (pos : Int) :
    ∃ us, Lexes [] pos out us ∧ imprints pos us = (imprints lo ts).map (Imprint.raw x v) := by
  induction h generalizing out pos with
  | done =>
    obtain rfl := Spliced.eq_of_nil hs
    exact ⟨[], .done, rfl⟩
  | @skip lo p cs ts hp hne h ih =>
    have hpos := List.length_pos_iff.2 hne
    rw [List.append_nil] at hp
    obtain ⟨after, rfl, hafter⟩ := hs.behind fun e he => by
      obtain ⟨t, ht, -, rfl⟩ := exists_token he
      exact (h.ordered.2 t ht).1
    obtain ⟨us, hus, himprints⟩ := ih hafter (pos + p.length)
    have hskip := skip_exchanged h hafter hp hne
    refine ⟨us, .skip (by rwa [List.append_nil]) hne hus, ?_⟩
    have hold : imprints lo ts = apart (imprints (lo + p.length) ts) :=
      imprints_apart h.ordered.1 (by omega)
    have hnew : imprints pos us = apart (imprints (pos + p.length) us) :=
      imprints_apart hus.ordered.1 (by omega)
    rw [hnew, hold, himprints, apart_map_raw]
  | @token lo kind p cs ts hp hne h ih =>
    rw [List.append_nil] at hp
    rw [respelling_cons] at hs
    split at hs
    · next hx =>
      obtain ⟨rfl, hx⟩ := Token.isKeyword_iff.1 hx
      obtain ⟨after, rfl, hafter⟩ := hs.head rfl rfl
      have hname : Lexeme.name v.toList = some v.toList.length := by
        rw [String.length_toList]
        exact hv
      have hpiece := Lexeme.piece_rawWord hname (behind_exchanged h hafter hp)
      obtain ⟨us, hus, himprints⟩ := ih hafter (pos + ('r' :: '#' :: v.toList).length)
      have htoken : Lexes [] pos ('r' :: '#' :: v.toList ++ after) _ :=
        .token (by simpa using hpiece) (List.cons_ne_nil _ _) hus
      rw [toList_rawSpelling]
      refine ⟨_, htoken, ?_⟩
      have hwidth : (('r' :: '#' :: v.toList).length : Int) = v.length + 2 := by
        rw [List.length_cons, List.length_cons, String.length_toList]
        omega
      rw [imprints_token, imprints_token, himprints, List.map_cons, Imprint.raw, if_pos ⟨rfl, hx⟩, hwidth,
        Scan.tokenText, String.ofList_toList]
    · next hx =>
      obtain ⟨after, rfl, hafter⟩ := hs.behind fun e he => by
        obtain ⟨t, ht, -, rfl⟩ := exists_token he
        exact (h.ordered.2 t ht).1
      obtain ⟨us, hus, himprints⟩ := ih hafter (pos + p.length)
      have htoken := token_exchanged h hafter hp
      refine ⟨_, .token (by rwa [List.append_nil]) hne hus, ?_⟩
      rw [imprints_token, imprints_token, himprints, List.map_cons, Imprint.raw, if_neg]
      exact fun h => hx (Token.isKeyword_iff.2 h)

/-- The tokens of a text in which an identifier became a raw name. -/
theorem tokensOf_respell {code : String} {start : Int} (hv : IsWord v)
    (h : tokensOf code start = .ok ts) :
    ∃ us, tokensOf (respell code x (rawSpelling v)) start = .ok us ∧
      imprints start us = (imprints start ts).map (Imprint.raw x v) := by
  have hshift := tokensOf_shift code 0 start
  rw [Int.zero_add, h] at hshift
  cases hzero : tokensOf code 0 with
  | error f =>
    rw [hzero] at hshift
    cases hshift
  | ok vs =>
    rw [hzero] at hshift
    obtain rfl : ts = vs.map (·.shift start) := Except.ok.inj hshift
    have hlexes := lexes_of_tokensOf hzero
    have hspliced : Spliced 0 code.toList (respelling x (rawSpelling v) vs)
        (respell code x (rawSpelling v)).toList := by
      rw [respell, ← tokensOf_eq_ok hzero]
      refine applyEdits_spliced ?_
      rw [← respelling_bare]
      refine apart_respelling hlexes.ordered.1 (Int.natCast_nonneg _) fun t ht => ?_
      have := (hlexes.ordered.2 t ht).2.2
      rwa [Int.zero_add, String.length_toList] at this
    rw [← respelling_bare] at hspliced
    obtain ⟨us, hus, himprints⟩ := hlexes.respelt hv hspliced start
    obtain ⟨ws, hws, rfl⟩ := tokensOf_of_lexes hus
    refine ⟨ws, hws, ?_⟩
    have hback : imprints start (vs.map (·.shift start)) = imprints 0 vs := by
      have hshifted : imprints (0 + start) (vs.map (·.shift start)) = imprints 0 vs :=
        imprints_shift start vs
      rwa [Int.zero_add] at hshifted
    rw [← imprints_bare, himprints, imprints_bare, hback]

end BuilderMigration
