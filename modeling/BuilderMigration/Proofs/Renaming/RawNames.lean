import BuilderMigration.Proofs.Renaming.Respelling

/-! One name in place of another. A raw name loses its mark when a text is taken apart, so that a text
with a raw name is read just if its tokens are those of a file with the bare word in the place of the
name. The grammar tells keywords by their text, and of a raw name only the text is left: where it asks for
neither of two names, one can stand for the other; a keyword that it asks for cannot stand for any name,
and one text shows it for all of them. -/

namespace BuilderMigration

variable {code file x y v u : String} {start lo : Int} {ts us : List Token} {m : Module}

/-! ### One name in place of another -/

/-- The name `v` in place of the name `x`. -/
def exchange (x v u : String) : String := if u = x then v else u

/-- A token with the name `v` in place of the name `x`, at the same place. -/
def Token.exchange (x v : String) (t : Token) : Token :=
  if t.isKeyword x then { t with value := v } else t

/-- To exchange a name twice is to exchange it once. -/
theorem exchange_exchange (h : u = y ∨ u ≠ x) : exchange x v (exchange y x u) = exchange y v u := by
  rw [exchange.eq_def y v]
  split
  · next hy => rw [exchange.eq_def y x, if_pos hy, exchange, if_pos rfl]
  · next hy => rw [exchange.eq_def y x, if_neg hy, exchange, if_neg (h.resolve_left hy)]

theorem Token.exchange_exchange {t : Token} (h : t.kind = .ident → t.value = y ∨ t.value ≠ x) :
    (t.exchange y x).exchange x v = t.exchange y v := by
  rw [Token.exchange.eq_def y v]
  split
  · next hy =>
    have hx : ({ t with value := x } : Token).isKeyword x = true :=
      isKeyword_iff.2 ⟨(isKeyword_iff.1 hy).1, rfl⟩
    rw [Token.exchange.eq_def y x, if_pos hy, Token.exchange, if_pos hx]
  · next hy =>
    rw [Token.exchange.eq_def y x, if_neg hy, Token.exchange, if_neg]
    rw [isKeyword_iff] at hy ⊢
    exact fun hx => (h hx.1).elim (fun hv => hy ⟨hx.1, hv⟩) fun hne => hne hx.2

theorem not_asked (hx : IsWord x) (hn : x ∉ Grammar.words) : ¬ Asked x := by
  rintro (h | h)
  · exact h hx
  · exact hn h

theorem spares_exchange (hx : ¬ Asked x) (hv : ¬ Asked v) : Spares (exchange x v) := by
  intro w hw u
  have hxw : x ≠ w := by
    rintro rfl
    exact hx hw
  have hvw : v ≠ w := by
    rintro rfl
    exact hv hw
  rw [exchange]
  split
  · next hu => simp [hu, hxw, hvw]
  · rfl

theorem spares_id : Spares id := fun _ _ _ => Iff.rfl

namespace Imprint

variable {a b c : Imprint} {f g h : String → String}

theorem renames_raw (x v : String) (a : Imprint) : Renames (exchange x v) a (a.raw x v) := by
  rw [raw]
  split
  · next hx => exact ⟨rfl, rfl, fun _ => by simp [exchange, hx.2], fun hk => absurd hx.1 hk⟩
  · next hx =>
    refine ⟨rfl, rfl, fun hk => ?_, fun _ => rfl⟩
    rw [exchange, if_neg fun hv => hx ⟨hk, hv⟩]

theorem Renames.trans (hf : a.Renames f b) (hg : b.Renames g c) : a.Renames (g ∘ f) c where
  joined := hg.joined.trans hf.joined
  kind := hg.kind.trans hf.kind
  name hk := by
    rw [hg.name (hf.kind ▸ hk), hf.name hk]
    rfl
  value hk := by rw [hg.value (hf.kind ▸ hk), hf.value hk]

/-- Imprints that go back to the same one by other names. -/
theorem Renames.between (hb : a.Renames f b) (hc : a.Renames g c)
    (hv : a.kind = .ident → h (f a.value) = g a.value) : b.Renames h c where
  joined := hc.joined.trans hb.joined.symm
  kind := hc.kind.trans hb.kind.symm
  name hk := by
    have hk := hb.kind ▸ hk
    rw [hc.name hk, hb.name hk, hv hk]
  value hk := by
    have hk := hb.kind ▸ hk
    rw [hc.value hk, hb.value hk]

end Imprint

variable {as bs cs : List Imprint} {f g h : String → String}

theorem renamed_raw (x v : String) (as : List Imprint) :
    Renamed (exchange x v) as (as.map (Imprint.raw x v)) := by
  rw [Renamed, List.forall₂_map_right_iff, List.forall₂_same]
  exact fun a _ => a.renames_raw x v

theorem renamed_exchange (x v : String) (lo : Int) (ts : List Token) :
    Renamed (exchange x v) (imprints lo ts) (imprints lo (ts.map (Token.exchange x v))) := by
  induction ts generalizing lo with
  | nil => exact .nil
  | cons t ts ih =>
    have hhi : (t.exchange x v).hi = t.hi := by
      rw [Token.exchange]
      split <;> rfl
    have hhead : (t.imprint lo).Renames (exchange x v) ((t.exchange x v).imprint lo) := by
      rw [Token.exchange]
      split
      · next hx =>
        obtain ⟨hkind, hvalue⟩ := Token.isKeyword_iff.1 hx
        exact ⟨rfl, rfl, fun _ => (if_pos hvalue).symm, fun hk => absurd hkind hk⟩
      · next hx =>
        exact ⟨rfl, rfl, fun hk => (if_neg fun hv => hx (Token.isKeyword_iff.2 ⟨hk, hv⟩)).symm,
          fun _ => rfl⟩
    refine .cons hhead ?_
    rw [hhi]
    exact ih t.hi

theorem Renamed.trans (hf : Renamed f as bs) (hg : Renamed g bs cs) : Renamed (g ∘ f) as cs := by
  unfold Renamed at *
  induction hf generalizing cs with
  | nil =>
    cases hg
    exact .nil
  | cons hab _ ih =>
    cases hg with
    | cons hbc hbcs => exact .cons (hab.trans hbc) (ih hbcs)

theorem Renamed.between (hb : Renamed f as bs) (hc : Renamed g as cs)
    (hv : ∀ a ∈ as, a.kind = .ident → h (f a.value) = g a.value) : Renamed h bs cs := by
  unfold Renamed at *
  induction hb generalizing cs with
  | nil =>
    cases hc
    exact .nil
  | cons hb _ ih =>
    cases hc with
    | cons hc hcs =>
      obtain ⟨hhead, htail⟩ := List.forall_mem_cons.1 hv
      exact .cons (hb.between hc hhead) (ih hcs htail)

theorem ordered_exchange (x v : String) (h : Ordered lo ts) :
    Ordered lo (ts.map (Token.exchange x v)) := by
  induction ts generalizing lo with
  | nil => trivial
  | cons t ts ih =>
    obtain ⟨hlo, hlt, hrest⟩ := h
    have hsame : (t.exchange x v).lo = t.lo ∧ (t.exchange x v).hi = t.hi := by
      rw [Token.exchange]
      split <;> exact ⟨rfl, rfl⟩
    rw [List.map_cons, Ordered, hsame.1, hsame.2]
    exact ⟨hlo, hlt, ih hrest⟩

/-! ### Reading a raw name -/

instance (ts : List Token) : Decidable (Reads ts) :=
  decidable_of_iff ((readItems ts).toBool = true) <| by
    unfold Reads
    cases readItems ts with
    | ok is => exact iff_of_true rfl ⟨is, rfl⟩
    | error e => exact iff_of_false nofun nofun

theorem readModule_eq_ok_iff : readModule code start file = .ok m ↔
    ∃ ts is, tokensOf code start = .ok ts ∧ readItems ts = .ok is ∧
      m = ⟨⟨start, start + code.length, 0⟩, is, file⟩ := by
  rw [readModule]
  cases hts : tokensOf code start with
  | error e => simp [bind, Except.bind]
  | ok ts =>
    cases his : readItems ts with
    | error e => simp [bind, Except.bind, his]
    | ok is => simp [bind, Except.bind, pure, Except.pure, his, eq_comm]

theorem ordered_of_tokensOf (h : tokensOf code start = .ok ts) : Ordered start ts := by
  rw [tokensOf_eq_ok h]
  exact tokenize_ordered code start

/-- The tokens of a text with a raw name agree with the old ones but for the name. -/
theorem renamed_respell (hv : IsWord v) (hts : tokensOf code start = .ok ts)
    (hus : tokensOf (respell code x (rawSpelling v)) start = .ok us) :
    Renamed (exchange x v) (imprints start ts) (imprints start us) := by
  obtain ⟨us', hus', himprints⟩ := tokensOf_respell (x := x) hv hts
  obtain rfl : us = us' := Except.ok.inj (hus.symm.trans hus')
  exact himprints ▸ renamed_raw x v _

/-- A text with a raw name is read just if its tokens are those of a file once the bare word is in the
place of the name. -/
theorem reads_respell (hv : IsWord v) (hts : tokensOf code start = .ok ts)
    (hus : tokensOf (respell code x (rawSpelling v)) start = .ok us) :
    Reads us ↔ Reads (ts.map (Token.exchange x v)) := by
  have hraw := renamed_respell hv hts hus
  refine reads_renamed spares_id (ordered_exchange x v (ordered_of_tokensOf hts))
    (ordered_of_tokensOf hus) ?_
  exact (renamed_exchange x v start ts).between hraw fun _ _ _ => rfl

/-- Names may be exchanged that the grammar does not ask for. -/
theorem reads_exchange (hx : ¬ Asked x) (hv : ¬ Asked v) (h : Ordered lo ts) :
    Reads (ts.map (Token.exchange x v)) ↔ Reads ts :=
  reads_renamed (spares_exchange hx hv) h (ordered_exchange x v h) (renamed_exchange x v lo ts)

/-- A name may be exchanged twice. -/
theorem reads_respell_exchange (hx : IsWord x) (hts : tokensOf code start = .ok ts)
    (hus : tokensOf (respell code y (rawSpelling x)) start = .ok us)
    (hn : ∀ t ∈ ts, t.kind = .ident → t.value = y ∨ t.value ≠ x) :
    Reads (us.map (Token.exchange x v)) ↔ Reads (ts.map (Token.exchange y v)) := by
  have hraw := renamed_respell hx hts hus
  refine reads_renamed spares_id (ordered_exchange y v (ordered_of_tokensOf hts))
    (ordered_exchange x v (ordered_of_tokensOf hus)) ?_
  refine (renamed_exchange y v start ts).between (hraw.trans (renamed_exchange x v start us))
    fun a ha hkind => ?_
  obtain ⟨t, ht, htkind, htvalue, -⟩ := exists_of_imprint ha
  exact (exchange_exchange (htvalue ▸ hn t ht (htkind.trans hkind))).symm

/-! ### Keywords -/

variable {k : String}

/-- The keywords of the language, those in use and those that are kept back. -/
def keywords : List String :=
  ["as", "async", "await", "break", "const", "continue", "crate", "dyn", "else", "enum", "extern",
   "false", "fn", "for", "if", "impl", "in", "let", "loop", "match", "mod", "move", "mut", "pub", "ref",
   "return", "self", "Self", "static", "struct", "super", "trait", "true", "type", "unsafe", "use",
   "where", "while",
   "abstract", "become", "box", "do", "final", "gen", "macro", "override", "priv", "try", "typeof",
   "unsized", "virtual", "yield"]

/-- The keywords that cannot be raw names. -/
def pathKeywords : List String := ["crate", "self", "Self", "super"]

/-- A name that is no keyword. -/
structure Ordinary (x : String) : Prop where
  word : IsWord x
  ne_wildcard : x ≠ "_"
  not_keyword : x ∉ keywords

/-- Whether a name is written with the mark of a raw one. -/
def Token.IsRaw (t : Token) : Prop := t.hi - t.lo ≠ t.value.length

/-- The raw name of `k` can stand for `x` wherever that stands: a file in which `x` occurs, and the raw
name does not, has with the raw name in the place of `x` the same tree with `k` in the place of `x`. -/
def Interchangeable (x k : String) : Prop :=
  ∀ (code : String) (start : Int) (file : String) (m : Module), readModule code start file = .ok m →
    (∃ t ∈ (tokenize code start).tokens, t.isKeyword x = true) →
    (∀ t ∈ (tokenize code start).tokens, t.isKeyword k = true → ¬ t.IsRaw) →
    ∃ m', readModule (respell code x (rawSpelling k)) start file = .ok m' ∧
      m'.items.map (Item.shape id) = m.items.map (Item.shape (exchange x k))

instance (t : Token) : Decidable t.IsRaw := inferInstanceAs (Decidable (_ ≠ _))

theorem isWord_of_keyword : ∀ k ∈ keywords, IsWord k := by decide

/-- Names that the grammar does not ask for. -/
theorem interchangeable_of_unasked (hx : IsWord x) (hk : IsWord k) (hx' : x ∉ Grammar.words)
    (hk' : k ∉ Grammar.words) : Interchangeable x k := by
  intro code start file m hm _ _
  obtain ⟨ts, is, hts, his, rfl⟩ := readModule_eq_ok_iff.1 hm
  obtain ⟨us, hus, -⟩ := tokensOf_respell (x := x) hk hts
  have hspares := spares_exchange (not_asked hx hx') (not_asked hk hk')
  obtain ⟨is', his', hshape⟩ := readItems_renamed hspares (ordered_of_tokensOf hts)
    (ordered_of_tokensOf hus) (renamed_respell hk hts hus) his
  exact ⟨_, readModule_eq_ok_iff.2 ⟨us, is', hus, his', rfl⟩, hshape⟩

/-- A file whose tokens are those of no file with the bare word `k` in the place of `x`. -/
theorem not_interchangeable (hk : IsWord k) (hts : tokensOf code start = .ok ts) (hreads : Reads ts)
    (hx : ∃ t ∈ ts, t.isKeyword x = true) (hraw : ∀ t ∈ ts, t.isKeyword k = true → ¬ t.IsRaw)
    (hnot : ¬ Reads (ts.map (Token.exchange x k))) : ¬ Interchangeable x k := by
  intro h
  obtain ⟨is, his⟩ := hreads
  have htokens := tokensOf_eq_ok hts
  obtain ⟨m', hm', -⟩ := h code start "" _ (readModule_eq_ok_iff.2 ⟨ts, is, hts, his, rfl⟩)
    (htokens ▸ hx) (htokens ▸ hraw)
  obtain ⟨us, is', hus, his', -⟩ := readModule_eq_ok_iff.1 hm'
  exact hnot ((reads_respell hk hts hus).1 ⟨is', his'⟩)

/-- A text whose other names are keywords, with the raw name of `x` in the place of one name, is a file
for which the raw name of `k` cannot stand in for that of `x`. -/
theorem not_interchangeable_of_text (hts : tokensOf code start = .ok ts)
    (hy : ∃ t ∈ ts, t.isKeyword y = true)
    (hnames : ∀ t ∈ ts, t.kind = .ident → (t.value = y ∨ t.value ∈ keywords) ∧ ¬ t.IsRaw)
    (hx : Ordinary x) (hk : k ∈ keywords) (hreads : Reads (ts.map (Token.exchange y x)))
    (hnot : ¬ Reads (ts.map (Token.exchange y k))) : ¬ Interchangeable x k := by
  obtain ⟨us, hus, himprints⟩ := tokensOf_respell (x := y) hx.word hts
  refine not_interchangeable (isWord_of_keyword k hk) hus ((reads_respell hx.word hts hus).2 hreads) ?_
    (fun u hu huk => ?_) ?_
  · -- the name that was exchanged is there
    obtain ⟨t, ht, hty⟩ := hy
    obtain ⟨a, ha, hkind, hvalue, -⟩ := exists_imprint start ht
    rw [Token.isKeyword_iff] at hty
    have hmem : a.raw y x ∈ imprints start us := himprints ▸ List.mem_map_of_mem ha
    rw [Imprint.raw, if_pos ⟨hkind.trans hty.1, hvalue.trans hty.2⟩] at hmem
    obtain ⟨u, hu, hukind, huvalue, -⟩ := exists_of_imprint hmem
    exact ⟨u, hu, Token.isKeyword_iff.2 ⟨hukind.trans (hkind.trans hty.1), huvalue⟩⟩
  · -- and no other name is raw
    rw [Token.isKeyword_iff] at huk
    obtain ⟨b, hb, hkind, hvalue, hwidth⟩ := exists_imprint start hu
    rw [himprints] at hb
    obtain ⟨a, ha, rfl⟩ := List.mem_map.1 hb
    by_cases hay : a.kind = .ident ∧ a.value = y
    · rw [Imprint.raw, if_pos hay] at hvalue
      obtain rfl : x = k := hvalue.trans huk.2
      exact absurd hk hx.not_keyword
    · rw [Imprint.raw, if_neg hay] at hkind hvalue hwidth
      obtain ⟨t, ht, htkind, htvalue, htwidth⟩ := exists_of_imprint ha
      have hplain := (hnames t ht (htkind.trans (hkind.trans huk.1))).2
      rw [Token.IsRaw, not_not] at hplain ⊢
      rw [← hwidth, ← hvalue, ← htwidth, ← htvalue, hplain]
  · rw [reads_respell_exchange hx.word hts hus fun t ht htkind => ?_]
    · exact hnot
    · refine (hnames t ht htkind).1.imp_right fun hmem => ?_
      rintro rfl
      exact hx.not_keyword hmem

/-! ### A text that no keyword of the grammar can stand in -/

/-- A text with one name at all places where the grammar tells names from keywords. -/
def probe : String :=
  "y \x7b \x7d fn y(y: &y) \x7b return y; y.y::<>(); y | y!() \x7d"

@[irreducible]
def probeTokens : List Token := (tokenize probe 0).tokens

theorem tokensOf_probe : tokensOf probe 0 = .ok probeTokens := by
  have hfault : (tokenize probe 0).fault = none := by decide +kernel
  rw [tokensOf, hfault, probeTokens]

/-- All names of the text but one are keywords, and none is raw. -/
theorem probe_names : ∀ t ∈ probeTokens, t.kind = .ident →
    (t.value = "y" ∨ t.value ∈ keywords) ∧ ¬ t.IsRaw := by
  decide +kernel

theorem probe_occurs : ∃ t ∈ probeTokens, t.isKeyword "y" = true := by decide +kernel

theorem reads_probe : Reads probeTokens := by decide +kernel

/-- With a keyword that the grammar asks for the text is that of no file. -/
theorem not_reads_probe : ∀ k ∈ Grammar.words, k ∈ keywords → k ∉ pathKeywords →
    ¬ Reads (probeTokens.map (Token.exchange "y" k)) := by
  decide +kernel

/-! ### Words that the grammar asks for and that are no keywords -/

/-- These words, each with a text in which it does not stand for a name. -/
def contextual : List (String × String) :=
  [("Fn", "fn f(g: Fn(u8)) \x7b \x7d"), ("FnMut", "fn f(g: FnMut(u8)) \x7b \x7d"),
   ("FnOnce", "fn f(g: FnOnce(u8)) \x7b \x7d"),
   ("macro_rules", "fn f() \x7b macro_rules! m \x7b \x7d \x7d")]

theorem exists_contextual (hx : Ordinary x) (hasked : x ∈ Grammar.words) :
    ∃ code, (x, code) ∈ contextual := by
  have hall : ∀ x ∈ Grammar.words, x ≠ "_" → x ∉ keywords → ∃ p ∈ contextual, p.1 = x := by decide
  obtain ⟨p, hp, rfl⟩ := hall x hasked hx.ne_wildcard hx.not_keyword
  exact ⟨p.2, hp⟩

theorem reads_probe_contextual :
    ∀ p ∈ contextual, Reads (probeTokens.map (Token.exchange "y" p.1)) := by
  decide +kernel

/-- Each of the texts is that of a file, and with another name in the place of the word that of none. -/
theorem contextual_texts : ∀ p ∈ contextual,
    (tokenize p.2 0).fault = none ∧ Reads (tokenize p.2 0).tokens ∧
      (∃ t ∈ (tokenize p.2 0).tokens, t.isKeyword p.1 = true) ∧
      (∀ t ∈ (tokenize p.2 0).tokens, t.kind = .ident → t.value ≠ "abstract" ∧ ¬ t.IsRaw) ∧
      ¬ Reads ((tokenize p.2 0).tokens.map (Token.exchange p.1 "abstract")) := by
  decide +kernel

theorem not_interchangeable_contextual (hx : Ordinary x) (hasked : x ∈ Grammar.words) (hk : IsWord k)
    (hk' : k ∉ Grammar.words) : ¬ Interchangeable x k := by
  obtain ⟨code, hcode⟩ := exists_contextual hx hasked
  obtain ⟨hfault, hreads, hoccurs, hnames, hnot⟩ := contextual_texts (x, code) hcode
  have hts : tokensOf code 0 = .ok (tokenize code 0).tokens := by rw [tokensOf, hfault]
  generalize (tokenize code 0).tokens = ts at hts hreads hoccurs hnames hnot
  refine not_interchangeable hk hts hreads hoccurs (fun t ht htk => ?_) ?_
  · exact (hnames t ht (Token.isKeyword_iff.1 htk).1).2
  · -- one name that the grammar does not ask for is as good as another
    have habstract : ¬ Asked "abstract" := by decide
    have htwice : ts.map (Token.exchange x k) =
        (ts.map (Token.exchange x "abstract")).map (Token.exchange "abstract" k) := by
      rw [List.map_map]
      exact List.map_congr_left fun t ht =>
        (Token.exchange_exchange fun hkind => .inr (hnames t ht hkind).1).symm
    rwa [htwice, reads_exchange habstract (not_asked hk hk')
      (ordered_exchange x "abstract" (ordered_of_tokensOf hts))]

/-! ### Raw names and other names -/

/-- The text with any name that is no keyword is that of a file. -/
theorem reads_probe_ordinary (hx : Ordinary x) : Reads (probeTokens.map (Token.exchange "y" x)) := by
  have hy : ¬ Asked "y" := by decide
  by_cases hasked : x ∈ Grammar.words
  · obtain ⟨code, hcode⟩ := exists_contextual hx hasked
    exact reads_probe_contextual (x, code) hcode
  · exact (reads_exchange hy (not_asked hx.word hasked) (ordered_of_tokensOf tokensOf_probe)).2
      reads_probe

/-- The raw name of a keyword can stand for a name wherever that stands just if the grammar asks for
neither of the two. -/
theorem interchangeable_iff (hx : Ordinary x) (hk : k ∈ keywords) (hp : k ∉ pathKeywords) :
    Interchangeable x k ↔ x ∉ Grammar.words ∧ k ∉ Grammar.words := by
  have hword := isWord_of_keyword k hk
  constructor
  · intro h
    have hk' : k ∉ Grammar.words := fun hasked =>
      not_interchangeable_of_text tokensOf_probe probe_occurs probe_names hx hk
        (reads_probe_ordinary hx) (not_reads_probe k hasked hk hp) h
    exact ⟨fun hasked => not_interchangeable_contextual hx hasked hword hk' h, hk'⟩
  · rintro ⟨hx', hk'⟩
    exact interchangeable_of_unasked hx.word hword hx' hk'

/-- A keyword that is only kept back. -/
theorem interchangeable_abstract : Interchangeable "x" "abstract" :=
  (interchangeable_iff ⟨by decide, by decide, by decide⟩ (by decide) (by decide)).2
    ⟨by decide, by decide⟩

/-- A keyword that begins expressions. -/
theorem not_interchangeable_match : ¬ Interchangeable "x" "match" := by
  have hfault : (tokenize "fn f() \x7b x \x7d" 0).fault = none := by decide +kernel
  have hts : tokensOf "fn f() \x7b x \x7d" 0 = .ok (tokenize "fn f() \x7b x \x7d" 0).tokens := by
    rw [tokensOf, hfault]
  exact not_interchangeable (by decide) hts (by decide +kernel) (by decide +kernel) (by decide +kernel)
    (by decide +kernel)

end BuilderMigration
