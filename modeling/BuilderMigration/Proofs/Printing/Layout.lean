import BuilderMigration.Proofs.Printing.Spelling
import BuilderMigration.Proofs.Token.Ends
import BuilderMigration.Proofs.Token.Wording
import Mathlib.Data.List.Find

/-! Texts laid out from tokens and blanks. Where each token is whole in front of what comes next, a text
has the tokens it is laid out from, each at its place. -/

namespace BuilderMigration

open Lexeme (isNameChar isNameStart longMarks shortMarks piece punct name)

variable {rest v w cs : List Char} {c d : Char} {m s : String} {x : Spelling} {lo : Int}

/-! ### Tokens in front of a text -/

/-- A text is a token of its own in front of another one. -/
def Spelling.Stands (x : Spelling) (rest : List Char) : Prop :=
  piece (x.2.toList ++ rest) = .token x.1 x.2.toList.length ∧ Scan.tokenText x.1 x.2.toList = x.2

/-- All marks. -/
def marks : List String := longMarks ++ shortMarks.map fun c => String.ofList [c]

/-- No longer mark and no comment begins with the mark `m` and what comes behind it. -/
def Clear (m : String) (rest : List Char) : Prop :=
  ∀ d ∈ rest.head?, ∀ l ∈ "//" :: "/*" :: longMarks, (m.toList ++ [d]).isPrefixOf l.toList = false

instance (m : String) : DecidablePred (Clear m)
  | [] => isTrue nofun
  | d :: _ => decidable_of_iff
    (∀ l ∈ "//" :: "/*" :: longMarks, (m.toList ++ [d]).isPrefixOf l.toList = false)
    ⟨fun h _ hd => Option.some.inj hd ▸ h, fun h => h d rfl⟩

theorem Clear.append (h : Clear m v) (hv : v ≠ []) (rest : List Char) : Clear m (v ++ rest) := by
  cases v with
  | nil => exact absurd rfl hv
  | cons d v => exact h

/-- A mark that no longer one and no comment begins with. -/
theorem clear_longest (h : ∀ l ∈ "//" :: "/*" :: longMarks, m.toList <+: l.toList →
    l.length ≤ m.length) (rest : List Char) : Clear m rest := by
  intro d _ l hl
  rw [Bool.eq_false_iff, Ne, List.isPrefixOf_iff_prefix]
  intro hp
  have hle := h l hl ((List.prefix_append m.toList [d]).trans hp)
  have := hp.length_le
  rw [List.length_append, List.length_singleton, String.length_toList, String.length_toList] at this
  omega

/-- Characters of texts are tried one by one. -/
theorem forall_chars_of_all {P : Char → Prop} [DecidablePred P] {ls : List String}
    (h : ∀ l ∈ ls, l.toList.all (fun c => decide (P c)) = true) : ∀ l ∈ ls, ∀ c ∈ l.toList, P c :=
  fun l hl => Lexeme.forall_of_all (h l hl)

theorem broken_cons {d : Char} (hd : d ∈ Lexeme.breaks) (cs : List Char) : Broken (d :: cs) :=
  ⟨d, rfl, hd⟩

/-- No mark of several characters has a break in it. -/
theorem Broken.clear (h : Broken rest) (m : String) : Clear m rest := by
  obtain ⟨d, hd, r, rfl⟩ := h.exists_cons
  intro e he l hl
  obtain rfl := Option.some.inj he
  have hlong : ∀ l ∈ "//" :: "/*" :: longMarks, ∀ c ∈ l.toList, c ∉ Lexeme.breaks :=
    forall_chars_of_all (by decide)
  rw [Bool.eq_false_iff, Ne, List.isPrefixOf_iff_prefix]
  exact fun hp => hlong l hl d (hp.subset (by simp)) hd

/-- No mark has a blank in it. -/
theorem clear_blank (hd : Text.isBlank d = true) (m : String) (rest : List Char) :
    Clear m (d :: rest) := by
  intro e he l hl
  obtain rfl := Option.some.inj he
  have hlong : ∀ l ∈ "//" :: "/*" :: longMarks, ∀ c ∈ l.toList, Text.isBlank c = false :=
    forall_chars_of_all (by decide)
  rw [Bool.eq_false_iff, Ne, List.isPrefixOf_iff_prefix]
  intro hp
  have := hlong l hl d (hp.subset (by simp))
  rw [this] at hd
  cases hd

/-- No mark has a letter in it. -/
theorem clear_name (hd : isNameStart d = true) (m : String) (rest : List Char) :
    Clear m (d :: rest) := by
  intro e he l hl
  obtain rfl := Option.some.inj he
  have hlong : ∀ l ∈ "//" :: "/*" :: longMarks, ∀ c ∈ l.toList, isNameStart c = false :=
    forall_chars_of_all (by decide)
  rw [Bool.eq_false_iff, Ne, List.isPrefixOf_iff_prefix]
  intro hp
  have := hlong l hl d (hp.subset (by simp))
  rw [this] at hd
  cases hd

theorem IsWord.exists_cons (h : IsWord s) : ∃ c w, s.toList = c :: w ∧ isNameStart c = true := by
  rw [IsWord] at h
  cases hs : s.toList with
  | nil =>
    rw [hs] at h
    cases h
  | cons c w =>
    rw [hs, name, Option.ite_none_right_eq_some] at h
    exact ⟨c, w, rfl, h.1⟩

theorem IsWord.clear (h : IsWord s) (m : String) (rest : List Char) : Clear m (s.toList ++ rest) := by
  obtain ⟨c, w, hs, hc⟩ := h.exists_cons
  rw [hs]
  exact clear_name hc m _

theorem aside_blank (hd : Text.isBlank d = true) (rest : List Char) : Aside (d :: rest) := by
  intro e he
  obtain rfl := Option.some.inj he
  refine ⟨Bool.eq_false_iff.2 fun h => ?_, ?_, ?_, ?_⟩
  · rw [Lexeme.not_isBlank_of_isNameChar h] at hd
    cases hd
  all_goals
    rintro rfl
    cases hd

namespace Lexeme

/-- A mark is told by its own text in front of what does not make it longer. -/
theorem punct_append {n : Nat} (hv : v ≠ []) (h : punct v = some n)
    (hr : ∀ d ∈ rest.head?, ∀ l ∈ longMarks, (v ++ [d]).isPrefixOf l.toList = false) :
    punct (v ++ rest) = some n := by
  have hlong : ∀ l ∈ longMarks, l.toList.isPrefixOf (v ++ rest) = l.toList.isPrefixOf v := by
    intro l hl
    rw [Bool.eq_iff_iff, List.isPrefixOf_iff_prefix, List.isPrefixOf_iff_prefix]
    refine ⟨fun ⟨u, hu⟩ => ?_, fun hp => hp.trans (List.prefix_append v rest)⟩
    rcases List.append_eq_append_iff.1 hu with ⟨x, hx, -⟩ | ⟨_ | ⟨d, x⟩, hx, hrest⟩
    · exact ⟨x, hx.symm⟩
    · exact ⟨[], by simpa using hx⟩
    · have := hr d (by simp [hrest]) l hl
      rw [Bool.eq_false_iff, Ne, List.isPrefixOf_iff_prefix, hx] at this
      exact absurd ⟨x, by simp⟩ this
  obtain ⟨c, v, rfl⟩ := List.exists_cons_of_ne_nil hv
  unfold punct at h ⊢
  rw [List.find?_congr hlong]
  exact h

theorem piece_lifetime (hw : name w = some w.length)
    (hr : ∀ c ∈ rest.head?, isNameChar c = false ∧ c ≠ '\'') :
    piece ('\'' :: (w ++ rest)) = .token .lifetime (w.length + 1) := by
  have hname := name_append hw fun c hc => (hr c hc).1
  have hchar : charRest (w ++ rest) = none := by
    obtain _ | ⟨c, w⟩ := w
    · cases hw
    have hc : c ≠ '\\' := by
      rintro rfl
      cases hw
    have hnext : ∀ d ∈ (w ++ rest).head?, d ≠ '\'' := by
      cases w with
      | nil => exact fun d hd => (hr d hd).2
      | cons d w =>
        have halone : Aside [] := by decide
        have := aside_of_name hw halone
        intro e he
        exact (this e (by simpa using he)).2.1
    rw [List.cons_append]
    unfold charRest
    split
    · next hcs => exact absurd (List.cons.inj hcs).1 hc
    · next hcs => exact absurd rfl (hnext '\'' (by simp [(List.cons.inj hcs).2]))
    · rfl
  have htoken : token? ('\'' :: (w ++ rest)) = some (.lifetime, w.length + 1) := by
    rw [token?_tick, hchar, hname]
    rfl
  rw [piece_of_token rfl (by decide), tokenPiece]
  have hraw : rawStart? ('\'' :: (w ++ rest)) = none := rfl
  rw [hraw, htoken]

end Lexeme

theorem mark_stands (hm : m ∈ marks) (hr : Clear m rest) : (mark m).Stands rest := by
  refine ⟨?_, tokenText_of_ne (k := .punct) nofun m⟩
  have hmarks : ∀ m ∈ marks, m.toList ≠ [] ∧ m.toList.head?.all (· ∈ shortMarks) = true ∧
      punct m.toList = some m.toList.length ∧ (m.toList.head? = some '/' →
        m.toList.tail.head? ≠ some '/' ∧ m.toList.tail.head? ≠ some '*') := by decide
  obtain ⟨hne, hc, hp, hslash⟩ := hmarks m hm
  obtain ⟨c, v, hcv⟩ := List.exists_cons_of_ne_nil hne
  have hrest := hr
  unfold Clear at hrest
  rw [hcv] at hrest hc hp hslash
  change piece (m.toList ++ rest) = .token .punct m.toList.length
  rw [hcv, List.cons_append]
  refine Lexeme.piece_punct (of_decide_eq_true hc) (fun h d hd => ?_) ?_
  · subst h
    cases v with
    | nil =>
      have hslash := hrest d hd "//" (by simp)
      have hstar := hrest d hd "/*" (by simp)
      constructor
      · rintro rfl
        cases hslash
      · rintro rfl
        cases hstar
    | cons e v =>
      obtain rfl := Option.some.inj hd
      exact (hslash rfl).imp (mt (congrArg some)) (mt (congrArg some))
  · exact Lexeme.punct_append (v := c :: v) (List.cons_ne_nil _ _) hp
      fun d hd l hl => hrest d hd l (by simp [hl])

theorem IsWord.stands (h : IsWord s) (hr : Aside rest) : Spelling.Stands (.ident, s) rest := by
  refine ⟨?_, h.alone.2⟩
  have hname : name s.toList = some s.toList.length := by
    rw [String.length_toList]
    exact h
  exact Lexeme.piece_word hname hr

theorem lifetime_stands (h : IsWord s) (hr : ∀ c ∈ rest.head?, isNameChar c = false ∧ c ≠ '\'') :
    Spelling.Stands (.lifetime, "'" ++ s) rest := by
  refine ⟨?_, tokenText_of_ne (k := .lifetime) nofun _⟩
  have hname : name s.toList = some s.toList.length := by
    rw [String.length_toList]
    exact h
  have := Lexeme.piece_lifetime hname hr
  simpa using this

theorem Spelling.Stands.ne_nil (h : x.Stands rest) : x.2.toList ≠ [] := by
  intro hnil
  have := Lexeme.piece_token h.1
  simp [hnil] at this

/-! ### Layouts -/

/-- What a text is laid out from. -/
inductive Glyph where
  | token (x : Spelling)
  | gap (blanks : List Char)

namespace Glyph

def chars : Glyph → List Char
  | token x => x.2.toList
  | gap blanks => blanks

/-- A text. -/
def text (gs : List Glyph) : List Char := gs.flatMap chars

/-- The tokens of a text that stands at position `lo`. -/
def placed : Int → List Glyph → List Token
  | _, [] => []
  | lo, token x :: gs => ⟨x.1, x.2, lo, lo + x.2.length, 0, 0⟩ :: placed (lo + x.2.length) gs
  | lo, gap blanks :: gs => placed (lo + blanks.length) gs

/-- What the tokens of a text are. -/
def spellings : List Glyph → List Spelling
  | [] => []
  | token x :: gs => x :: spellings gs
  | gap _ :: gs => spellings gs

/-- In front of `rest` a text has the tokens that it is laid out from. -/
def Fits (rest : List Char) (gs : List Glyph) : Prop := ∀ lo, Lexes rest lo (text gs) (placed lo gs)

variable {gs hs : List Glyph} {blanks : List Char}

@[simp] theorem text_nil : text [] = [] := rfl

@[simp] theorem text_token : text (token x :: gs) = x.2.toList ++ text gs := rfl

@[simp] theorem text_gap : text (gap blanks :: gs) = blanks ++ text gs := rfl

@[simp] theorem placed_nil (lo : Int) : placed lo [] = [] := rfl

@[simp] theorem text_append : text (gs ++ hs) = text gs ++ text hs := List.flatMap_append

@[simp] theorem spellings_nil : spellings [] = [] := rfl

@[simp] theorem spellings_token : spellings (token x :: gs) = x :: spellings gs := rfl

@[simp] theorem spellings_gap : spellings (gap blanks :: gs) = spellings gs := rfl

@[simp] theorem spellings_append : spellings (gs ++ hs) = spellings gs ++ spellings hs := by
  induction gs with
  | nil => rfl
  | cons g gs ih =>
    cases g with
    | token x => exact congrArg (x :: ·) ih
    | gap blanks => exact ih

theorem placed_append (lo : Int) (gs hs : List Glyph) :
    placed lo (gs ++ hs) = placed lo gs ++ placed (lo + (text gs).length) hs := by
  induction gs generalizing lo with
  | nil => simp [placed]
  | cons g gs ih =>
    cases g with
    | token x =>
      rw [List.cons_append, placed, placed, ih, List.cons_append, text_token, List.length_append,
        String.length_toList, Int.natCast_add, Int.add_assoc]
    | gap blanks =>
      rw [List.cons_append, placed, placed, ih, text_gap, List.length_append, Int.natCast_add,
        Int.add_assoc]

theorem spelling_placed (lo : Int) (gs : List Glyph) :
    (placed lo gs).map Token.spelling = spellings gs := by
  induction gs generalizing lo with
  | nil => rfl
  | cons g gs ih =>
    cases g with
    | token x => exact congrArg (x :: ·) (ih _)
    | gap blanks => exact ih _

/-- Texts with commas between them. -/
def commas (items : List (List Glyph)) : List Glyph :=
  [token (mark ","), gap [' ']].intercalate items

@[simp] theorem commas_nil : commas [] = [] := rfl

@[simp] theorem commas_singleton (gs : List Glyph) : commas [gs] = gs := by
  simp [commas, List.intercalate]

theorem commas_cons_cons (gs hs : List Glyph) (items : List (List Glyph)) :
    commas (gs :: hs :: items) = gs ++ token (mark ",") :: gap [' '] :: commas (hs :: items) := by
  simp [commas, List.intercalate]

theorem text_commas {items : List (List Glyph)} {texts : List String}
    (h : items.map text = texts.map String.toList) :
    text (commas items) = (String.intercalate ", " texts).toList := by
  induction items generalizing texts with
  | nil =>
    obtain rfl := List.map_eq_nil_iff.1 h.symm
    rfl
  | cons gs items ih =>
    obtain ⟨s, texts, rfl, hfirst, hitems⟩ := List.map_eq_cons_iff.1 h.symm
    cases items with
    | nil =>
      obtain rfl := List.map_eq_nil_iff.1 hitems
      simp [hfirst]
    | cons hs items =>
      obtain ⟨s', texts, rfl, hs', -⟩ := List.map_eq_cons_iff.1 hitems
      rw [commas_cons_cons, text_append, text_token, text_gap, ih hitems.symm,
        String.intercalate_cons_cons]
      simp [hfirst, mark]

theorem spellings_commas (items : List (List Glyph)) :
    spellings (commas items) = BuilderMigration.commas (items.map spellings) := by
  induction items with
  | nil => rfl
  | cons gs items ih =>
    cases items with
    | nil => simp [BuilderMigration.commas, List.intercalate]
    | cons hs items =>
      rw [commas_cons_cons, spellings_append, spellings, spellings, ih]
      simp [BuilderMigration.commas, List.intercalate]

namespace Fits

theorem nil : Fits rest [] := fun _ => .done

theorem token (hx : x.Stands (text gs ++ rest)) (h : Fits rest gs) : Fits rest (.token x :: gs) := by
  intro lo
  rw [text_token, placed, ← String.length_toList]
  have := Lexes.token hx.1 hx.ne_nil (h (lo + x.2.toList.length))
  rwa [hx.2] at this

/-- A mark that nothing makes longer. -/
theorem ofMark (hm : m ∈ marks) (hlong : ∀ l ∈ "//" :: "/*" :: longMarks, m.toList <+: l.toList →
    l.length ≤ m.length) (h : Fits rest gs) : Fits rest (.token (mark m) :: gs) :=
  .token (mark_stands hm (clear_longest hlong _)) h

theorem word (hs : IsWord s) (hr : Aside (text gs ++ rest)) (h : Fits rest gs) :
    Fits rest (.token (.ident, s) :: gs) :=
  .token (hs.stands hr) h

theorem gap (hblank : blanks.all Text.isBlank = true) (h : Fits rest gs) :
    Fits rest (.gap blanks :: gs) := by
  intro lo
  rw [text_gap, placed]
  induction blanks generalizing lo with
  | nil => simpa using h lo
  | cons c cs ih =>
    rw [List.all_cons, Bool.and_eq_true] at hblank
    have hpiece : piece ([c] ++ (cs ++ text gs ++ rest)) = .skip [c].length :=
      Lexeme.piece_of_blank hblank.1 _
    have hlater := ih hblank.2 (lo + 1)
    rw [Int.add_assoc, Int.add_comm 1] at hlater
    have hall := Lexes.skip hpiece (List.cons_ne_nil c []) hlater
    exact hall

theorem append (hg : Fits (text hs ++ rest) gs) (hh : Fits rest hs) : Fits rest (gs ++ hs) := by
  intro lo
  rw [text_append, placed_append]
  exact (hg lo).append (hh _)

/-- A text in front of others, with a comma and a blank in between. -/
theorem commas {G : List Char → Prop} {items : List (List Glyph)}
    (h : ∀ gs ∈ items, ∀ cs, G cs → Fits cs gs) (hcomma : ∀ cs, G (',' :: cs)) (hrest : G rest) :
    Fits rest (Glyph.commas items) := by
  induction items with
  | nil => exact .nil
  | cons gs items ih =>
    have hitems := ih fun gs hgs => h gs (List.mem_cons_of_mem _ hgs)
    cases items with
    | nil =>
      rw [commas_singleton]
      exact h gs List.mem_cons_self rest hrest
    | cons hs items =>
      rw [commas_cons_cons]
      have hcommas : Fits rest (.token (mark ",") :: .gap [' '] :: Glyph.commas (hs :: items)) :=
        .ofMark (by decide) (by decide) (.gap (by decide) hitems)
      exact .append (h gs List.mem_cons_self _ (hcomma _)) hcommas

/-- The tokens of a text, apart from lines and columns. -/
theorem tokensOf {code : String} (hcode : code.toList = text gs) (h : Fits [] gs) (start : Int) :
    ∃ us, tokensOf code start = .ok us ∧ us.map Token.bare = placed start gs := by
  refine tokensOf_of_lexes ?_
  rw [hcode]
  exact h start

/-- How the tokens of a text are spelt. -/
theorem spelt {code : String} (hcode : code.toList = text gs) (h : Fits [] gs) (start : Int) :
    ∃ us, BuilderMigration.tokensOf code start = .ok us ∧ us.map Token.spelling = spellings gs := by
  obtain ⟨us, hus, hbare⟩ := h.tokensOf hcode start
  refine ⟨us, hus, ?_⟩
  rw [← spelling_placed start gs, ← hbare, List.map_map]
  rfl

end Fits

end Glyph

end BuilderMigration
