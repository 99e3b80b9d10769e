import BuilderMigration.Proofs.Printing.Phrase
import BuilderMigration.Proofs.Token.Lexes

/-! The text of a phrase has the tokens of the phrase: each of them is a whole token by itself, and so it
is in front of a space. -/

namespace BuilderMigration

open Lexeme (breaks piece)

/-- A text that is one token by itself, and comes without a marker for raw names. -/
def Spelling.Alone (w : Spelling) : Prop :=
  piece w.2.toList = .token w.1 w.2.length ∧ Scan.tokenText w.1 w.2.toList = w.2

/-- The punctuation of phrases. -/
def phraseMarks : List String :=
  ["(", ")", "\x7b", "\x7d", "|", "||", ",", ";", ":", "::", ".", "=", "&"]

/-- The tokens that phrases are made of. -/
inductive Spelling.Usable : Spelling → Prop
  | name {v : String} (h : IsWord v) : Usable (.ident, v)
  | lit (l : Literal) : Usable l.spelling
  | mark {v : String} (h : v ∈ phraseMarks) : Usable (mark v)

variable {w : Spelling} {ws : List Spelling} {v : String}

/-! ### Tokens by themselves -/

theorem tokenText_of_ne {k : TokenKind} (h : k ≠ .ident) (v : String) :
    Scan.tokenText k v.toList = v := by
  cases k <;> first | exact absurd rfl h | exact String.ofList_toList

theorem IsWord.alone (h : IsWord v) : Spelling.Alone (.ident, v) := by
  have hname : Lexeme.name v.toList = some v.toList.length := by
    rw [String.length_toList]
    exact h
  have hend : Aside [] := nofun
  constructor
  · have := Lexeme.piece_word hname hend
    rwa [List.append_nil, String.length_toList] at this
  · change Scan.tokenText .ident v.toList = v
    unfold Scan.tokenText
    split
    · next cs hcs =>
      -- no name goes on with the mark of a raw name
      rw [hcs] at hname
      have := Lexeme.aside_of_name hname hend '#' (by simp)
      exact absurd rfl this.2.2
    · exact String.ofList_toList

theorem Literal.alone (l : Literal) : l.spelling.Alone := by
  obtain ⟨kind, text, h⟩ := l
  cases kind with
  | string => exact ⟨h, tokenText_of_ne (k := .string) nofun text⟩
  | char => exact ⟨h, tokenText_of_ne (k := .char) nofun text⟩
  | number => exact ⟨h, tokenText_of_ne (k := .number) nofun text⟩
  | bool => exact IsWord.alone (by rcases h with rfl | rfl <;> decide)

theorem mark_alone (h : v ∈ phraseMarks) : (mark v).Alone := by
  refine ⟨?_, tokenText_of_ne (k := .punct) nofun v⟩
  have hmarks : ∀ v ∈ phraseMarks, piece v.toList = .token .punct v.length := by decide
  exact hmarks v h

theorem Spelling.Usable.alone (h : w.Usable) : w.Alone := by
  cases h with
  | name h => exact h.alone
  | lit l => exact l.alone
  | mark h => exact mark_alone h

/-- What is a token by itself is one in front of a space. -/
theorem Spelling.Alone.piece_space (h : w.Alone) (x : List Char) :
    piece (w.2.toList ++ ' ' :: x) = .token w.1 w.2.toList.length := by
  have hpiece : piece (w.2.toList ++ []) = .token w.1 w.2.toList.length := by
    rw [List.append_nil, String.length_toList]
    exact h.1
  have hdone : Lexes [] 0 (w.2.toList.drop w.2.toList.length) [] := by
    rw [List.drop_length]
    exact .done
  have hblank : ' ' ∈ breaks := by decide
  rcases Lexeme.piece_break (Lexeme.stops_of_break hblank []) x hpiece (Nat.le_refl _) hdone with
    hsame | ⟨hdot, -, -⟩
  · exact hsame
  · rw [List.drop_length] at hdot
    cases hdot

theorem Spelling.Alone.ne_nil (h : w.Alone) : w.2.toList ≠ [] := by
  intro hnil
  have hpiece := h.1
  rw [hnil] at hpiece
  cases hpiece

/-! ### Texts with spaces -/

/-- Tokens with spaces between them are read as these tokens. -/
theorem lexes_spaced (h : ∀ w ∈ ws, w.Alone) (lo : Int) :
    ∃ ts, Lexes [] lo (String.intercalate " " (ws.map (·.2))).toList ts ∧
      ts.map Token.spelling = ws := by
  induction ws generalizing lo with
  | nil => exact ⟨[], .done, rfl⟩
  | cons w ws ih =>
    have hw := h w List.mem_cons_self
    have hspelt (lo hi : Int) : Token.spelling ⟨w.1, Scan.tokenText w.1 w.2.toList, lo, hi, 0, 0⟩ = w :=
      Prod.ext rfl hw.2
    cases ws with
    | nil =>
      have hpiece : piece (w.2.toList ++ ([] ++ [])) = .token w.1 w.2.toList.length := by
        rw [List.append_nil, List.append_nil, String.length_toList]
        exact hw.1
      have htoken : Lexes [] lo (w.2.toList ++ []) _ := .token hpiece hw.ne_nil .done
      rw [List.append_nil] at htoken
      exact ⟨_, htoken, by rw [List.map_singleton, hspelt]⟩
    | cons w' ws =>
      obtain ⟨ts, hts, hspelling⟩ :=
        ih (fun w hw => h w (List.mem_cons_of_mem _ hw)) (lo + w.2.toList.length + 1)
      have hspace : Lexes [] (lo + w.2.toList.length)
          ([' '] ++ (String.intercalate " " ((w' :: ws).map (·.2))).toList) ts :=
        .skip (Lexeme.piece_of_blank rfl _) (by simp) hts
      have hall := Lexes.token (hw.piece_space _) hw.ne_nil hspace
      rw [List.map_cons, List.map_cons, String.intercalate_cons_cons, String.toList_append,
        String.toList_append, List.append_assoc]
      exact ⟨_, hall, by rw [List.map_cons, hspelt, hspelling]⟩

/-- The tokens of a text that is spelt with spaces. -/
theorem tokensOf_spaced (h : ∀ w ∈ ws, w.Alone) (start : Int) :
    ∃ ts, tokensOf (String.intercalate " " (ws.map (·.2))) start = .ok ts ∧
      ts.map Token.spelling = ws := by
  obtain ⟨ts, hlexes, hts⟩ := lexes_spaced h start
  obtain ⟨us, hus, hbare⟩ := tokensOf_of_lexes hlexes
  refine ⟨us, hus, ?_⟩
  rw [← hts, ← hbare, List.map_map]
  rfl

/-! ### The tokens of a phrase -/

/-- All tokens of some text are those of phrases. -/
def AllUsable (ws : List Spelling) : Prop := ∀ w ∈ ws, w.Usable

@[simp] theorem allUsable_nil : AllUsable [] := nofun

@[simp] theorem allUsable_cons : AllUsable (w :: ws) ↔ w.Usable ∧ AllUsable ws := by
  simp [AllUsable]

@[simp] theorem allUsable_append {vs : List Spelling} :
    AllUsable (ws ++ vs) ↔ AllUsable ws ∧ AllUsable vs := by
  simp only [AllUsable, List.mem_append, or_imp, forall_and]

@[simp] theorem usable_mark : (mark v).Usable ↔ v ∈ phraseMarks := by
  refine ⟨fun h => ?_, .mark⟩
  generalize hw : mark v = w at h
  cases h with
  | name h => cases hw
  | lit l =>
    have hkind : l.kind.token = .punct := (congrArg Prod.fst hw).symm
    cases hk : l.kind <;> rw [hk] at hkind <;> cases hkind
  | mark h =>
    obtain rfl : v = _ := congrArg Prod.snd hw
    exact h

@[simp] theorem Ident.usable (i : Ident) : i.spelling.Usable := .name i.isWord

@[simp] theorem usable_keyword (h : IsWord v) : (keyword v).Usable := .name h

@[simp] theorem mark_inj {u : String} : mark u = mark v ↔ u = v := by simp [mark]

@[simp] theorem mark_ne_keyword (u : String) : mark u ≠ keyword v := nofun

@[simp] theorem mark_ne_ident (u : String) (i : Ident) : mark u ≠ i.spelling := nofun

theorem mem_commas {items : List (List Spelling)} (h : w ∈ commas items) :
    w = mark "," ∨ ∃ ws ∈ items, w ∈ ws := by
  induction items with
  | nil => simp [commas] at h
  | cons ws items ih =>
    cases items with
    | nil => exact .inr ⟨ws, by simp, by simpa [commas] using h⟩
    | cons vs items =>
      have hlist : commas (ws :: vs :: items) = ws ++ mark "," :: commas (vs :: items) := by
        simp [commas, List.intercalate]
      rw [hlist, List.mem_append, List.mem_cons] at h
      rcases h with h | h | h
      · exact .inr ⟨ws, by simp, h⟩
      · exact .inl h
      · exact (ih h).imp_right fun ⟨us, hus, hw⟩ => ⟨us, List.mem_cons_of_mem _ hus, hw⟩

theorem allUsable_commas {items : List (List Spelling)} (h : ∀ ws ∈ items, AllUsable ws) :
    AllUsable (commas items) := by
  intro w hw
  rcases mem_commas hw with rfl | ⟨ws, hws, hw⟩
  · exact .mark (by decide)
  · exact h ws hws w hw

theorem PathName.allUsable (p : PathName) : AllUsable p.spellings := by
  rw [PathName.spellings, allUsable_cons]
  refine ⟨p.head.usable, ?_⟩
  induction p.tail with
  | nil => exact allUsable_nil
  | cons i is ih => exact allUsable_cons.2 ⟨.mark (by decide), allUsable_cons.2 ⟨i.usable, ih⟩⟩

mutual

theorem TypePhrase.allUsable : ∀ a : TypePhrase, AllUsable a.spellings
  | .ref mutable inner => by
    cases mutable <;>
      simp [TypePhrase.spellings, TypePhrase.allUsable inner, phraseMarks, (by decide : IsWord "mut")]
  | .path p => p.allUsable
  | .tuple elems => by
    have hlast : AllUsable (TypePhrase.lastComma elems) := by
      unfold TypePhrase.lastComma
      split <;> simp [phraseMarks]
    simp [TypePhrase.spellings, allUsable_commas (TypePhrase.allUsable_each elems), hlast, phraseMarks]

theorem TypePhrase.allUsable_each :
    ∀ as : List TypePhrase, ∀ ws ∈ TypePhrase.eachSpelt as, AllUsable ws
  | [], ws, h => nomatch h
  | a :: as, ws, h => by
    rcases List.mem_cons.1 h with rfl | h
    · exact TypePhrase.allUsable a
    · exact TypePhrase.allUsable_each as ws h

end

theorem Binding.allUsable (b : Binding) : AllUsable b.spellings := by
  obtain ⟨mutable, name, named, ty⟩ := b
  cases mutable <;> cases ty <;>
    simp [Binding.spellings, Binding.nameSpelt, Binding.typeSpelt, TypePhrase.allUsable, phraseMarks,
      (by decide : IsWord "mut")]

theorem Binding.allUsable_barred (bs : List Binding) : AllUsable (Binding.barred bs) := by
  cases bs with
  | nil => simp [Binding.barred, phraseMarks]
  | cons b bs =>
    have hlist : AllUsable (commas ((b :: bs).map (·.spellings))) := by
      refine allUsable_commas fun ws hws => ?_
      obtain ⟨b, -, rfl⟩ := List.mem_map.1 hws
      exact b.allUsable
    rw [Binding.barred, allUsable_cons, allUsable_append, allUsable_cons]
    exact ⟨.mark (by decide), hlist, .mark (by decide), allUsable_nil⟩

mutual

theorem Phrase.allUsable : ∀ p : Phrase, AllUsable p.spellings
  | .lit l => by simp [Phrase.spellings, Spelling.Usable.lit]
  | .closure captures params body => by
    cases captures <;>
      simp [Phrase.spellings, Binding.allUsable_barred, Phrase.allUsable body,
        (by decide : IsWord "move")]
  | .operand o => Operand.allUsable o

theorem Operand.allUsable : ∀ o : Operand, AllUsable o.spellings
  | .path p => p.allUsable
  | .call p args => by
    simp [Operand.spellings, p.allUsable, allUsable_commas (allUsable_each args), phraseMarks]
  | .paren e => by simp [Operand.spellings, Phrase.allUsable e, phraseMarks]
  | .method receiver name _ args => by
    simp [Operand.spellings, Operand.allUsable receiver, allUsable_commas (allUsable_each args),
      phraseMarks]
  | .block lines none => by simp [Operand.spellings, allUsable_lines lines, phraseMarks]
  | .block lines (some e) => by
    simp [Operand.spellings, allUsable_lines lines, Phrase.allUsable e, phraseMarks]

theorem Clause.allUsable : ∀ s : Clause, AllUsable s.spellings
  | .bind b none => by
    simp [Clause.spellings, b.allUsable, phraseMarks, (by decide : IsWord "let")]
  | .bind b (some e) => by
    simp [Clause.spellings, b.allUsable, Phrase.allUsable e, phraseMarks, (by decide : IsWord "let")]
  | .semi e => by simp [Clause.spellings, Phrase.allUsable e, phraseMarks]

theorem allUsable_each : ∀ es : List Phrase, ∀ ws ∈ eachSpelt es, AllUsable ws
  | [], ws, h => nomatch h
  | e :: es, ws, h => by
    rcases List.mem_cons.1 h with rfl | h
    · exact Phrase.allUsable e
    · exact allUsable_each es ws h

theorem allUsable_lines : ∀ ss : List Clause, AllUsable (linesSpelt ss)
  | [] => allUsable_nil
  | s :: ss => allUsable_append.2 ⟨Clause.allUsable s, allUsable_lines ss⟩

end

/-- The text of a phrase is read as its tokens. -/
theorem Phrase.tokensOf_text (p : Phrase) (start : Int) :
    ∃ ts, tokensOf p.text start = .ok ts ∧ ts.map Token.spelling = p.spellings :=
  tokensOf_spaced (fun w hw => (p.allUsable w hw).alone) start

end BuilderMigration
