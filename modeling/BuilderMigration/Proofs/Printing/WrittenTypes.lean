import BuilderMigration.Proofs.Printing.Layout

/-! Types as they are written: with lifetimes and generic arguments, and with no blanks between
ampersands and within angle brackets. Two ampersands side by side are one token, from the left on. -/

namespace BuilderMigration

open Lexeme (isNameStart)

/-! ### Types -/

mutual

/-- A type as it is written: a reference, a path whose names may have generic arguments, or types in
parentheses. -/
inductive WrittenType where
  | ref (lifetime : Option Ident) (mutable : Bool) (inner : WrittenType)
  | path (name : FreeName) (args : List WrittenType) (tail : WrittenTail)
  | tuple (elems : List WrittenType)

/-- The names of a path behind the first one. -/
inductive WrittenTail where
  | done
  | more (name : Ident) (args : List WrittenType) (tail : WrittenTail)

end

def WrittenTail.segments : WrittenTail → List String
  | .done => []
  | .more name _ tail => name.text :: tail.segments

mutual

/-- What is kept of a type. -/
def WrittenType.ty : WrittenType → Ty
  | .ref _ mutable inner => .ref inner.ty mutable
  | .path name _ tail => .path (name.name.text :: tail.segments)
  | .tuple elems => .tuple (tysOf elems)

def tysOf : List WrittenType → List Ty
  | [] => []
  | a :: as => a.ty :: tysOf as

end

/-! ### Texts -/

/-- What may stand behind the ampersand of a reference. -/
def referenceText (lifetime : Option Ident) (mutable : Bool) : String :=
  (match lifetime with | none => "" | some i => "'" ++ i.text ++ " ") ++ (if mutable then "mut " else "")

/-- Generic arguments, if there are any. -/
def genericsText : List String → String
  | [] => ""
  | args => "<" ++ String.intercalate ", " args ++ ">"

/-- Behind the only element of a tuple stands a comma. -/
def singleComma {α : Type} : List α → String
  | [_] => ","
  | _ => ""

mutual

def WrittenType.text : WrittenType → String
  | .ref lifetime mutable inner => "&" ++ referenceText lifetime mutable ++ inner.text
  | .path name args tail => name.name.text ++ genericsText (textsOf args) ++ tail.text
  | .tuple elems => "(" ++ String.intercalate ", " (textsOf elems) ++ singleComma elems ++ ")"

def WrittenTail.text : WrittenTail → String
  | .done => ""
  | .more name args tail => "::" ++ name.text ++ genericsText (textsOf args) ++ tail.text

def textsOf : List WrittenType → List String
  | [] => []
  | a :: as => a.text :: textsOf as

end

/-! ### Layouts -/

def referenceGlyphs (lifetime : Option Ident) (mutable : Bool) : List Glyph :=
  (match lifetime with | none => [] | some i => [.token (.lifetime, "'" ++ i.text), .gap [' ']]) ++
    (if mutable then [.token (keyword "mut"), .gap [' ']] else [])

def genericsGlyphs : List (List Glyph) → List Glyph
  | [] => []
  | args => .token (mark "<") :: (Glyph.commas args ++ [.token (mark ">")])

def singleCommaGlyphs {α : Type} : List α → List Glyph
  | [_] => [.token (mark ",")]
  | _ => []

/-- An ampersand that makes no mark with the next one. -/
def loneAmpersand (amp : Bool) : List Glyph := if amp then [.token (mark "&")] else []

mutual

/-- The tokens of a type. With `amp` an ampersand stands in front of it, which makes one mark with an
ampersand that the type begins with. -/
def WrittenType.glyphs : WrittenType → (amp : Bool) → List Glyph
  | .ref lifetime mutable inner, true =>
    .token (mark "&&") :: (referenceGlyphs lifetime mutable ++ inner.glyphs false)
  | .ref none false inner, false => inner.glyphs true
  | .ref lifetime mutable inner, false =>
    .token (mark "&") :: (referenceGlyphs lifetime mutable ++ inner.glyphs false)
  | .path name args tail, amp =>
    loneAmpersand amp ++ (.token name.name.spelling :: (genericsGlyphs (glyphsOf args) ++ tail.glyphs))
  | .tuple elems, amp =>
    loneAmpersand amp ++ (.token (mark "(") ::
      (Glyph.commas (glyphsOf elems) ++ (singleCommaGlyphs elems ++ [.token (mark ")")])))

def WrittenTail.glyphs : WrittenTail → List Glyph
  | .done => []
  | .more name args tail =>
    .token (mark "::") :: .token name.spelling :: (genericsGlyphs (glyphsOf args) ++ tail.glyphs)

def glyphsOf : List WrittenType → List (List Glyph)
  | [] => []
  | a :: as => a.glyphs false :: glyphsOf as

end

/-! ### The layouts are those of the texts -/

theorem text_referenceGlyphs (lifetime : Option Ident) (mutable : Bool) :
    Glyph.text (referenceGlyphs lifetime mutable) = (referenceText lifetime mutable).toList := by
  cases lifetime <;> cases mutable <;> simp [referenceGlyphs, referenceText, keyword]

theorem text_genericsGlyphs {args : List (List Glyph)} {texts : List String}
    (h : args.map Glyph.text = texts.map String.toList) :
    Glyph.text (genericsGlyphs args) = (genericsText texts).toList := by
  cases args with
  | nil =>
    obtain rfl := List.map_eq_nil_iff.1 h.symm
    rfl
  | cons arg args =>
    have hcommas := Glyph.text_commas h
    cases texts with
    | nil => cases h
    | cons s texts => simp [genericsGlyphs, genericsText, hcommas, mark]

theorem text_singleCommaGlyphs {α : Type} (as : List α) :
    Glyph.text (singleCommaGlyphs as) = (singleComma as).toList := by
  match as with
  | [] => rfl
  | [_] => simp [singleCommaGlyphs, singleComma, mark]
  | _ :: _ :: _ => rfl

theorem text_loneAmpersand (amp : Bool) :
    Glyph.text (loneAmpersand amp) = if amp then ['&'] else [] := by
  cases amp <;> rfl

mutual

theorem WrittenType.text_glyphs : ∀ (a : WrittenType) (amp : Bool),
    Glyph.text (a.glyphs amp) = (if amp then ['&'] else []) ++ a.text.toList
  | .ref lifetime mutable inner, true => by
    have := inner.text_glyphs false
    simp [WrittenType.glyphs, WrittenType.text, text_referenceGlyphs, this, mark]
  | .ref none false inner, false => by
    have := inner.text_glyphs true
    simp [WrittenType.glyphs, WrittenType.text, referenceText, this]
  | .ref (some i) mutable inner, false => by
    have := inner.text_glyphs false
    simp [WrittenType.glyphs, WrittenType.text, text_referenceGlyphs, this, mark]
  | .ref none true inner, false => by
    have := inner.text_glyphs false
    simp [WrittenType.glyphs, WrittenType.text, text_referenceGlyphs, this, mark]
  | .path name args tail, amp => by
    simp [WrittenType.glyphs, WrittenType.text, text_loneAmpersand, tail.text_glyphs,
      text_genericsGlyphs (text_glyphsOf args), Ident.spelling]
  | .tuple elems, amp => by
    rw [WrittenType.glyphs, Glyph.text_append, text_loneAmpersand, Glyph.text_token, Glyph.text_append,
      Glyph.text_commas (text_glyphsOf elems), Glyph.text_append, text_singleCommaGlyphs]
    simp [WrittenType.text, mark]

theorem WrittenTail.text_glyphs : ∀ b : WrittenTail, Glyph.text b.glyphs = b.text.toList
  | .done => rfl
  | .more name args tail => by
    simp [WrittenTail.glyphs, WrittenTail.text, tail.text_glyphs,
      text_genericsGlyphs (text_glyphsOf args), Ident.spelling, mark]

theorem text_glyphsOf : ∀ as : List WrittenType,
    (glyphsOf as).map Glyph.text = (textsOf as).map String.toList
  | [] => rfl
  | a :: as => by
    simp [glyphsOf, textsOf, a.text_glyphs, text_glyphsOf as]

end

/-! ### Tokens of the texts -/

/-- What does not go on from a type. -/
def TypeEnd (rest : List Char) : Prop := Aside rest ∧ Clear ">" rest

variable {rest : List Char} {gs : List Glyph}

theorem typeEnd_cons {d : Char} (hd : d ∈ [',', ')', '<', '>', ':', ' ']) (cs : List Char) :
    TypeEnd (d :: cs) := by
  have hends : ∀ d ∈ [',', ')', '<', '>', ':', ' '], Aside [d] ∧ Clear ">" [d] :=
    Lexeme.forall_of_all (by decide)
  have := hends d hd
  exact ⟨fun c hc => this.1 c (by simpa using hc), fun c hc => this.2 c (by simpa using hc)⟩

/-- No mark goes on from an angle bracket into a type: that begins with an ampersand, a parenthesis or a
name. -/
theorem WrittenType.clear_less (a : WrittenType) (cs : List Char) :
    Clear "<" (Glyph.text (a.glyphs false) ++ cs) := by
  rw [a.text_glyphs]
  cases a with
  | ref lifetime mutable inner =>
    rw [text, String.append_assoc, String.toList_append]
    exact Clear.append (v := "&".toList) (by decide) (by decide) _
  | path name args tail =>
    rw [text, String.append_assoc, String.toList_append]
    simpa using name.name.isWord.clear "<" _
  | tuple elems =>
    rw [text, String.append_assoc, String.append_assoc, String.toList_append]
    exact Clear.append (v := "(".toList) (by decide) (by decide) _

theorem loneAmpersand_fits (amp : Bool) (hclear : Clear "&" (Glyph.text gs ++ rest))
    (h : Glyph.Fits rest gs) : Glyph.Fits rest (loneAmpersand amp ++ gs) := by
  cases amp with
  | false => exact h
  | true => exact .token (mark_stands (by decide) hclear) h

theorem referenceGlyphs_fits (lifetime : Option Ident) (mutable : Bool) (h : Glyph.Fits rest gs) :
    Glyph.Fits rest (referenceGlyphs lifetime mutable ++ gs) := by
  have hmut : IsWord "mut" := by decide
  have hmutable : Glyph.Fits rest
      ((if mutable then [.token (keyword "mut"), .gap [' ']] else []) ++ gs) := by
    cases mutable with
    | false => exact h
    | true => exact .word hmut (aside_blank rfl _) (.gap (by decide) h)
  cases lifetime with
  | none => exact hmutable
  | some i =>
    rw [referenceGlyphs, List.append_assoc]
    refine .token (lifetime_stands i.isWord fun c hc => ?_) (.gap (by decide) hmutable)
    obtain rfl : ' ' = c := Option.some.inj hc
    decide

theorem genericsGlyphs_fits {args : List (List Glyph)}
    (hargs : ∀ a ∈ args, ∀ cs, TypeEnd cs → Glyph.Fits cs a)
    (hless : ∀ a ∈ args, ∀ cs, Clear "<" (Glyph.text a ++ cs))
    (hend : TypeEnd (Glyph.text gs ++ rest)) (h : Glyph.Fits rest gs) :
    Glyph.Fits rest (genericsGlyphs args ++ gs) ∧
      TypeEnd (Glyph.text (genericsGlyphs args ++ gs) ++ rest) := by
  cases args with
  | nil => exact ⟨h, hend⟩
  | cons a args =>
    have hgreater : Glyph.Fits rest (.token (mark ">") :: gs) :=
      .token (mark_stands (by decide) hend.2) h
    have hcommas : Glyph.Fits rest (Glyph.commas (a :: args) ++ .token (mark ">") :: gs) :=
      .append (.commas hargs (typeEnd_cons (by decide)) (typeEnd_cons (by decide) _)) hgreater
    have hopen : ∃ cs, Glyph.text (Glyph.commas (a :: args) ++ .token (mark ">") :: gs) ++ rest =
        Glyph.text a ++ cs := by
      cases args with
      | nil => exact ⟨_, by rw [Glyph.commas_singleton, Glyph.text_append, List.append_assoc]⟩
      | cons b args =>
        exact ⟨_, by rw [Glyph.commas_cons_cons, Glyph.text_append, Glyph.text_append,
          List.append_assoc, List.append_assoc]⟩
    obtain ⟨cs, hcs⟩ := hopen
    have hall : genericsGlyphs (a :: args) ++ gs =
        .token (mark "<") :: (Glyph.commas (a :: args) ++ .token (mark ">") :: gs) := by
      simp [genericsGlyphs]
    rw [hall]
    constructor
    · refine .token (mark_stands (by decide) ?_) hcommas
      rw [hcs]
      exact hless a List.mem_cons_self cs
    · exact typeEnd_cons (by decide) _

theorem singleComma_fits {α : Type} (as : List α) (h : Glyph.Fits rest gs)
    (hend : TypeEnd (Glyph.text gs ++ rest)) :
    Glyph.Fits rest (singleCommaGlyphs as ++ gs) ∧
      TypeEnd (Glyph.text (singleCommaGlyphs as ++ gs) ++ rest) := by
  match as with
  | [] => exact ⟨h, hend⟩
  | [_] => exact ⟨.ofMark (by decide) (by decide) h, typeEnd_cons (by decide) _⟩
  | _ :: _ :: _ => exact ⟨h, hend⟩

theorem clear_glyphsOf (as : List WrittenType) :
    ∀ gs ∈ glyphsOf as, ∀ cs, Clear "<" (Glyph.text gs ++ cs) := by
  induction as with
  | nil => nofun
  | cons a as ih => exact List.forall_mem_cons.2 ⟨a.clear_less, ih⟩

mutual

theorem WrittenType.fits : ∀ (a : WrittenType) (amp : Bool) (rest : List Char), TypeEnd rest →
    Glyph.Fits rest (a.glyphs amp)
  | .ref lifetime mutable inner, true, rest, h =>
    .ofMark (by decide) (by decide) (referenceGlyphs_fits lifetime mutable (inner.fits false rest h))
  | .ref none false inner, false, rest, h => inner.fits true rest h
  | .ref (some i) mutable inner, false, rest, h => by
    refine .token (mark_stands (by decide) ?_)
      (referenceGlyphs_fits (some i) mutable (inner.fits false rest h))
    rw [referenceGlyphs, List.append_assoc, List.cons_append, Glyph.text_token, String.toList_append]
    exact Clear.append (m := "&") (v := "'".toList) (by decide) (by decide) _
  | .ref none true inner, false, rest, h => by
    refine .token (mark_stands (by decide) ?_)
      (referenceGlyphs_fits none true (inner.fits false rest h))
    exact Clear.append (m := "&") (v := ['m']) (by decide) (by simp) _
  | .path name args tail, amp, rest, h => by
    obtain ⟨htail, hend⟩ := tail.fits rest h
    obtain ⟨hargs, hend⟩ := genericsGlyphs_fits (fits_glyphsOf args) (clear_glyphsOf args) hend htail
    refine loneAmpersand_fits amp ?_ (.word name.name.isWord hend.1 hargs)
    rw [Glyph.text_token, List.append_assoc]
    exact name.name.isWord.clear "&" _
  | .tuple elems, amp, rest, h => by
    have hclose : Glyph.Fits rest [.token (mark ")")] := .ofMark (by decide) (by decide) .nil
    obtain ⟨hcomma, hend⟩ := singleComma_fits elems hclose (typeEnd_cons (by decide) rest)
    have hall : Glyph.Fits rest (.token (mark "(") ::
        (Glyph.commas (glyphsOf elems) ++ (singleCommaGlyphs elems ++ [.token (mark ")")]))) :=
      .ofMark (by decide) (by decide) (.append
        (.commas (fits_glyphsOf elems) (typeEnd_cons (by decide)) hend) hcomma)
    exact loneAmpersand_fits amp (Clear.append (m := "&") (v := ['(']) (by decide) (by simp) _) hall

theorem WrittenTail.fits : ∀ (b : WrittenTail) (rest : List Char), TypeEnd rest →
    Glyph.Fits rest b.glyphs ∧ TypeEnd (Glyph.text b.glyphs ++ rest)
  | .done, rest, h => ⟨.nil, h⟩
  | .more name args tail, rest, h => by
    obtain ⟨htail, hend⟩ := tail.fits rest h
    obtain ⟨hargs, hend⟩ := genericsGlyphs_fits (fits_glyphsOf args) (clear_glyphsOf args) hend htail
    exact ⟨.ofMark (by decide) (by decide) (.word name.isWord hend.1 hargs), typeEnd_cons (by decide) _⟩

theorem fits_glyphsOf : ∀ as : List WrittenType, ∀ gs ∈ glyphsOf as, ∀ rest, TypeEnd rest →
    Glyph.Fits rest gs
  | [], gs, h => nomatch h
  | a :: as, gs, h => by
    rcases List.mem_cons.1 h with rfl | h
    · exact a.fits false
    · exact fits_glyphsOf as gs h

end

end BuilderMigration
