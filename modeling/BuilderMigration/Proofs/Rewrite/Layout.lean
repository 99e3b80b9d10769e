import BuilderMigration.Proofs.Idiom.Parts
import BuilderMigration.Proofs.Token.Whole

/-! Two layouts of replacement text. Whether setters and items go on lines of their own makes no
difference to what the text tells: a newline stands only where the other layout has nothing or a blank,
in front of a dot, an item or a bracket, and never behind anything that could go on into it. -/

namespace BuilderMigration

variable {a b s t : String} {as bs : List String}

/-- The same workshop in a layout. -/
abbrev Workshop.laidOut (w : Workshop) (multiline : Bool) : Workshop :=
  { w with settings := { w.settings with multiline } }

/-! ### Setters -/

/-- Setters that tell the same, and that may stand behind a name. -/
structure SettersAlike (a b : String) : Prop where
  alike : TellAlike Anywhere a b
  left : Attached a
  right : Attached b

namespace SettersAlike

theorem append (h : SettersAlike a b) (hs : SettersAlike s t) : SettersAlike (a ++ s) (b ++ t) :=
  ⟨h.alike.behind hs.alike, h.left.append hs.left, h.right.append hs.right⟩

theorem join (h : List.Forall₂ SettersAlike as bs) :
    SettersAlike (String.join as) (String.join bs) := by
  induction h with
  | nil => exact ⟨Tells.empty.alike, ⟨nofun, nofun⟩, ⟨nofun, nofun⟩⟩
  | cons hab _ ih =>
    rw [String.join_cons, String.join_cons]
    exact hab.append ih

/-- Lines of their own, on either side. -/
theorem lines (m m' : Bool) (h : List.Forall₂ SettersAlike as bs) :
    List.Forall₂ SettersAlike (if m then as.map ("\n" ++ ·) else as)
      (if m' then bs.map ("\n" ++ ·) else bs) := by
  have hline {a : String} (h : Attached a) : Attached ("\n" ++ a) := .append ⟨by decide, by decide⟩ h
  have hleft {a b : String} (h : SettersAlike a b) : SettersAlike ("\n" ++ a) b := by
    obtain ⟨⟨x, ha, hb⟩, hl, hr⟩ := h
    exact ⟨⟨x, ha.line, hb⟩, hline hl, hr⟩
  have hright {a b : String} (h : SettersAlike a b) : SettersAlike a ("\n" ++ b) := by
    obtain ⟨⟨x, ha, hb⟩, hl, hr⟩ := h
    exact ⟨⟨x, ha, hb.line⟩, hl, hline hr⟩
  cases m <;> cases m'
  · exact h
  · exact List.forall₂_map_right_iff.2 (h.imp fun _ _ => hright)
  · exact List.forall₂_map_left_iff.2 (h.imp fun _ _ => hleft)
  · exact List.forall₂_map_left_iff.2 (List.forall₂_map_right_iff.2
      (h.imp fun _ _ h => hleft (hright h)))

end SettersAlike

/-! ### Values -/

/-- Values that tell the same, each wherever no name at its end goes on. -/
def ValuesAlike (a b : String) : Prop := ∃ x, Whole a x ∧ Whole b x

namespace ValuesAlike

theorem of_ended (h : TellAlike Anywhere a b) (ha : Ended a) (hb : Ended b) : ValuesAlike a b := by
  obtain ⟨x, hx, hy⟩ := h
  exact ⟨x, .of_ended hx ha, .of_ended hy hb⟩

/-- In front of a break they tell the same. -/
theorem broken (h : ValuesAlike a b) : TellAlike Broken a b := by
  obtain ⟨x, ha, hb⟩ := h
  have hfree (s : String) (rest : List Char) (hr : Broken rest) : Unjoined s rest :=
    fun _ _ _ d hd => (hr.aside d hd).1
  exact ⟨x, ha.tells.mono (hfree a), hb.tells.mono (hfree b)⟩

/-- Setters behind a value. -/
theorem set (h : ValuesAlike a b) (hs : SettersAlike s t) : ValuesAlike (a ++ s) (b ++ t) := by
  obtain ⟨x, ha, hb⟩ := h
  obtain ⟨⟨y, hsy, hty⟩, hl, hr⟩ := hs
  exact ⟨x ++ y, ha.attach hsy hl, hb.attach hty hr⟩

end ValuesAlike

/-! ### Texts in both layouts -/

/-- A name in front of a text that it does not go on into. -/
theorem Legible.named {name : String} (hn : Legible name) (h : TellAlike Anywhere s s)
    (hs : Aside s.toList ∧ s.toList ≠ []) : TellAlike Anywhere (name ++ s) (name ++ s) := by
  obtain ⟨x, hx⟩ := hn.tells
  have haside (rest : List Char) : Aside (s.toList ++ rest) := by
    intro c hc
    rw [List.head?_append_of_ne_nil _ hs.2] at hc
    exact hs.1 c hc
  exact hx.alike.append h (fun rest _ => haside rest) fun rest _ => haside rest

namespace TellAlike

theorem aside (h : TellAlike Aside a b) : TellAlike Broken a b := h.mono fun _ => Broken.aside

/-- In front of a fixed text that begins and ends with a break. -/
theorem ended {closing : String} (h : TellAlike Broken a b)
    (hc : endsInBreak closing = true ∧ Broken closing.toList) :
    TellAlike Anywhere (a ++ closing) (b ++ closing) :=
  h.close (.self hc.1) hc.2 hc.2

/-- A list with a comma of either kind. -/
theorem list (m m' : Bool) (h : List.Forall₂ (TellAlike Broken) as bs) :
    TellAlike Broken (String.intercalate (if m then ",\n" else ", ") as)
      (String.intercalate (if m' then ",\n" else ", ") bs) := by
  have hcomma (m : Bool) : Broken (if m then ",\n" else ", ").toList := by cases m <;> decide
  refine intercalate (tellAlike_of_endsInBreak ?_) (hcomma m) (hcomma m') h
  cases m <;> cases m' <;> decide +kernel

/-- A closing parenthesis of either kind. -/
theorem closed (m m' : Bool) (h : TellAlike Broken a b) :
    TellAlike Anywhere (a ++ if m then "\n)" else ")") (b ++ if m' then "\n)" else ")") := by
  have hclose (m : Bool) : Broken (if m then "\n)" else ")").toList := by cases m <;> decide
  refine h.close (tellAlike_of_endsInBreak ?_) (hclose m) (hclose m')
  cases m <;> cases m' <;> decide +kernel

/-- A call behind its dot. -/
theorem setter {field : String} (hf : Legible field) (h : TellAlike Broken a b) :
    SettersAlike ("." ++ field ++ "(" ++ a ++ ")") ("." ++ field ++ "(" ++ b ++ ")") := by
  obtain ⟨x, hx⟩ := hf.dot
  have hopen : TellAlike Anywhere ("." ++ field ++ "(") ("." ++ field ++ "(") :=
    hx.alike.aside.ended (by decide)
  have hends (r : String) : Attached ("." ++ field ++ "(" ++ r ++ ")") := by
    refine ⟨?_, .behind _ (by decide)⟩
    simp only [Aside, String.toList_append]
    exact fun c hc => Option.some.inj hc ▸ by decide
  exact ⟨(hopen.behind h).closed false false, hends a, hends b⟩

/-- Setters behind a name. -/
theorem set (h : TellAlike Aside a b) (hs : SettersAlike s t) : TellAlike Aside (a ++ s) (b ++ t) :=
  h.beside (hs.alike.mono fun _ _ => trivial) (fun _ hr => hr) hs.left.aside hs.right.aside

theorem construct {builder : String} (hb : Legible builder) (h : List.Forall₂ (TellAlike Broken) as bs) :
    TellAlike Anywhere (Workshop.construct builder as) (Workshop.construct builder bs) :=
  ((hb.named (.self (by decide)) (by decide)).behind (list false false h)).closed false false

theorem chain {receiver : String} (hr : Legible receiver) (h : List.Forall₂ SettersAlike as bs) :
    TellAlike Anywhere (receiver ++ " = " ++ receiver ++ String.join as ++ ";")
      (receiver ++ " = " ++ receiver ++ String.join bs ++ ";") := by
  obtain ⟨x, hx⟩ := hr.tells
  have hassign : TellAlike Anywhere (receiver ++ " = ") (receiver ++ " = ") :=
    hr.named (.self (by decide)) (by decide)
  have hvalue := (hassign.behind hx.alike).set (.join h)
  exact hvalue.aside.ended (by decide)

theorem block {binding : String} (hn : Legible binding) (h : TellAlike Broken a b)
    (hl : List.Forall₂ (TellAlike Broken) as bs) (hs : SettersAlike s t) :
    TellAlike Anywhere
      (String.intercalate "\n"
        (["\x7b", "let mut " ++ binding ++ " = " ++ a ++ ";"] ++ as ++ [binding ++ s, "\x7d"]))
      (String.intercalate "\n"
        (["\x7b", "let mut " ++ binding ++ " = " ++ b ++ ";"] ++ bs ++ [binding ++ t, "\x7d"])) := by
  obtain ⟨x, hx⟩ := hn.tells
  have hopen : TellAlike Broken "\x7b" "\x7b" := (TellAlike.self (by decide)).mono fun _ _ => trivial
  have hlet : TellAlike Broken ("let mut " ++ binding ++ " = " ++ a ++ ";")
      ("let mut " ++ binding ++ " = " ++ b ++ ";") := by
    have hname := (TellAlike.self (s := "let mut ") (by decide)).behind
      (hn.named (s := " = ") (.self (by decide)) (by decide))
    rw [← String.append_assoc] at hname
    exact ((hname.behind h).ended (by decide)).mono fun _ _ => trivial
  have hfinal : TellAlike Broken (binding ++ s) (binding ++ t) := (hx.alike.set hs).aside
  have hlines : List.Forall₂ (TellAlike Broken)
      (["\x7b", "let mut " ++ binding ++ " = " ++ a ++ ";"] ++ as ++ [binding ++ s])
      (["\x7b", "let mut " ++ binding ++ " = " ++ b ++ ";"] ++ bs ++ [binding ++ t]) :=
    List.rel_append (List.rel_append (.cons hopen (.cons hlet .nil)) hl) (.cons hfinal .nil)
  have hblock := intercalate_concat (.self (s := "\n") (by decide)) (by decide) (by decide) hlines
    (.self (s := "\x7d") (by decide))
  simpa only [List.append_assoc, List.singleton_append] using hblock

/-- Between a fixed text and one that begins with a break. -/
theorem wrap {opening closing : String} (ho : endsInBreak opening = true)
    (hc : endsInBreak closing = true ∧ Broken closing.toList) (h : TellAlike Broken a b) :
    TellAlike Anywhere (opening ++ a ++ closing) (opening ++ b ++ closing) :=
  ((TellAlike.self ho).behind h).ended hc

end TellAlike

/-! ### The two workshops -/

/-- Two colons are one mark whatever follows them. -/
theorem tells_pathSep : Tells Anywhere "::" ⟨[(.punct, "::")], false⟩ := by
  refine .one (List.cons_ne_nil ':' [':']) fun rest _ => ?_
  have hpunct : Lexeme.punct (':' :: ':' :: rest) = some 2 := rfl
  have hpiece : Lexeme.piece ([':', ':'] ++ rest) = .token .punct 2 := by
    rw [List.cons_append, Lexeme.piece_of_token (by decide) (by decide), Lexeme.tokenPiece,
      Lexeme.token?_plain (by decide) (by decide) (by decide), Lexeme.number_eq_none (by decide),
      Lexeme.rawName_eq_none (by decide), Lexeme.name_eq_none (by decide), List.singleton_append,
      hpunct]
    rfl
  exact hpiece

/-- The name of a variant alone. -/
theorem valuesAlike_variant {v : ResponseVariant} (hv : v ∈ ResponseVariant.all) :
    ValuesAlike ("CreateInteractionResponse::" ++ v.name) ("CreateInteractionResponse::" ++ v.name) := by
  have hnames : ∀ v ∈ ResponseVariant.all, IsWord v.name ∧ v.name ≠ "" ∧
      v.name.toList.head? ≠ some 'b' ∧ v.name.toList.head? ≠ some 'r' := by decide
  have henum : IsWord "CreateInteractionResponse" := by decide
  obtain ⟨hword, hne, hb, hr⟩ := hnames v hv
  obtain ⟨x, hx⟩ := hword.whole hb hr
  obtain ⟨y, hy, -⟩ := henum.legible.named tells_pathSep.alike (by decide)
  exact ⟨y ++ x, .behind hy hx hne, .behind hy hx hne⟩

/-- The layout does not bear on what is required. -/
theorem Workshop.required_laidOut (w : Workshop) (multiline : Bool) :
    w.settings.required = (w.laidOut multiline).settings.required := rfl

/-- What is written in either layout tells the same. -/
def Workshop.layouts (w : Workshop) (multiline : Bool) : Parallel w (w.laidOut multiline) where
  Name := Legible
  Arg := TellAlike Broken
  Setters := SettersAlike
  Value := ValuesAlike
  required := w.required_laidOut multiline
  name builder hb := by
    have hwords : ∀ builder ∈ writtenBuilders, IsWord builder := by decide
    exact (hwords builder hb).legible
  value h := h.broken
  list h := TellAlike.list false false h
  setter hf h := TellAlike.setter hf h
  setters h := .join (SettersAlike.lines _ _ h)
  chain hr h := .of_ended (.chain hr h) (.behind _ (by decide)) (.behind _ (by decide))
  construct hb h := .of_ended (.construct hb h) (.behind _ (by decide)) (.behind _ (by decide))
  set h hs := h.set hs
  block hn h hl hs := by
    have hlast (lines : List String) (last : String) :
        Ended (String.intercalate "\n" (lines ++ [last, "\x7d"])) := by
      rw [List.append_cons]
      exact .intercalate_concat _ _ (by decide)
    exact .of_ended (.block hn h.broken hl hs) (hlast _ _) (hlast _ _)
  vector h := by
    have hopen : TellAlike Anywhere "vec![" "vec![" := .self (by decide)
    exact .of_ended ((hopen.behind (.list _ _ h)).ended (by decide)) (.behind _ (by decide))
      (.behind _ (by decide))
  wrap ho h := by
    have hopenings : ∀ opening ∈ componentOpenings, endsInBreak opening = true := by decide +kernel
    exact .of_ended (h.wrap (hopenings _ ho) (by decide)) (.behind _ (by decide)) (.behind _ (by decide))
  menuKind h := (h.wrap (by decide) (by decide)).mono fun _ _ => trivial
  variant hv := valuesAlike_variant hv
  response hv h hs := by
    have hopenings : ∀ v ∈ ResponseVariant.all,
        endsInBreak ("CreateInteractionResponse::" ++ v.name ++ "(") = true := by decide +kernel
    have hclosing (m : Bool) : Ended (if m then "\n)" else ")") ∧ (if m then "\n)" else ")") ≠ "" := by
      cases m <;> decide
    have hpayload := (TellAlike.self (hopenings _ hv)).behind (h.set hs).broken
    rw [← String.append_assoc, ← String.append_assoc] at hpayload
    exact .of_ended (hpayload.closed _ _) (.behind _ (hclosing _)) (.behind _ (hclosing _))

end BuilderMigration
