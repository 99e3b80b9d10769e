import BuilderMigration.Proofs.Token.Stands
import Mathlib.Data.List.Forall2

/-! What a text tells: the kinds and the texts of its tokens, whatever their places. Texts are put together
from texts that tell the same in front of all that may follow them there, so that two ways to lay out the
same parts tell the same. -/

namespace BuilderMigration

open Lexeme (isNameChar isNameStart breaks piece name shortMarks longMarks)

/-- The kinds and texts of some tokens, and whether a fault ends them. -/
structure Wording where
  words : List (TokenKind × String) := []
  faulty : Bool := false
  deriving DecidableEq

namespace Wording

/-- One wording behind another. Nothing is told behind a fault. -/
instance : Append Wording where
  append x y := if x.faulty then x else ⟨x.words ++ y.words, y.faulty⟩

theorem append_of_faulty {x : Wording} (h : x.faulty = true) (y : Wording) : x ++ y = x :=
  if_pos h

theorem append_of_sound {x : Wording} (h : x.faulty = false) (y : Wording) :
    x ++ y = ⟨x.words ++ y.words, y.faulty⟩ := if_neg (by simp [h])

theorem append_nil (x : Wording) : x ++ ({} : Wording) = x := by
  cases hx : x.faulty with
  | true => exact append_of_faulty hx _
  | false => rw [append_of_sound hx, List.append_nil, ← hx]

theorem append_assoc (x y z : Wording) : x ++ y ++ z = x ++ (y ++ z) := by
  cases hx : x.faulty with
  | true => rw [append_of_faulty hx, append_of_faulty hx, append_of_faulty hx]
  | false =>
    rw [append_of_sound hx, append_of_sound hx (y ++ z)]
    cases hy : y.faulty with
    | true => rw [append_of_faulty (by rfl), append_of_faulty hy, hy]
    | false => rw [append_of_sound (by rfl), append_of_sound hy, List.append_assoc]

theorem sound_of_append {x y : Wording} (h : (x ++ y).faulty = false) :
    x.faulty = false ∧ y.faulty = false := by
  cases hx : x.faulty with
  | true => rw [append_of_faulty hx, hx] at h; cases h
  | false =>
    rw [append_of_sound hx] at h
    exact ⟨rfl, h⟩

end Wording

variable {G H : List Char → Prop} {a a' b b' s s' : String} {as bs : List String} {c d : Char}
  {cs p rest v w : List Char} {x y : Wording} {lo : Int} {ts : List Token}

/-! ### Texts -/

def Scan.wording (scan : Scan) : Wording :=
  ⟨scan.tokens.map fun t => (t.kind, t.value), scan.fault.isSome⟩

/-- What a text tells. -/
def wording (cs : List Char) : Wording := (Scan.scanFrom 0 {} 0 cs).wording

/-- Where a text stands makes no difference to what it tells. -/
theorem Scan.wording_scanFrom (start start' : Int) (p p' : Place) (pending : Nat) (cs : List Char) :
    (scanFrom start p pending cs).wording = (scanFrom start' p' pending cs).wording := by
  induction cs generalizing p p' pending with
  | nil => cases pending <;> rfl
  | cons c cs ih =>
    cases pending with
    | succ pending => exact ih _ _ _
    | zero =>
      rw [scanFrom, scanFrom]
      cases piece (c :: cs) with
      | skip length => exact ih _ _ _
      | fault cause => rfl
      | token kind length =>
        have hrest := ih (p.after c) (p'.after c) (length - 1)
        simp only [wording, Wording.mk.injEq] at hrest ⊢
        rw [List.map_cons, List.map_cons, hrest.1, hrest.2]
        exact ⟨rfl, rfl⟩

theorem wording_skip (h : piece (p ++ cs) = .skip p.length) (hne : p ≠ []) :
    wording (p ++ cs) = wording cs := by
  rw [wording, Scan.scanFrom_skip h hne]
  exact Scan.wording_scanFrom ..

theorem wording_token {kind : TokenKind} (h : piece (p ++ cs) = .token kind p.length) (hne : p ≠ []) :
    wording (p ++ cs) = ⟨[(kind, Scan.tokenText kind p)], false⟩ ++ wording cs := by
  have hrest := Scan.wording_scanFrom 0 0 (p.foldl Place.after {}) {} 0 cs
  rw [wording, Scan.scanFrom_token h hne, wording, ← hrest]
  rfl

theorem wording_fault {cause : SyntaxError.Cause} (h : piece (c :: cs) = .fault cause) :
    wording (c :: cs) = ⟨[], true⟩ := by
  rw [wording, Scan.scanFrom, h]
  rfl

/-- Whole pieces tell their tokens in front of what follows them. -/
theorem Lexes.wording (h : Lexes rest lo cs ts) :
    wording (cs ++ rest) = ⟨ts.map fun t => (t.kind, t.value), false⟩ ++ wording rest := by
  induction h with
  | done => rfl
  | skip hp hne _ ih =>
    rw [List.append_assoc, wording_skip hp hne, ih]
  | token hp hne _ ih =>
    rw [List.append_assoc, wording_token hp hne, ih, ← Wording.append_assoc]
    rfl

/-- Blanks hold no token. -/
theorem Lexes.blanks (h : ∀ c ∈ p, Text.isBlank c = true) : Lexes rest lo p [] := by
  induction p generalizing lo with
  | nil => exact .done
  | cons c p ih =>
    rw [List.forall_mem_cons] at h
    have hpiece : piece ([c] ++ (p ++ rest)) = .skip [c].length := Lexeme.piece_of_blank h.1 _
    exact .skip hpiece (List.cons_ne_nil c []) (ih h.2)

/-- A text that is one token. -/
theorem Lexes.one {kind : TokenKind} (h : piece (p ++ rest) = .token kind p.length) (hne : p ≠ []) :
    Lexes rest lo p [⟨kind, Scan.tokenText kind p, lo, lo + p.length, 0, 0⟩] := by
  have hone : Lexes rest lo (p ++ []) _ := .token h hne .done
  rwa [List.append_nil] at hone

/-! ### Marks -/

namespace Lexeme

/-- A mark that begins no comment. -/
theorem piece_punct {n : Nat} (hc : c ∈ shortMarks)
    (hs : c = '/' → ∀ d ∈ cs.head?, d ≠ '/' ∧ d ≠ '*') (hp : punct (c :: cs) = some n) :
    piece (c :: cs) = .token .punct n := by
  have hmarks : ∀ c ∈ shortMarks, Text.isBlank c = false ∧ c ≠ '"' ∧ c ≠ '\'' ∧ c ≠ 'b' ∧ c ≠ 'r' ∧
      c.isDigit = false ∧ isNameStart c = false := forall_of_all (by decide)
  obtain ⟨hblank, hq, ht, hb, hr, hdigit, hname⟩ := hmarks c hc
  have hpiece : piece (c :: cs) = tokenPiece (c :: cs) := by
    unfold piece
    split <;> simp_all
  have hraw : rawStart? (c :: cs) = none := by
    unfold rawStart?
    split <;> simp_all
  have htoken : token? (c :: cs) = some (.punct, n) := by
    rw [token?_plain hq ht hb, number_eq_none hdigit, rawName_eq_none hr, name_eq_none hname, hp]
    rfl
  rw [hpiece, tokenPiece, hraw, htoken]

theorem piece_mark (hc : c ∈ shortMarks) (hs : c ≠ '/')
    (hlong : ∀ m ∈ longMarks, m.toList.isPrefixOf (c :: cs) = false) :
    piece (c :: cs) = .token .punct 1 := by
  refine piece_punct hc (fun h => absurd h hs) ?_
  rw [punct, List.find?_eq_none.2 fun m hm => by simp [hlong m hm]]
  simp [hc]

/-- A dot in front of anything but a dot stands alone. -/
theorem piece_dot (h : c ≠ '.') (cs : List Char) : piece ('.' :: c :: cs) = .token .punct 1 := by
  have hmarks : ∀ m ∈ longMarks, m.toList ≠ [] ∧
      (m.toList.head? ≠ some '.' ∨ m.toList[1]? = some '.') := by decide
  refine piece_mark (by decide) (by decide) fun m hm => ?_
  obtain ⟨hne, hm⟩ := hmarks m hm
  obtain ⟨d, w, hw⟩ := List.exists_cons_of_ne_nil hne
  rw [hw] at hm
  rw [hw, Bool.eq_false_iff, Ne, List.isPrefixOf_iff_prefix, List.cons_prefix_cons]
  rintro ⟨rfl, hbegins⟩
  rcases hm with hm | hm
  · exact hm rfl
  · cases w with
    | nil => cases hm
    | cons e w =>
      obtain rfl := Option.some.inj hm
      exact h (List.cons_prefix_cons.1 hbegins).1.symm

/-- A break is a blank or a mark that stands alone. -/
theorem piece_of_break (hd : d ∈ breaks) :
    (∀ cs, piece (d :: cs) = .skip 1) ∨ ∀ cs, piece (d :: cs) = .token .punct 1 := by
  have hbreaks : ∀ d ∈ breaks, Text.isBlank d = true ∨ d ∈ shortMarks ∧ d ≠ '/' ∧
      ∀ m ∈ longMarks, m.toList ≠ [] ∧ m.toList.head? ≠ some d := forall_of_all (by decide)
  rcases hbreaks d hd with hblank | ⟨hshort, hslash, hlong⟩
  · exact .inl fun cs => piece_of_blank hblank cs
  · refine .inr fun cs => piece_mark hshort hslash fun m hm => ?_
    obtain ⟨hne, hm⟩ := hlong m hm
    obtain ⟨e, w, hw⟩ := List.exists_cons_of_ne_nil hne
    rw [hw] at hm
    rw [hw, Bool.eq_false_iff, Ne, List.isPrefixOf_iff_prefix, List.cons_prefix_cons]
    rintro ⟨rfl, -⟩
    exact hm rfl

end Lexeme

/-! ### What may follow -/

/-- Texts that begin with a break. -/
def Broken (rest : List Char) : Prop := ∃ d ∈ rest.head?, d ∈ breaks

abbrev Anywhere : List Char → Prop := fun _ => True

-- Both look at the first character alone, and not for one among all characters.
instance : DecidablePred Broken
  | [] => isFalse fun ⟨_, h, _⟩ => nomatch h
  | c :: _ => decidable_of_iff (c ∈ breaks)
    ⟨fun h => ⟨c, rfl, h⟩, fun ⟨_, h, hd⟩ => Option.some.inj h ▸ hd⟩

instance : DecidablePred Aside
  | [] => isTrue nofun
  | c :: _ => decidable_of_iff (isNameChar c = false ∧ c ≠ '"' ∧ c ≠ '\'' ∧ c ≠ '#')
    ⟨fun h _ hd => Option.some.inj hd ▸ h, fun h => h c rfl⟩

theorem Broken.exists_cons (h : Broken rest) : ∃ d ∈ breaks, ∃ v, rest = d :: v := by
  obtain ⟨d, hd, hb⟩ := h
  obtain ⟨v, rfl⟩ := List.head?_eq_some_iff.1 hd
  exact ⟨d, hb, v, rfl⟩

theorem Broken.append (h : Broken w) : Broken (w ++ rest) := by
  obtain ⟨d, hd, v, rfl⟩ := h.exists_cons
  exact ⟨d, rfl, hd⟩

theorem Broken.aside (h : Broken rest) : Aside rest := by
  have hbreaks : ∀ d ∈ breaks, isNameChar d = false ∧ d ≠ '"' ∧ d ≠ '\'' ∧ d ≠ '#' :=
    Lexeme.forall_of_all (by decide)
  obtain ⟨d, hd, hb⟩ := h
  intro c hc
  obtain rfl : d = c := Option.some.inj (hd.symm.trans hc)
  exact hbreaks d hb

theorem Aside.append (hv : Aside v) (hr : Aside rest) : Aside (v ++ rest) := by
  cases v with
  | nil => exact hr
  | cons c v => exact hv

/-! ### Texts in front of others -/

/-- The text `s` tells `x` in front of every text that `G` admits, and is made of whole pieces there unless
it holds a fault. -/
structure Tells (G : List Char → Prop) (s : String) (x : Wording) : Prop where
  told (rest : List Char) (h : G rest) : wording (s.toList ++ rest) = x ++ wording rest
  whole (hx : x.faulty = false) : ∃ ts, ∀ rest, G rest → Lexes rest 0 s.toList ts

namespace Tells

theorem of_lexes (ts : List Token) (h : ∀ rest, G rest → Lexes rest 0 s.toList ts) :
    Tells G s ⟨ts.map fun t => (t.kind, t.value), false⟩ :=
  ⟨fun rest hr => (h rest hr).wording, fun _ => ⟨ts, h⟩⟩

/-- A text that is one token. -/
theorem one {kind : TokenKind} (hne : s.toList ≠ [])
    (h : ∀ rest, G rest → piece (s.toList ++ rest) = .token kind s.toList.length) :
    Tells G s ⟨[(kind, Scan.tokenText kind s.toList)], false⟩ :=
  of_lexes [⟨kind, Scan.tokenText kind s.toList, 0, 0 + s.toList.length, 0, 0⟩] fun rest hr =>
    .one (h rest hr) hne

/-- Nothing is whole behind a fault. -/
theorem of_faulty (hx : x.faulty = true) (h : ∀ rest, G rest → wording (s.toList ++ rest) = x) :
    Tells G s x where
  told rest hr := by rw [h rest hr, Wording.append_of_faulty hx]
  whole hsound := absurd (hsound.symm.trans hx) Bool.false_ne_true

theorem mono (h : Tells G s x) (hg : ∀ rest, H rest → G rest) : Tells H s x where
  told rest hr := h.told rest (hg rest hr)
  whole hx := (h.whole hx).imp fun _ hts rest hr => hts rest (hg rest hr)

theorem empty : Tells G "" {} := of_lexes [] fun _ _ => .done

theorem append (ha : Tells G a x) (hb : Tells H b y) (h : ∀ rest, H rest → G (b.toList ++ rest)) :
    Tells H (a ++ b) (x ++ y) where
  told rest hr := by
    rw [String.toList_append, List.append_assoc, ha.told _ (h rest hr), hb.told rest hr,
      Wording.append_assoc]
  whole hxy := by
    obtain ⟨hx, hy⟩ := Wording.sound_of_append hxy
    obtain ⟨ts, hts⟩ := ha.whole hx
    obtain ⟨us, hus⟩ := hb.whole hy
    refine ⟨ts ++ us.map (·.shift a.toList.length), fun rest hr => ?_⟩
    rw [String.toList_append]
    exact (hts _ (h rest hr)).append ((hus rest hr).shift a.toList.length)

/-- A newline in front of a text tells nothing. -/
theorem line (h : Tells G s x) : Tells G ("\n" ++ s) x := by
  have hnewline : Tells Anywhere "\n" {} := of_lexes [] fun _ _ => .blanks (Lexeme.forall_of_all (by decide))
  exact hnewline.append h fun _ _ => trivial

end Tells

/-- Two texts that tell the same in front of every text that `G` admits. -/
def TellAlike (G : List Char → Prop) (a b : String) : Prop := ∃ x, Tells G a x ∧ Tells G b x

theorem Tells.alike (h : Tells G s x) : TellAlike G s s := ⟨x, h, h⟩

namespace TellAlike

theorem mono (h : TellAlike G a b) (hg : ∀ rest, H rest → G rest) : TellAlike H a b := by
  obtain ⟨x, ha, hb⟩ := h
  exact ⟨x, ha.mono hg, hb.mono hg⟩

theorem append (ha : TellAlike G a a') (hb : TellAlike H b b')
    (h : ∀ rest, H rest → G (b.toList ++ rest)) (h' : ∀ rest, H rest → G (b'.toList ++ rest)) :
    TellAlike H (a ++ b) (a' ++ b') := by
  obtain ⟨x, hx, hx'⟩ := ha
  obtain ⟨y, hy, hy'⟩ := hb
  exact ⟨x ++ y, hx.append hy h, hx'.append hy' h'⟩

/-- Behind a text that tells the same anywhere. -/
theorem behind (ha : TellAlike Anywhere a a') (hb : TellAlike H b b') : TellAlike H (a ++ b) (a' ++ b') :=
  ha.append hb (fun _ _ => trivial) fun _ _ => trivial

/-- In front of texts that begin with a break. -/
theorem close (ha : TellAlike Broken a a') (hb : TellAlike H b b') (h : Broken b.toList)
    (h' : Broken b'.toList) : TellAlike H (a ++ b) (a' ++ b') :=
  ha.append hb (fun _ _ => h.append) fun _ _ => h'.append

/-- In front of texts that no name goes on into. -/
theorem beside (ha : TellAlike Aside a a') (hb : TellAlike H b b') (hh : ∀ rest, H rest → Aside rest)
    (h : Aside b.toList) (h' : Aside b'.toList) : TellAlike H (a ++ b) (a' ++ b') :=
  ha.append hb (fun rest hr => h.append (hh rest hr)) fun rest hr => h'.append (hh rest hr)

/-- A text in front of others, with a break in between. -/
theorem intercalate_cons (hs : TellAlike Anywhere s s') (hb : Broken s.toList) (hb' : Broken s'.toList)
    (ha : TellAlike Broken a a') (h : TellAlike G (String.intercalate s (b :: as))
      (String.intercalate s' (b' :: bs))) :
    TellAlike G (String.intercalate s (a :: b :: as)) (String.intercalate s' (a' :: b' :: bs)) := by
  rw [String.intercalate_cons_cons, String.intercalate_cons_cons, String.append_assoc,
    String.append_assoc]
  refine ha.close (hs.behind h) ?_ ?_
  · rw [String.toList_append]
    exact hb.append
  · rw [String.toList_append]
    exact hb'.append

/-- Texts with breaks between them. -/
theorem intercalate (hs : TellAlike Anywhere s s') (hb : Broken s.toList) (hb' : Broken s'.toList)
    (h : List.Forall₂ (TellAlike Broken) as bs) :
    TellAlike Broken (String.intercalate s as) (String.intercalate s' bs) := by
  induction h with
  | nil => exact Tells.empty.alike
  | cons ha h ih =>
    cases h with
    | nil => exact ha
    | cons => exact intercalate_cons hs hb hb' ha ih

/-- Texts with breaks between them, and a last one behind them. -/
theorem intercalate_concat (hs : TellAlike Anywhere s s') (hb : Broken s.toList) (hb' : Broken s'.toList)
    (h : List.Forall₂ (TellAlike Broken) as bs) (hlast : TellAlike G a b) :
    TellAlike G (String.intercalate s (as ++ [a])) (String.intercalate s' (bs ++ [b])) := by
  induction h with
  | nil => exact hlast
  | cons ha h ih =>
    cases h with
    | nil => exact intercalate_cons hs hb hb' ha ih
    | cons => exact intercalate_cons hs hb hb' ha ih

end TellAlike

/-! ### Fixed texts -/

/-- Whether a text ends in a break, behind a token or behind blanks. -/
def endsInBreak (s : String) : Bool :=
  match s.toList.getLast? with
  | none => true
  | some c => breaks.contains c &&
      let front := s.toList.dropLast
      (front.all Text.isBlank || (tokensBefore [c] 0 0 front).any fun ts => ts.any (·.hi = front.length))

/-- A text that ends in a token tells the same in front of every break. -/
theorem Lexes.tells_broken (h : Lexes rest lo cs ts) (hend : ∃ t ∈ ts, t.hi = lo + cs.length) :
    ∃ x, Tells Broken (String.ofList cs) x := by
  obtain ⟨us, -, hus⟩ := h.before_breaks hend
  have hstart (rest : List Char) (hr : Broken rest) :
      Lexes rest 0 (String.ofList cs).toList (us.map (Token.shift (-lo))) := by
    obtain ⟨d, hd, v, rfl⟩ := hr.exists_cons
    have hshift := (hus d hd v).shift (-lo)
    rwa [Int.add_right_neg, ← String.toList_ofList (l := cs)] at hshift
  exact ⟨_, .of_lexes _ hstart⟩

theorem tells_break (hd : d ∈ breaks) : ∃ x, Tells Anywhere (String.ofList [d]) x := by
  rcases Lexeme.piece_of_break hd with hskip | hmark
  · refine ⟨_, .of_lexes [] fun rest _ => ?_⟩
    have hpiece : piece ([d] ++ ([] ++ rest)) = .skip [d].length := hskip rest
    rw [String.toList_ofList]
    exact .skip hpiece (List.cons_ne_nil d []) .done
  · have hpiece (rest : List Char) :
        piece ((String.ofList [d]).toList ++ rest) = .token .punct (String.ofList [d]).toList.length := by
      rw [String.toList_ofList]
      exact hmark rest
    exact ⟨_, .one (by simp) fun rest _ => hpiece rest⟩

/-- A text that ends in a break tells the same anywhere. -/
theorem tells_of_endsInBreak (h : endsInBreak s = true) : ∃ x, Tells Anywhere s x := by
  unfold endsInBreak at h
  cases hs : s.toList.getLast? with
  | none =>
    have hnil : s = "" := by simpa using hs
    exact ⟨{}, hnil ▸ Tells.empty⟩
  | some d =>
    rw [hs] at h
    obtain ⟨p, hp⟩ := List.getLast?_eq_some_iff.1 hs
    have hdrop : s.toList.dropLast = p := by rw [hp, List.dropLast_concat]
    rw [hdrop, Bool.and_eq_true, Bool.or_eq_true, List.contains_iff_mem] at h
    obtain ⟨hd, hfront⟩ := h
    obtain ⟨x, hx⟩ : ∃ x, Tells Broken (String.ofList p) x := by
      rcases hfront with hblanks | hany
      · refine ⟨_, .of_lexes [] fun rest _ => ?_⟩
        rw [String.toList_ofList]
        exact .blanks (List.all_eq_true.1 hblanks)
      · obtain ⟨ts, hts, hend⟩ := (Option.any_eq_true ..).1 hany
        obtain ⟨t, ht, hhi⟩ := List.any_eq_true.1 hend
        exact (tokensBefore_iff.1 hts).tells_broken ⟨t, ht, by simpa using hhi⟩
    obtain ⟨y, hy⟩ := tells_break hd
    have hsplit : s = String.ofList p ++ String.ofList [d] := by
      rw [← String.toList_inj, hp, String.toList_append, String.toList_ofList, String.toList_ofList]
    rw [hsplit]
    exact ⟨x ++ y, hx.append hy fun rest _ => by rw [String.toList_ofList]; exact ⟨d, rfl, hd⟩⟩

theorem TellAlike.self (h : endsInBreak s = true) : TellAlike Anywhere s s :=
  (tells_of_endsInBreak h).elim fun _ hx => hx.alike

/-- Two texts that end in breaks tell the same anywhere if they do so alone. -/
theorem tellAlike_of_endsInBreak
    (h : endsInBreak a = true ∧ endsInBreak b = true ∧ wording a.toList = wording b.toList) :
    TellAlike Anywhere a b := by
  obtain ⟨x, hx⟩ := tells_of_endsInBreak h.1
  obtain ⟨y, hy⟩ := tells_of_endsInBreak h.2.1
  have hxa := hx.told [] trivial
  have hyb := hy.told [] trivial
  have hnil : wording [] = {} := rfl
  rw [List.append_nil, hnil, Wording.append_nil] at hxa hyb
  rw [hxa, hyb] at h
  exact ⟨x, hx, h.2.2 ▸ hy⟩

/-! ### Names -/

/-- A text that tells the same in front of whatever no name goes on into, and that a dot may stand in
front of. -/
structure Legible (s : String) : Prop where
  tells : ∃ x, Tells Aside s x
  not_dot : ∃ c ∈ s.toList.head?, c ≠ '.'

theorem IsWord.exists_head (h : IsWord s) : ∃ c cs, s.toList = c :: cs ∧ isNameStart c = true := by
  unfold IsWord at h
  cases hs : s.toList with
  | nil =>
    rw [hs] at h
    cases h
  | cons c cs =>
    rw [hs] at h
    simp only [name, Option.ite_none_right_eq_some] at h
    exact ⟨c, cs, rfl, h.1⟩

theorem IsWord.isNameChar (h : IsWord s) : ∀ c ∈ s.toList, isNameChar c = true := by
  obtain ⟨c, cs, hs, hc⟩ := h.exists_head
  rw [IsWord, ← String.length_toList, hs, name, if_pos hc, Option.some.injEq, List.length_cons,
    Lexeme.run] at h
  have hsame : cs.takeWhile Lexeme.isNameChar = cs :=
    (List.takeWhile_prefix _).eq_of_length (by omega)
  have hall : (cs.takeWhile Lexeme.isNameChar).all Lexeme.isNameChar = true := List.all_takeWhile
  have hchar : Lexeme.isNameChar c = true := by
    simp only [isNameStart, Lexeme.isNameChar, Char.isAlphanum, Bool.or_eq_true] at hc ⊢
    exact hc.imp_left .inl
  rw [hs, List.forall_mem_cons]
  exact ⟨hchar, List.all_eq_true.1 (hsame ▸ hall)⟩

/-- A name is one token in front of whatever does not go on from it. -/
theorem IsWord.legible (h : IsWord s) : Legible s := by
  obtain ⟨c, cs, hs, hc⟩ := h.exists_head
  have hpiece (rest : List Char) (hr : Aside rest) :
      piece (s.toList ++ rest) = .token .ident s.toList.length :=
    Lexeme.piece_word (by rw [String.length_toList]; exact h) hr
  refine ⟨⟨_, .one (by simp [hs]) hpiece⟩, c, by simp [hs], ?_⟩
  rintro rfl
  cases hc

/-- A dot and a name. -/
theorem Legible.dot (h : Legible s) : ∃ x, Tells Aside ("." ++ s) x := by
  obtain ⟨⟨x, hx⟩, c, hc, hdot⟩ := h
  obtain ⟨cs, hs⟩ := List.head?_eq_some_iff.1 hc
  have hmark : Tells (fun rest => ∃ c cs, rest = c :: cs ∧ c ≠ '.') "." ⟨[(.punct, ".")], false⟩ := by
    refine .one (List.cons_ne_nil '.' []) fun rest hr => ?_
    obtain ⟨c, cs, rfl, hc⟩ := hr
    exact Lexeme.piece_dot hc cs
  refine ⟨_, hmark.append hx fun rest _ => ⟨c, cs ++ rest, ?_, hdot⟩⟩
  rw [hs, List.cons_append]

end BuilderMigration
