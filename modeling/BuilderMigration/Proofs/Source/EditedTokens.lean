import BuilderMigration.Proofs.Source.Edit
import BuilderMigration.Proofs.Token.Stands

/-! The tokens of an edited text. Where the edits replace whole tokens by texts that are tokens of their
own, the tokens of the new text are the old ones with those in the ranges replaced, just if the text
between the ranges is read in front of the replacements as it was before, and no replacement that ends
in a name runs into the text behind it. -/

namespace BuilderMigration

open Lexeme (isNameChar)

variable {pos k lo : Int} {cs out gap rest : List Char} {e : Edit} {es : List Edit}
  {ts us vs : List Token} {t : Token}

namespace Edit

/-- The tokens of a text and its edits: in place of those in a range stand the ones of the replacement.
All are moved, by `k` those in front of the first edit. -/
def tokensAfter : Int → List Edit → List Token → List Token
  | k, [], ts => ts.map (·.shift k)
  | k, e :: es, ts =>
    (ts.takeWhile (·.lo < e.start)).map (·.shift k)
      ++ (tokenize e.replacement (e.start + k)).tokens
      ++ tokensAfter (k + e.replacement.length - (e.stop - e.start)) es
        (ts.dropWhile (·.lo < e.stop))

/-- Edits of the text `cs` from `pos` on that gives `out`: what is in front of an edit is read there as
it was before, and a replacement that ends in a name or a number does not run into another. -/
def SetOff : Int → List Edit → List Char → List Char → Prop
  | _, [], _, _ => True
  | pos, e :: es, cs, out =>
    let before := (e.start - pos).toNat
    let behind := out.drop (before + e.replacement.length)
    tokensBefore (out.drop before) 0 0 (cs.take before) =
        tokensBefore (cs.drop before) 0 0 (cs.take before) ∧
      (∀ c ∈ e.replacement.toList.getLast?, isNameChar c → ∀ d ∈ behind.head?, isNameChar d = false) ∧
      SetOff e.stop es (cs.drop (e.stop - pos).toNat) behind

-- It looks at the two characters alone, and not for one among all characters.
instance (text : String) (behind : List Char) : Decidable
    (∀ c ∈ text.toList.getLast?, isNameChar c → ∀ d ∈ behind.head?, isNameChar d = false) :=
  have : Decidable (∀ d ∈ behind.head?, isNameChar d = false) :=
    Option.decidableForallMem behind.head?
  Option.decidableForallMem text.toList.getLast?

/-- Whether edits are set off can be computed. -/
def decSetOff : ∀ (pos : Int) (es : List Edit) (cs out : List Char), Decidable (SetOff pos es cs out)
  | _, [], _, _ => .isTrue trivial
  | pos, e :: es, cs, out =>
    have := decSetOff e.stop es (cs.drop (e.stop - pos).toNat)
      (out.drop ((e.start - pos).toNat + e.replacement.length))
    inferInstanceAs (Decidable (_ ∧ _ ∧ SetOff e.stop es _ _))

instance : Decidable (SetOff pos es cs out) :=
  decSetOff pos es cs out

end Edit

namespace Lexes

/-- A token does not begin with a blank. -/
theorem not_isBlank {c : Char} (h : Lexes rest lo (c :: cs) ts) (ht : t ∈ ts) (hlo : t.lo = lo) :
    Text.isBlank c = false := by
  generalize hx : c :: cs = x at h
  cases h with
  | done => cases ht
  | skip hp hne h =>
    have := (h.ordered.2 t ht).1
    have := List.length_pos_iff.2 hne
    omega
  | @token _ kind p _ _ hp hne h =>
    cases p with
    | nil => exact absurd rfl hne
    | cons c' p =>
      obtain ⟨rfl, -⟩ := List.cons.inj hx
      cases hb : Text.isBlank c with
      | false => rfl
      | true =>
        rw [List.cons_append, Lexeme.piece_of_blank hb] at hp
        cases hp

/-- Where a token begins, the text goes on, but not on another line. -/
theorem exists_head (h : Lexes rest lo cs ts) (ht : t ∈ ts) (hlo : t.lo = lo) :
    ∃ c x, cs = c :: x ∧ c ≠ '\n' := by
  cases cs with
  | nil =>
    have := h.ordered.2 t ht
    rw [List.length_nil] at this
    omega
  | cons c x =>
    refine ⟨c, x, rfl, ?_⟩
    rintro rfl
    exact absurd (h.not_isBlank ht hlo) (by decide)

theorem map_bare (h : Lexes rest lo cs ts) : ts.map Token.bare = ts := by
  induction h with
  | done => rfl
  | skip _ _ _ ih => exact ih
  | token _ _ _ ih => rw [List.map_cons, ih]; rfl

end Lexes

/-! ### Cutting tokens at a position -/

theorem takeWhile_lo (hus : ∀ t ∈ us, t.lo < pos) (hvs : ∀ t ∈ vs, pos ≤ t.lo) :
    (us ++ vs).takeWhile (·.lo < pos) = us ∧ (us ++ vs).dropWhile (·.lo < pos) = vs := by
  rw [List.takeWhile_append_of_pos (by simpa using hus), List.dropWhile_append_of_pos (by simpa using hus)]
  cases vs with
  | nil => simp
  | cons t vs => simp [Int.not_lt.2 (hvs t List.mem_cons_self)]

/-- Where a token begins or ends the text is cut, and its tokens at that position. -/
theorem Lexes.cut (h : Lexes [] lo (gap ++ rest) ts) (hpos : pos = lo + gap.length) (ht : t ∈ ts)
    (hcut : t.lo = pos ∨ t.hi = pos) :
    Lexes rest lo gap (ts.takeWhile (·.lo < pos)) ∧ Lexes [] pos rest (ts.dropWhile (·.lo < pos)) := by
  subst hpos
  obtain ⟨us, vs, rfl, hus, hvs⟩ := h.split rfl ht hcut
  have hfront := hus.ordered.2
  have hback := hvs.ordered.2
  obtain ⟨htake, hdrop⟩ := takeWhile_lo (fun t ht => by have := hfront t ht; omega)
    fun t ht => (hback t ht).1
  rw [htake, hdrop]
  exact ⟨by simpa using hus, hvs⟩

theorem mem_dropWhile_lo (ht : t ∈ ts) (h : t ∉ ts.takeWhile (·.lo < pos)) :
    t ∈ ts.dropWhile (·.lo < pos) := by
  rw [← List.takeWhile_append_dropWhile (p := (·.lo < pos)) (l := ts), List.mem_append] at ht
  exact ht.resolve_left h

theorem Edit.tokensAfter_bare (k : Int) (es : List Edit) (ts : List Token) :
    (tokensAfter k es (ts.map Token.bare)).map Token.bare = (tokensAfter k es ts).map Token.bare := by
  induction es generalizing k ts with
  | nil => simp only [tokensAfter, List.map_map]; rfl
  | cons e es ih =>
    simp only [tokensAfter, List.map_append, List.takeWhile_map, List.dropWhile_map, ih,
      List.map_map]
    rfl

/-! ### Texts one behind the other -/

theorem Spliced.le_start (h : Spliced pos cs es out) : ∀ e ∈ es, pos ≤ e.start := by
  induction h with
  | done => exact nofun
  | edit hstart hstop _ ih =>
    intro e he
    rcases List.mem_cons.1 he with rfl | he
    · omega
    · have := ih e he
      omega

theorem Sealed.tokens {text : String} (h : Sealed text) (lo : Int) :
    ∃ ts, (tokenize text lo).tokens.map Token.bare = ts.map (·.shift lo) ∧
      ∀ rest, Lexes rest 0 text.toList ts ↔
        ∀ c ∈ text.toList.getLast?, isNameChar c → ∀ d ∈ rest.head?, isNameChar d = false := by
  obtain ⟨ts, hts⟩ := h
  have halone := ((hts []).2 fun _ _ _ => nofun).shift lo
  rw [Int.zero_add] at halone
  obtain ⟨us, hus, hbare⟩ := tokensOf_of_lexes halone
  refine ⟨ts, ?_, hts⟩
  rw [← hbare]
  unfold tokensOf at hus
  dsimp only at hus
  split at hus
  · rw [Except.ok.inj hus]
  · cases hus

/-- One replacement behind a gap: the tokens of both are found in place, with others behind them, just
if the gap is read in front of the new text as before and the replacement ends where it should. -/
theorem lexes_replaced_iff {c : Char} {text : String} {after : List Char} {ws : List Token} {start : Int}
    (hgap : Lexes (c :: rest) pos gap us) (hstart : start = pos + gap.length) (hc : c ≠ '\n')
    (htext : Sealed text) (k : Int) :
    Lexes [] (pos + k) (gap ++ text.toList ++ after)
        (us.map (·.shift k) ++ (tokenize text (start + k)).tokens.map Token.bare ++ ws) ↔
      tokensBefore (text.toList ++ after) 0 0 gap = tokensBefore (c :: rest) 0 0 gap ∧
        (∀ c ∈ text.toList.getLast?, isNameChar c → ∀ d ∈ after.head?, isNameChar d = false) ∧
        Lexes [] (pos + k + gap.length + text.length) after ws := by
  obtain ⟨rs, hrs, hseal⟩ := htext.tokens (start + k)
  have hmoved : start + k = pos + k + gap.length := by omega
  have hzero : Lexes (c :: rest) 0 gap (us.map (·.shift (-pos))) := by
    have := hgap.shift (-pos)
    rwa [Int.add_right_neg] at this
  have hsame : tokensBefore (text.toList ++ after) 0 0 gap = tokensBefore (c :: rest) 0 0 gap ↔
      Lexes (text.toList ++ after) (pos + k) gap (us.map (·.shift k)) := by
    rw [tokensBefore_iff.2 hzero, tokensBefore_iff, ← Lexes.shift_iff (k := pos + k), Int.zero_add]
    have hback : Token.shift (pos + k) ∘ Token.shift (-pos) = Token.shift k := by
      funext t
      simp only [Function.comp_apply, Token.shift, Token.mk.injEq, true_and, and_true]
      omega
    rw [List.map_map, hback]
  rw [hrs, hsame, ← hseal, ← String.length_toList, hmoved]
  constructor
  · intro h
    rw [List.append_assoc, List.append_assoc] at h
    obtain ⟨h₁, h⟩ := (hgap.shift k).agree hc h
    have hparen : ∀ d ∈ [')'].head?, isNameChar d = false := by
      rintro d hd
      obtain rfl := Option.some.inj hd
      decide
    have halone := ((hseal [')']).2 fun _ _ _ => hparen).shift (pos + k + gap.length)
    rw [Int.zero_add] at halone
    obtain ⟨h₂, h₃⟩ := halone.agree (by decide) h
    rw [List.append_nil] at h₁ h₂
    refine ⟨h₁, ?_, h₃⟩
    rwa [← Lexes.shift_iff (k := pos + k + gap.length), Int.zero_add]
  · rintro ⟨h₁, h₂, h₃⟩
    have h₂ := h₂.shift (pos + k + gap.length)
    rw [Int.zero_add] at h₂
    have h₂₃ : Lexes [] _ (text.toList ++ after) _ := .append (by simpa using h₂) h₃
    have h₁₂₃ : Lexes [] _ (gap ++ (text.toList ++ after)) _ := .append (by simpa using h₁) h₂₃
    simpa using h₁₂₃

/-- The tokens of an edited text are those that its edits make just if all edits are set off. -/
theorem lexes_tokensAfter_iff (h : Spliced pos cs es out) (hcs : Lexes [] pos cs ts)
    (hcuts : ∀ e ∈ es, e.start < e.stop ∧ (∃ t ∈ ts, t.lo = e.start) ∧ ∃ t ∈ ts, t.hi = e.stop)
    (hsealed : ∀ e ∈ es, Sealed e.replacement) (k : Int) :
    Lexes [] (pos + k) out ((Edit.tokensAfter k es ts).map Token.bare) ↔ Edit.SetOff pos es cs out := by
  induction h generalizing ts k with
  | done pos gap =>
    have hbare := (hcs.shift k).map_bare
    simp only [Edit.tokensAfter, Edit.SetOff, iff_true, hbare]
    exact hcs.shift k
  | @edit pos gap range before after e es hstart hstop hrest ih =>
    obtain ⟨hlt, ⟨t, ht, hlo⟩, u, hu, hhi⟩ := hcuts e List.mem_cons_self
    have hcs' := hcs
    rw [List.append_assoc] at hcs'
    obtain ⟨hgap, hmore⟩ := hcs'.cut hstart ht (.inl hlo)
    have hend : e.stop = pos + (gap ++ range).length := by
      rw [List.length_append]
      omega
    obtain ⟨hfront, hbehind⟩ := hcs.cut hend hu (.inr hhi)
    have hfirst : t ∈ ts.dropWhile (·.lo < e.start) := mem_dropWhile_lo ht fun h => by
      have := hgap.ordered.2 t h
      omega
    obtain ⟨c, x, hx, hc⟩ := hmore.exists_head hfirst hlo
    have hin (t : Token) (ht : t ∈ ts) (hlt : e.stop < t.hi) : t ∈ ts.dropWhile (·.lo < e.stop) :=
      mem_dropWhile_lo ht fun h => by
        have := hfront.ordered.2 t h
        omega
    have hbefore : (e.start - pos).toNat = gap.length := by omega
    have hrange : (e.stop - pos).toNat = (gap ++ range).length := by omega
    have hnext : pos + k + gap.length + e.replacement.length =
        e.stop + (k + e.replacement.length - (e.stop - e.start)) := by omega
    have hrest : ∀ e' ∈ es, e'.start < e'.stop ∧ (∃ t ∈ ts.dropWhile (·.lo < e.stop), t.lo = e'.start) ∧
        ∃ t ∈ ts.dropWhile (·.lo < e.stop), t.hi = e'.stop := by
      intro e' he'
      have hle := hrest.le_start e' he'
      obtain ⟨hlt', ⟨t, ht, hlo'⟩, ⟨u, hu, hhi'⟩⟩ := hcuts e' (List.mem_cons_of_mem _ he')
      have := hcs.ordered.2 t ht
      exact ⟨hlt', ⟨t, hin t ht (by omega), hlo'⟩, ⟨u, hin u hu (by omega), hhi'⟩⟩
    have ih := ih hbehind hrest (fun e' he' => hsealed e' (List.mem_cons_of_mem _ he'))
      (k + e.replacement.length - (e.stop - e.start))
    rw [hx] at hgap
    have hbare := (hgap.shift k).map_bare
    rw [Edit.tokensAfter, List.map_append, List.map_append, hbare,
      lexes_replaced_iff hgap hstart hc (hsealed e List.mem_cons_self) k, hnext, ih, Edit.SetOff]
    have hnew : (gap ++ e.replacement.toList ++ after).drop gap.length =
        e.replacement.toList ++ after := by rw [List.append_assoc, List.drop_left]
    have hold : (gap ++ range ++ before).drop gap.length = c :: x := by
      rw [List.append_assoc, List.drop_left, hx]
    have htake : (gap ++ range ++ before).take gap.length = gap := by
      rw [List.append_assoc, List.take_left]
    have hback : (gap ++ e.replacement.toList ++ after).drop (gap.length + e.replacement.length) =
        after := List.drop_left' (by rw [List.length_append, String.length_toList])
    simp only [hbefore, hrange, hback, hnew, hold, htake, List.drop_left]

end BuilderMigration
