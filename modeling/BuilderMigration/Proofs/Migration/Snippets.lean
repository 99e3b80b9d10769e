import BuilderMigration.Proofs.Migration.SharedMap
import BuilderMigration.Proofs.Source.EditedTokens
import BuilderMigration.Proofs.Token.Ends
import BuilderMigration.Proofs.Token.Wording

/-! The text of a node. It begins and ends in a token, so no blanks stand at its ends, and it tells the
same in front of every break. -/

namespace BuilderMigration

variable {cs a b c : List Char} {lo : Int} {ts : List Token} {t u : Token} {s : Span} {code : String}

/-- A text that begins and ends in a token has no blanks to trim. -/
theorem Lexes.trim_ofList (h : Lexes c lo b ts) (ht : t ∈ ts) (hlo : t.lo = lo) (hu : u ∈ ts)
    (hhi : u.hi = lo + b.length) : Text.trim (String.ofList b) = String.ofList b := by
  refine Text.trim_ofList ?_ (h.not_isBlank_getLast? ⟨u, hu, hhi⟩)
  cases b with
  | nil => simp
  | cons d b =>
    intro e he
    obtain rfl := Option.some.inj he
    exact h.not_isBlank ht hlo

/-- The tokens of a piece of text that begins with one token and ends with another. -/
theorem Lexes.middle (h : Lexes [] lo (a ++ (b ++ c)) ts) (ht : t ∈ ts) (hlo : t.lo = lo + a.length)
    (hu : u ∈ ts) (hhi : u.hi = lo + a.length + b.length) (hb : b ≠ []) :
    ∃ us ms vs, ts = us ++ (ms ++ vs) ∧ Lexes c (lo + a.length) b ms ∧ t ∈ ms ∧ u ∈ ms ∧
      (∀ t ∈ us, t.hi ≤ lo + a.length) ∧ ∀ t ∈ vs, lo + a.length + b.length ≤ t.lo := by
  have hpos := List.length_pos_iff.2 hb
  have hlt := (h.ordered.2 t ht).2.1
  obtain ⟨us, ms, rfl, hfront, h⟩ := h.split rfl ht (.inl hlo)
  have hms {t : Token} (ht : t ∈ us ++ ms) (hbehind : lo + a.length < t.hi) : t ∈ ms := by
    refine (List.mem_append.1 ht).resolve_left fun ht => ?_
    have := hfront.ordered.2 t ht
    omega
  have hlt' := (h.ordered.2 u (hms hu (by omega))).2.1
  obtain ⟨ms, vs, rfl, hmiddle, hbehind⟩ := h.split rfl (hms hu (by omega)) (.inr hhi)
  have hmiddle' {t : Token} (ht : t ∈ ms ++ vs) (hin : t.lo < lo + a.length + b.length) : t ∈ ms := by
    refine (List.mem_append.1 ht).resolve_right fun ht => ?_
    have := hbehind.ordered.2 t ht
    omega
  rw [List.append_nil] at hmiddle
  refine ⟨us, ms, vs, rfl, hmiddle, hmiddle' (hms ht (by omega)) (by omega),
    hmiddle' (hms hu (by omega)) (by omega), fun t ht => ?_, fun t ht => ?_⟩
  · have := hfront.ordered.2 t ht
    omega
  · have := hbehind.ordered.2 t ht
    omega

/-- An expression below a file stands below one of its items. -/
theorem Module.expr_below {m : Module} {e : Expr} (h : .expr e ∈ m.tree.preorder) :
    .expr e ∈ Rose.preorders (itemTrees m.items) := by
  rw [Module.tree, Rose.preorder, List.mem_cons] at h
  rcases h with h | h
  · cases h
  · exact h

/-- Nodes of a file that is laid out over its tokens stand within its text. -/
theorem Laid.within_below {trees : List (Rose Node)} {xs : List Node} (hx : xs.map Node.tree = trees)
    (h : Laid ts 1 trees (1 + code.length)) {x n : Node} (hmem : x ∈ Rose.preorders trees)
    (hn : n ∈ x.tree.preorder) : n.span.Proper ts ∧ n.span.Within code.length := by
  obtain ⟨-, hlo, hhi⟩ := h.inside x hmem
  obtain ⟨hp, hlo', hhi'⟩ := (h.below hx x hmem).inside n hn
  rw [x.tree_span] at hlo' hhi'
  exact ⟨hp, hp.written, by omega, hp.lt, by omega⟩

/-- A span of a file stands for the characters between its ends. -/
theorem SourceMap.snippet?_within (path : String) (hs : s.Within code.length) : ∃ front text back,
    code.toList = front ++ (text ++ back) ∧ (front.length : Int) = s.lo - 1 ∧
      (text.length : Int) = s.hi - s.lo ∧
      (SourceMap.read {} path code).2.snippet? s = some (String.ofList text) := by
  have hle : s.hi ≤ 1 + code.toList.length := by
    rw [String.length_toList]
    exact hs.le
  have hlt := hs.lt
  have hone := hs.one_le
  rw [snippet?_eq (file?_within hs) hs.written hlt hle]
  dsimp only
  generalize hstart : (s.lo - 1).toNat = start
  generalize hstop : (s.hi - 1).toNat = stop
  refine ⟨code.toList.take start, Text.slice code.toList start stop,
    (code.toList.drop start).drop (stop - start), ?_, ?_, ?_, rfl⟩
  · rw [Text.slice, List.take_append_drop, List.take_append_drop]
  · rw [List.length_take]
    omega
  · rw [Text.slice, List.length_take, List.length_drop]
    omega

/-- The text of a node of a file is copied as it is. -/
theorem SourceMap.snippet_tells (path : String) (h : tokensOf code 1 = .ok ts)
    (hs : s.Within code.length) (hp : s.Proper ts) : ∃ text x,
      (SourceMap.read {} path code).2.snippet? s = some text ∧
      Text.trim text = text ∧ Tells Broken text x := by
  obtain ⟨front, text, back, hcode, hfront, hlength, hsnippet⟩ := snippet?_within path hs
  have hlex := lexes_of_tokensOf h
  rw [hcode] at hlex
  obtain ⟨t, ht, hlo⟩ := hp.exists_lo
  obtain ⟨u, hu, hhi⟩ := hp.exists_hi
  have hlt := hs.lt
  have hlo' : t.bare.lo = 1 + front.length := hlo.trans (by omega)
  have hhi' : u.bare.hi = 1 + front.length + text.length := hhi.trans (by omega)
  obtain ⟨-, ms, -, -, hmiddle, ht, hu, -⟩ := hlex.middle (List.mem_map_of_mem ht) hlo'
    (List.mem_map_of_mem hu) hhi' (List.ne_nil_of_length_pos (by omega))
  obtain ⟨x, hx⟩ := hmiddle.tells_broken ⟨_, hu, hhi'⟩
  exact ⟨_, x, hsnippet, hmiddle.trim_ofList ht hlo' hu hhi', hx⟩

/-! ### The tokens of a span -/

/-- The tokens in a range of a list, where others stand in front of it and behind it only. -/
theorem filter_within {hi : Int} {us vs ws : List Token} (hus : ∀ t ∈ us, t.lo < t.hi ∧ t.hi ≤ lo)
    (hvs : ∀ t ∈ vs, lo ≤ t.lo ∧ t.hi ≤ hi) (hws : ∀ t ∈ ws, t.lo < t.hi ∧ hi ≤ t.lo) :
    (us ++ (vs ++ ws)).filter (fun t => lo ≤ t.lo ∧ t.hi ≤ hi) = vs := by
  have hfront : us.filter (fun t => lo ≤ t.lo ∧ t.hi ≤ hi) = [] :=
    List.filter_eq_nil_iff.2 fun t ht => by
      have := hus t ht
      rw [decide_eq_true_eq]
      omega
  have hback : ws.filter (fun t => lo ≤ t.lo ∧ t.hi ≤ hi) = [] :=
    List.filter_eq_nil_iff.2 fun t ht => by
      have := hws t ht
      rw [decide_eq_true_eq]
      omega
  have hmiddle : vs.filter (fun t => lo ≤ t.lo ∧ t.hi ≤ hi) = vs :=
    List.filter_eq_self.2 fun t ht => decide_eq_true (hvs t ht)
  rw [List.filter_append, List.filter_append, hfront, hmiddle, hback, List.nil_append, List.append_nil]

/-- Tokens that begin and end with a span are all in it, and the others stand around it. -/
theorem Ordered.filter_eq {us vs ws : List Token} (h : Ordered lo (us ++ (vs ++ ws)))
    (hlo : vs.head?.map (·.lo) = some s.lo) (hhi : vs.getLast?.map (·.hi) = some s.hi) :
    (us ++ (vs ++ ws)).filter (fun t => s.lo ≤ t.lo ∧ t.hi ≤ s.hi) = vs := by
  rw [ordered_append, ordered_append] at h
  obtain ⟨hus, hvs, hws⟩ := h
  obtain _ | ⟨v, vs⟩ := vs
  · cases hlo
  have hlast : endFrom (endFrom lo us) (v :: vs) = s.hi :=
    Option.some.inj ((getLast?_hi _ v vs).symm.trans hhi)
  have hfirst : v.lo = s.lo := Option.some.inj hlo
  rw [hlast] at hws
  refine filter_within (fun t ht => ?_) (fun t ht => ?_) fun t ht => ?_
  · have := hus.bounds t ht
    have := hvs.1
    omega
  · have hfrom : Ordered s.lo (v :: vs) := ⟨Int.le_of_eq hfirst.symm, hvs.2⟩
    have hend : endFrom s.lo (v :: vs) = s.hi := hlast
    have := hfrom.bounds t ht
    omega
  · have := hws.bounds t ht
    omega

/-- The tokens that begin and end with a span are those of the text that it stands for. -/
theorem SourceMap.snippet_lexes (path : String) {us vs ws : List Token}
    (h : tokensOf code 1 = .ok (us ++ (vs ++ ws))) (hs : s.Within code.length)
    (hlo : vs.head?.map (·.lo) = some s.lo) (hhi : vs.getLast?.map (·.hi) = some s.hi) :
    ∃ text back, (SourceMap.read {} path code).2.snippet? s = some (String.ofList text) ∧
      Text.trim (String.ofList text) = String.ofList text ∧ s.hi = s.lo + text.length ∧
      Lexes back s.lo text (vs.map Token.bare) := by
  obtain ⟨front, text, back, hcode, hfront, hlength, hsnippet⟩ := snippet?_within path hs
  have hlt := hs.lt
  have hlex := lexes_of_tokensOf h
  rw [hcode] at hlex
  have hstart : (1 : Int) + front.length = s.lo := by omega
  have hstop : s.lo + text.length = s.hi := by omega
  obtain ⟨v, hv, hvlo⟩ := Option.map_eq_some_iff.1 hlo
  obtain ⟨w, hw, hwhi⟩ := Option.map_eq_some_iff.1 hhi
  have hmem {t : Token} (ht : t ∈ vs) : t.bare ∈ (us ++ (vs ++ ws)).map Token.bare :=
    List.mem_map_of_mem (List.mem_append_right _ (List.mem_append_left _ ht))
  obtain ⟨as, ms, bs, heq, hmiddle, hvm, hwm, has, hbs⟩ :=
    hlex.middle (hmem (List.mem_of_head? hv)) (hvlo.trans hstart.symm)
      (hmem (List.mem_of_getLast? hw)) (hwhi.trans (by omega)) (List.ne_nil_of_length_pos (by omega))
  rw [hstart] at hmiddle has hbs
  rw [hstop] at hbs
  have hord : Ordered 1 (us ++ (vs ++ ws)) := tokensOf_eq_ok h ▸ tokenize_ordered code 1
  have hms : ms = vs.map Token.bare := by
    have hbounds := hlex.ordered.2
    rw [heq, List.forall_mem_append, List.forall_mem_append] at hbounds
    have hkeep : (as ++ (ms ++ bs)).filter (fun t => s.lo ≤ t.lo ∧ t.hi ≤ s.hi) = ms := by
      refine filter_within (fun t ht => ?_) (fun t ht => ?_) fun t ht => ?_
      · exact ⟨(hbounds.1 t ht).2.1, has t ht⟩
      · have := hmiddle.ordered.2 t ht
        omega
      · exact ⟨(hbounds.2.2 t ht).2.1, hbs t ht⟩
    rw [← hord.filter_eq hlo hhi, ← hkeep, ← heq, List.filter_map]
    rfl
  exact ⟨text, back, hsnippet, hmiddle.trim_ofList hvm hvlo hwm (hwhi.trans hstop.symm), hstop.symm,
    hms ▸ hmiddle⟩

/-! ### Lines -/

/-- A token wherever it stands. Its length tells a raw name from a plain one. -/
def Token.form (t : Token) : TokenKind × String × Int := (t.kind, t.value, t.hi - t.lo)

theorem Token.form_bare (ts : List Token) : (ts.map bare).map form = ts.map form := by
  rw [List.map_map]
  rfl

theorem Token.form_shift (k : Int) (ts : List Token) : (ts.map (shift k)).map form = ts.map form := by
  rw [List.map_map]
  refine List.map_congr_left fun t _ => ?_
  have hlength : t.hi + k - (t.lo + k) = t.hi - t.lo := by omega
  simp only [Function.comp_apply, form, shift, hlength]

/-- In front of a character a text is read to some tokens, whatever stands behind that. -/
def ReadsBefore (d : Char) (text : String) (us : List Token) : Prop :=
  ∃ vs, (∀ rest, Lexes (d :: rest) 0 text.toList vs) ∧ vs.map Token.form = us.map Token.form

/-- A line is read to some tokens, whatever stands on the lines behind it. -/
def LineHas (line : String) (us : List Token) : Prop := ReadsBefore '\n' line us

variable {text back : List Char} {us vs : List Token}

theorem Lexes.unique (h : Lexes c lo b us) (h' : Lexes c lo b vs) : us = vs :=
  Option.some.inj ((tokensBefore_iff.2 h).symm.trans (tokensBefore_iff.2 h'))

/-- The tokens that a text is read to are told apart by their forms alone. -/
theorem ReadsBefore.iff_form {d : Char} {text : String} (h : ReadsBefore d text us) :
    ReadsBefore d text vs ↔ us.map Token.form = vs.map Token.form := by
  obtain ⟨as, has, hus⟩ := h
  constructor
  · rintro ⟨bs, hbs, hvs⟩
    rw [← hus, ← hvs, (has []).unique (hbs [])]
  · exact fun hvs => ⟨as, has, hus.trans hvs⟩

/-- As a line a text that ends in a token has its tokens, unless a number takes a dot at the end. -/
theorem Lexes.exists_line (h : Lexes back lo text us)
    (hend : us.getLast?.map (·.hi) = some (lo + text.length)) :
    ∃ vs, (∀ rest, Lexes ('\n' :: rest) 0 text vs) ∧
      (vs.map Token.form = us.map Token.form ∨
        vs.length < us.length ∧ ∃ t ∈ us.getLast?, t.isPunct "." = true) := by
  obtain ⟨t, ht, hhi⟩ := Option.map_eq_some_iff.1 hend
  obtain ⟨vs, hvs, hline⟩ := h.before_breaks ⟨t, List.mem_of_getLast? ht, hhi⟩
  refine ⟨vs.map (Token.shift (-lo)), fun rest => ?_, ?_⟩
  · have hshift := (hline '\n' (by decide) rest).shift (-lo)
    rwa [Int.add_right_neg] at hshift
  · rw [Token.form_shift, List.length_map]
    exact hvs.imp_left (congrArg (List.map Token.form))

theorem Lexes.lineHas (h : Lexes back lo text (us.map Token.bare))
    (hend : us.getLast?.map (·.hi) = some (lo + text.length))
    (hdot : ∀ t ∈ us.getLast?, t.isPunct "." = false) : LineHas (String.ofList text) us := by
  obtain ⟨vs, hline, hvs⟩ := h.exists_line (by rwa [List.getLast?_map, Option.map_map])
  rcases hvs with hvs | ⟨-, t, ht, hmark⟩
  · exact ⟨vs, by rwa [String.toList_ofList], hvs.trans (Token.form_bare us)⟩
  · rw [List.getLast?_map, Option.mem_def, Option.map_eq_some_iff] at ht
    obtain ⟨u, hu, rfl⟩ := ht
    exact absurd (hmark.symm.trans (hdot u hu)) (by decide)

/-- A line has no more tokens than its text. -/
theorem LineHas.length_le (h : LineHas (String.ofList text) vs)
    (hlex : Lexes back lo text (us.map Token.bare))
    (hend : us.getLast?.map (·.hi) = some (lo + text.length)) : vs.length ≤ us.length := by
  obtain ⟨as, has, hvs⟩ := h
  obtain ⟨bs, hbs, hus⟩ := hlex.exists_line (by rwa [List.getLast?_map, Option.map_map])
  rw [String.toList_ofList] at has
  have hlength : vs.length = bs.length := by
    rw [← (has []).unique (hbs []), ← List.length_map (f := Token.form), ← hvs, List.length_map]
  have hle : bs.length ≤ us.length := by
    rcases hus with hus | ⟨hlt, -⟩
    · have := congrArg List.length hus
      simpa using Nat.le_of_eq this
    · simpa using Nat.le_of_lt hlt
  omega

end BuilderMigration
