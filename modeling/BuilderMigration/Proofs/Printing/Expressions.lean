import BuilderMigration.Proofs.Printing.Bindings

/-! Literals, paths, parentheses and closures are read as they are written, and so are the calls behind
them. No operator, cast, range or assignment is seen in front of what ends an expression. -/

namespace BuilderMigration

open Parse

/-- What comes behind an expression. -/
def phraseEnds : List String := [",", ")", ";", "\x7d"]

/-- What comes behind the primary expression that an operand begins with. -/
def rootEnds : List String := "(" :: "." :: phraseEnds

/-- What would be read as something else in front of an expression: as an operator, a mark between
expressions, a statement with a keyword or an item. -/
def phraseBarriers : List String :=
  ["..", "..=", "-", "!", "*", "&", "&&", "->", "#", ",", ")", ";", "\x7d", "let",
   "if", "match", "loop", "while", "for", "unsafe", "const", "async",
   "fn", "use", "struct", "enum", "impl", "trait", "mod", "type", "extern", "pub", "static"]

/-- A grammar reads a phrase as it is written, as an expression and in the place of a statement. -/
structure Phrase.ReadBy (p : Phrase) (g : Grammar) : Prop where
  expr : Consumes (Before phraseEnds) (g.expr false) p.spellings fun e => e.unplaced = p.tree
  statement :
    Consumes (Before phraseEnds) (Grammar.statementExprOf g) p.spellings fun e => e.unplaced = p.tree

variable {α β σ : Type} {N : Option Spelling → Prop} {ws : List Spelling} {Q : Expr → Prop}
  {g : Grammar} {e : Expr} {v : String}

/-! ### What a phrase begins with -/

theorem Literal.opens (l : Literal) : Opens phraseBarriers l.spelling := by
  obtain ⟨kind, text, spelt⟩ := l
  cases kind with
  | string => exact ⟨nofun, fun v _ => rfl⟩
  | char => exact ⟨nofun, fun v _ => rfl⟩
  | number => exact ⟨nofun, fun v _ => rfl⟩
  | bool =>
    rcases (spelt : text = "true" ∨ text = "false") with rfl | rfl <;> exact opens_word (by decide)

mutual

theorem Phrase.opened : ∀ p : Phrase, Opened phraseBarriers p.spellings
  | .lit l => ⟨_, _, rfl, l.opens⟩
  | .closure true _ _ => ⟨_, _, rfl, opens_word (by decide)⟩
  | .closure false [] _ => ⟨_, _, rfl, opens_mark (by decide)⟩
  | .closure false (_ :: _) _ => ⟨_, _, rfl, opens_mark (by decide)⟩
  | .operand o => Operand.opened o

theorem Operand.opened : ∀ o : Operand, Opened phraseBarriers o.spellings
  | .path p => p.opened (by decide)
  | .call p _ => Opened.append (p.opened (by decide)) _
  | .paren _ => ⟨_, _, rfl, opens_mark (by decide)⟩
  | .method receiver _ _ _ => Opened.append (Operand.opened receiver) _
  | .block _ none => ⟨_, _, rfl, opens_mark (by decide)⟩
  | .block _ (some _) => ⟨_, _, rfl, opens_mark (by decide)⟩

end

/-! ### What an expression ends before -/

/-- What ends an expression is no name or number. -/
theorem Before.token {marks : List String} {t : Token} (h : Before marks (some t.spelling)) :
    t.kind = .punct ∧ t.value ∈ marks := by
  obtain ⟨v, hv, ht⟩ := h t.spelling rfl
  obtain ⟨hkind, rfl⟩ := Prod.mk.inj ht
  exact ⟨hkind, hv⟩

namespace Grammar

theorem pendingOperator_end : Consumes (Before phraseEnds) pendingOperator [] (· = none) := by
  refine .lookNext fun o ho => ?_
  cases o with
  | none => exact .pure rfl
  | some t =>
    obtain ⟨hkind, hv⟩ := ho.token
    have hno : ∀ v ∈ phraseEnds, strength? v = none ∧ (v == "<" || v == ">") = false := by decide
    obtain ⟨hstrength, hangle⟩ := hno _ hv
    refine .ite (fun h => absurd hkind h) fun _ => ?_
    dsimp only
    rw [hstrength, hangle]
    exact .pure rfl

theorem assignWidth_end : Consumes (Before phraseEnds) assignWidth [] (· = 0) := by
  refine .lookNext fun o ho => ?_
  cases o with
  | none => exact .pure rfl
  | some t =>
    obtain ⟨hkind, hv⟩ := ho.token
    have hno : ∀ v ∈ phraseEnds, assignMarks.contains v = false ∧ (v == "<") = false ∧
      (v == ">") = false := by decide
    obtain ⟨hassign, hless, hmore⟩ := hno _ hv
    refine .ite (fun h => absurd hkind h) fun _ => .ite (fun h => absurd (hassign.symm.trans h) nofun)
      fun _ => .look 1 fun o => ?_
    cases o with
    | none => exact .pure rfl
    | some u =>
      dsimp only
      rw [hless, hmore]
      rw [if_neg (by simp)]
      exact .pure rfl

theorem looksAtOneOf_end {vs : List String} (hvs : ∀ v ∈ phraseEnds, vs.contains v = false) :
    Consumes (Before phraseEnds) (looksAtOneOf 0 vs) [] (· = false) := by
  refine .lookNext fun o ho => .pure ?_
  cases o with
  | none => rfl
  | some t => simp only [Option.any_some, Token.isOneOf, hvs _ ho.token.2, Bool.and_false]

theorem suffixes_end (g : Grammar) (e : Expr) :
    Consumes (Before phraseEnds) (suffixes g e) [] (· = e) := by
  have hno (v : String) (hv : v ∉ phraseEnds) (o : Option Spelling) (ho : Before phraseEnds o) :
      o.any (·.is v) = false := ho.any_is hv
  refine .iterateStop (.nextIs (b := false) (hno "?" (by decide)) ?_)
  refine .nextIs (b := false) (hno "." (by decide)) (.nextIs (b := false) (hno "(" (by decide)) ?_)
  exact .nextIs (b := false) (hno "[" (by decide)) (.pure ⟨e, rfl, rfl⟩)

theorem binaryFrom_end (g : Grammar) (strength : Nat) (e : Expr) :
    Consumes (Before phraseEnds) (binaryFrom g strength false e) [] (· = e) := by
  refine .iterateStop (.last pendingOperator_end fun o ho => ?_)
  subst ho
  exact .pure ⟨e, rfl, rfl⟩

theorem rangeFrom_end (g : Grammar) (e : Expr) :
    Consumes (Before phraseEnds) (rangeFrom g false e) [] (· = e) := by
  refine .last (looksAtOneOf_end (by decide)) fun b hb => ?_
  subst hb
  exact .pure rfl

theorem assignFrom_end (g : Grammar) (e : Expr) :
    Consumes (Before phraseEnds) (assignFrom g false e) [] (· = e) := by
  refine .last assignWidth_end fun n hn => ?_
  subst hn
  exact .pure rfl

/-- An expression that is whole already. -/
theorem exprFrom_end (g : Grammar) (e : Expr) :
    Consumes (Before phraseEnds) (exprFrom g e) [] (· = e) := by
  refine .last (binaryFrom_end g 0 e) fun e₁ he₁ => ?_
  refine .last (rangeFrom_end g e₁) fun e₂ he₂ => ?_
  exact (assignFrom_end g e₂).imp fun e₃ he₃ => he₃.trans (he₂.trans he₁)

/-- A primary expression with its suffixes is a whole expression, if nothing in front of it makes
another one. -/
theorem exprOf_consumes (hws : Opened phraseBarriers ws)
    (h : Consumes (Before phraseEnds) (do suffixes g (← primaryOf g false)) ws Q) :
    Consumes (Before phraseEnds) (exprOf g false) ws Q := by
  obtain ⟨w, ws', rfl, -, hw⟩ := hws
  have hunary : Consumes (Before phraseEnds) (unaryOf g false) (w :: ws') Q := by
    refine .lookHead fun t ht => ?_
    have hno (v : String) (hv : v ∈ phraseBarriers) : t.isPunct v = false := by
      have his : t.is v = false := by
        rw [← hw v hv, ← ht]
        rfl
      cases hkind : t.kind <;> simp_all [Token.isPunct, Token.is]
    dsimp only
    simp only [hno "-" (by decide), hno "!" (by decide), hno "*" (by decide), hno "&" (by decide),
      hno "&&" (by decide), Bool.or_false, Bool.false_eq_true, if_false]
    exact h
  have hcasts : Consumes (Before phraseEnds) (casts g false) (w :: ws') Q := by
    refine .last hunary fun e he => .iterateStop (.acceptNot (fun o ho => ?_) (.pure ⟨e, rfl, he⟩))
    exact ho.any_is (by decide)
  have hrange : Consumes (Before phraseEnds) (rangeOf g false) (w :: ws') Q := by
    refine .peek (x := false) (fun o _ c hc => ?_) ?_
    · have hopen : w.is ".." = false := hw ".." (by decide)
      have hclosed : w.is "..=" = false := hw "..=" (by decide)
      have hno : ((w.1 == .punct || w.1 == .ident) && ["..", "..="].contains w.2) = false := by
        simp only [Spelling.is] at hopen hclosed
        cases hkind : w.1 <;> simp_all
      rw [nextIsRange, looksAtOneOf_eq, hc]
      exact congrArg (fun b => Except.ok (b, c)) hno
    · refine .last (Q := Q) (.last hcasts fun e he => ?_) fun e he => ?_
      · exact (binaryFrom_end g 0 e).imp fun e' he' => he'.symm ▸ he
      · exact (rangeFrom_end g e).imp fun e' he' => he'.symm ▸ he
  exact .last hrange fun e he => (assignFrom_end g e).imp fun e' he' => he'.symm ▸ he

/-! ### Primary expressions -/

theorem literal_consumes (g : Grammar) (l : Literal) :
    Consumes (fun _ => True) (primaryOf g false) [l.spelling]
      fun e => e.unplaced = .lit ⟨0, 0, 0⟩ l.kind := by
  refine .lookHead fun t ht => ?_
  obtain ⟨hkind, hvalue⟩ := Prod.mk.inj ht
  obtain ⟨kind, text, spelt⟩ := l
  dsimp only
  rw [hkind]
  cases kind with
  | string => exact .last .skip_one fun _ _ => .pure rfl
  | char => exact .last .skip_one fun _ _ => .pure rfl
  | number => exact .last .skip_one fun _ _ => .pure rfl
  | bool =>
    have htruth : (t.value = "true" || t.value = "false") = true := by
      rcases (spelt : text = "true" ∨ text = "false") with rfl | rfl <;> simp [hvalue]
    exact .ite (fun _ => .last .skip_one fun _ _ => .pure rfl) fun h => absurd htruth h

/-- A word that the grammar leaves free begins a path. -/
theorem wordPrimary_free {t : Token} {bare : Bool} (h : t.value ∉ reserved) :
    wordPrimary g t bare = pathLike g bare := by
  have hne (v : String) (hv : v ∈ reserved) : t.value ≠ v := fun he => h (he ▸ hv)
  have hmarked : marked? g t bare = pure none := by
    simp only [marked?, hne "move" (by decide), hne "async" (by decide), hne "unsafe" (by decide),
      hne "const" (by decide), if_false, decide_false, Bool.or_self, Bool.false_eq_true]
  have hjump : jump? t.value = none := by
    simp only [jump?, List.lookup_cons, List.lookup_nil, beq_eq_false_iff_ne.2 (hne "return" (by decide)),
      beq_eq_false_iff_ne.2 (hne "break" (by decide)),
      beq_eq_false_iff_ne.2 (hne "continue" (by decide)),
      beq_eq_false_iff_ne.2 (hne "yield" (by decide))]
  have hplain : plainWord g t bare = pathLike g bare := by
    simp only [plainWord, hne "if" (by decide), hne "match" (by decide), hne "loop" (by decide),
      hne "while" (by decide), hne "for" (by decide), hne "let" (by decide), if_false, hjump]
  simp only [wordPrimary, hne "true" (by decide), hne "false" (by decide), decide_false, Bool.or_self,
    Bool.false_eq_true, if_false, hmarked, hplain, pure_bind]

theorem pathNames_consumes (p : PathName) :
    Consumes (Before rootEnds) pathNames p.spellings fun names => names = p.segments := by
  refine .acceptNot (fun o _ => p.head.is_of_not_isWord (by decide)) ?_
  refine consumes_names (fun i => ?_) (fun i => ?_) p
  · refine .cons .expectName fun name hname => ?_
    subst hname
    refine .nextIs (b := true) (fun _ _ => rfl) ?_
    refine .peekSecond (x := false) (fun o ho t us last hus => ?_) (nameEnd_one _)
    obtain ⟨j, rfl⟩ := ho
    have hless : (some j.spelling).any (·.is "<") = false := j.is_of_not_isWord (by decide)
    rw [looksAt_second, hus]
    exact congrArg (fun b => Except.ok (b, _)) hless
  · refine .last .expectName fun name hname => ?_
    subst hname
    have hcolons (o : Option Spelling) (ho : Before rootEnds o) : o.any (·.is "::") = false :=
      ho.any_is (by decide)
    refine .nextIs (b := false) hcolons (.looking (.looksAt 1 "<") fun _ _ => ?_)
    exact nameEnd_last _ hcolons

theorem path_consumes (g : Grammar) (p : PathName) :
    Consumes (Before rootEnds) (primaryOf g false) p.spellings
      fun e => e.unplaced = (Operand.path p).tree := by
  refine .lookHead (w := p.head.spelling) fun t ht => ?_
  obtain ⟨hkind, hvalue⟩ := Prod.mk.inj ht
  dsimp only
  rw [hkind]
  dsimp only
  rw [wordPrimary_free (hvalue ▸ p.free)]
  refine .look 0 fun o => .last (pathNames_consumes p) fun names hnames => ?_
  have hno (v : String) (hv : v ∉ rootEnds) (o : Option Spelling) (ho : Before rootEnds o) :
      o.any (·.is v) = false := ho.any_is hv
  refine .nextIs (b := false) (hno "!" (by decide)) (.nextIs (b := false) (hno "\x7b" (by decide)) ?_)
  refine .spanFrom fun s => .pure ?_
  rw [hnames]
  rfl

/-- What is in parentheses. -/
theorem paren_consumes {p : Phrase} (h : p.ReadBy g) :
    Consumes (fun _ => True) (primaryOf g false) (Operand.paren p).spellings
      fun e => e.unplaced = (Operand.paren p).tree := by
  refine .lookHead (w := mark "(") fun t ht => ?_
  obtain ⟨hkind, hvalue⟩ := Prod.mk.inj ht
  dsimp only
  rw [hkind]
  have hpunct : punctPrimary g t false = parenthesised g := by simp [punctPrimary, hvalue]
  dsimp only
  rw [hpunct]
  have hlist : Consumes (At ")") (commaList ")" (g.expr false)) (commas ([p].map Phrase.spellings))
      fun r => r.1.map Expr.unplaced = [p].map Phrase.tree ∧ r.2 = [p].isEmpty := by
    refine .commaList (by decide) (fun q hq => ?_) fun q hq => ?_
    · exact List.mem_singleton.1 hq ▸ p.opened.is_head (by decide)
    · exact List.mem_singleton.1 hq ▸ h.expr.mono fun o ho => ho.mono (by decide)
  rw [List.map_singleton, commas_singleton] at hlist
  refine .cons (.expect rfl) fun start _ => .bind hlist (fun _ _ => rfl) fun r hr => ?_
  refine .last (.expect rfl) fun close _ => ?_
  obtain ⟨elems, trailing⟩ := r
  obtain ⟨helems, rfl⟩ := hr
  obtain ⟨e, es, rfl, he, hes⟩ := List.map_eq_cons_iff.1 helems
  obtain rfl := List.map_eq_nil_iff.1 hes
  refine .pure ?_
  simp only [Expr.unplaced, unplacedExprs, he, Operand.tree]

theorem unplacedExprs_eq (es : List Expr) : unplacedExprs es = es.map Expr.unplaced := by
  induction es with
  | nil => rfl
  | cons e es ih => rw [unplacedExprs, ih, List.map_cons]

/-- Parameters between bars and the value behind them. -/
theorem closure_consumes {params : List Binding} {body : Phrase} (captures : Bool) (lo : Int)
    (hparams : Consumes (fun _ => True) (closureParams g) (Binding.barred params)
      fun ps => ps.map (·.unplaced) = params.map (·.param))
    (h : body.ReadBy g) :
    Consumes (Before phraseEnds) (closure g lo false captures)
      (Binding.barred params ++ body.spellings)
      fun e => e.unplaced = (Phrase.closure captures params body).tree := by
  refine .then hparams fun ps hps => .acceptNot (fun o _ => ?_) (.last h.expr fun e he => .pure ?_)
  · simpa using body.opened.any_is (v := "->") (by decide) [] o
  · rw [Expr.unplaced, hps, he, Phrase.tree]

/-- A closure, behind its keyword if it has one. -/
theorem primaryOf_closure {params : List Binding} {body : Phrase} {captures : Bool}
    (hparams : Consumes (fun _ => True) (closureParams g) (Binding.barred params)
      fun ps => ps.map (·.unplaced) = params.map (·.param))
    (h : body.ReadBy g) :
    Consumes (Before phraseEnds) (primaryOf g false) (Phrase.closure captures params body).spellings
      fun e => e.unplaced = (Phrase.closure captures params body).tree := by
  have hbars : ∃ v ws, Binding.barred params = mark v :: ws ∧ (v = "|" ∨ v = "||") := by
    cases params with
    | nil => exact ⟨_, _, rfl, .inr rfl⟩
    | cons b bs => exact ⟨_, _, rfl, .inl rfl⟩
  obtain ⟨v, vs, hvs, hv⟩ := hbars
  have hall (lo : Int) := closure_consumes captures lo hparams h
  rw [hvs] at hall
  cases captures with
  | false =>
    simp only [Phrase.spellings, hvs]
    refine .lookHead fun t ht => ?_
    obtain ⟨hkind, hvalue⟩ := Prod.mk.inj ht
    dsimp only
    rw [hkind]
    exact .ite (fun _ => hall t.lo) fun hne => absurd (hvalue ▸ hv) (by simpa using hne)
  | true =>
    simp only [Phrase.spellings, hvs]
    refine .lookHead (w := keyword "move") fun t ht => ?_
    obtain ⟨hkind, hvalue⟩ := Prod.mk.inj ht
    have hmarked : Consumes (Before phraseEnds) (marked? g t false)
        (keyword "move" :: (mark v :: vs ++ body.spellings))
        fun o => ∃ e, o = some e ∧ e.unplaced = (Phrase.closure true params body).tree := by
      refine .ite (fun _ => .peekSecond (x := true) (fun o _ t us last hus => ?_) ?_)
        fun hne => absurd hvalue hne
      · obtain ⟨u, us, rfl, hu⟩ := nextSpelling_eq_some hus
        obtain ⟨hkind, rfl⟩ := Prod.mk.inj hu
        have hbar : u.isOneOf ["|", "||"] = true := by simpa [Token.isOneOf, hkind] using hv
        exact congrArg (fun b => Except.ok (b, _)) hbar
      · exact .cons .skip_one fun _ _ => .last (hall t.lo) fun e he => .pure ⟨e, rfl, he⟩
    dsimp only
    rw [hkind]
    refine .ite (fun htruth => absurd htruth (by simp [hvalue])) fun _ => .last hmarked fun o ho => ?_
    obtain ⟨e, rfl, he⟩ := ho
    exact .pure he

/-! ### Suffixes -/

section

variable {args : List Phrase}

theorem eachSpelt_eq (ps : List Phrase) : eachSpelt ps = ps.map Phrase.spellings := by
  induction ps with
  | nil => rfl
  | cons p ps ih => rw [eachSpelt, ih, List.map_cons]

theorem phraseTrees_eq (ps : List Phrase) : phraseTrees ps = ps.map Phrase.tree := by
  induction ps with
  | nil => rfl
  | cons p ps ih => rw [phraseTrees, ih, List.map_cons]

theorem callArgs_consumes (h : ∀ p ∈ args, p.ReadBy g) :
    Consumes (fun _ => True) (callArgs g) (mark "(" :: (commas (eachSpelt args) ++ [mark ")"]))
      fun r => unplacedExprs r.1 = phraseTrees args := by
  have hlist : Consumes (At ")") (commaList ")" (g.expr false)) (commas (args.map Phrase.spellings))
      fun r => r.1.map Expr.unplaced = args.map Phrase.tree ∧ r.2 = args.isEmpty :=
    .commaList (by decide) (fun p _ => p.opened.is_head (by decide))
      fun p hp => (h p hp).expr.mono fun o ho => ho.mono (by decide)
  rw [eachSpelt_eq, phraseTrees_eq]
  refine .cons (.expect rfl) fun _ _ => .bind hlist (fun _ _ => rfl) fun r hr => ?_
  refine .last (.expect rfl) fun close _ => .pure ?_
  rw [unplacedExprs_eq]
  exact hr.1

theorem suffix_call (h : ∀ p ∈ args, p.ReadBy g) (e : Expr) :
    Consumes (fun _ => True) (suffix g e) (mark "(" :: (commas (eachSpelt args) ++ [mark ")"]))
      fun r => ∃ e', r = .inl e' ∧
        e'.unplaced = .compound ⟨0, 0, 0⟩ none .call (e.unplaced :: phraseTrees args) := by
  refine .nextIs (b := false) (fun _ _ => rfl) (.nextIs (b := false) (fun _ _ => rfl) ?_)
  refine .nextIs (b := true) (fun _ _ => rfl) (.last (callArgs_consumes h) fun r hr => .pure ?_)
  exact ⟨_, rfl, by rw [Expr.unplaced, unplacedExprs, hr]⟩

theorem suffix_method (h : ∀ p ∈ args, p.ReadBy g) {name : Ident} (awaits : name.text ≠ "await")
    (e : Expr) :
    Consumes (fun _ => True) (suffix g e)
      (mark "." :: name.spelling :: mark "(" :: (commas (eachSpelt args) ++ [mark ")"]))
      fun r => ∃ e', r = .inl e' ∧
        e'.unplaced = .methodCall ⟨0, 0, 0⟩ none e.unplaced name.text (phraseTrees args) := by
  refine .nextIs (b := false) (fun _ _ => rfl) (.nextIs (b := true) (fun _ _ => rfl) ?_)
  refine .last ?_ fun e' he' => .pure ⟨e', rfl, he'⟩
  refine .cons .skip_one fun _ _ => .lookHead fun t ht => ?_
  have hkind : t.kind = .ident := congrArg Prod.fst ht
  refine .ite (fun hnumber => absurd (hkind.symm.trans hnumber) nofun) fun _ => ?_
  refine .cons .expectName fun n hn => ?_
  refine .ite (fun hawait => absurd (hn.symm.trans hawait) awaits) fun _ => ?_
  refine .nextIs (b := false) (fun _ _ => rfl) (.looking (.looksAt 1 "<") fun _ _ => ?_)
  refine .nextIs (b := true) (fun _ _ => rfl) (.last (callArgs_consumes h) fun r hr => .pure ?_)
  rw [Expr.unplaced, hr, hn]

end

/-- Suffixes lead from an expression on to what has the property `Q`. -/
def Leads (g : Grammar) (e : Expr) (ws : List Spelling) (Q : Expr → Prop) : Prop :=
  ∀ ts rest last, ts.map Token.spelling = ws → ∃ e' last', Q e' ∧
    ∀ r, suffixes g e' ⟨rest, last'⟩ = .ok r → suffixes g e ⟨ts ++ rest, last⟩ = .ok r

theorem Leads.here (h : Q e) : Leads g e [] Q := by
  intro ts rest last hts
  obtain rfl := List.map_eq_nil_iff.1 hts
  exact ⟨e, last, h, fun _ hr => hr⟩

/-- One suffix more. -/
theorem Leads.suffix {vs : List Spelling} {R : Expr → Prop} (h : Leads g e ws Q) (hvs : vs ≠ [])
    (hone : ∀ e', Q e' →
      Consumes (fun _ => True) (suffix g e') vs fun r => ∃ e'', r = .inl e'' ∧ R e'') :
    Leads g e (ws ++ vs) R := by
  intro ts rest last hts
  obtain ⟨us, us', rfl, hus, hus'⟩ := List.map_eq_append_iff.1 hts
  obtain ⟨e', last₁, hQ, hlead⟩ := h us (us' ++ rest) last hus
  obtain ⟨_, last₂, hstep, e'', rfl, hR⟩ := hone e' hQ us' rest last₁ hus' trivial
  refine ⟨e'', last₂, hR, fun r hr => ?_⟩
  rw [List.append_assoc]
  exact hlead r (iterate_of_inl hstep (length_lt_of_ne_nil hus' hvs) hr)

/-- A single suffix. -/
theorem Leads.one {vs : List Spelling} (hvs : vs ≠ [])
    (h : Consumes (fun _ => True) (Grammar.suffix g e) vs fun r => ∃ e', r = .inl e' ∧ Q e') :
    Leads g e vs Q :=
  List.nil_append vs ▸ (Leads.here (Q := (· = e)) rfl).suffix hvs fun _ he => he ▸ h

theorem Leads.consumes (h : Leads g e ws Q) : Consumes (Before phraseEnds) (suffixes g e) ws Q := by
  intro ts rest last hts hn
  obtain ⟨e', last₁, hQ, hlead⟩ := h ts rest last hts
  obtain ⟨_, last₂, hend, rfl⟩ := suffixes_end g e' [] rest last₁ rfl hn
  exact ⟨_, last₂, hlead _ hend, hQ⟩

end Grammar

end BuilderMigration
