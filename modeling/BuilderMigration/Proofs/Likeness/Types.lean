import BuilderMigration.Grammar.Types
import BuilderMigration.Proofs.Likeness.Group

/-! What is asked of the nonterminals over tokens that are like others, and the productions of types,
patterns and imports. -/

namespace BuilderMigration

open Parse

def UseLeaf.Named (N : String → Prop) : UseLeaf → Prop
  | .named i => i.Named N
  | .glob path => ∀ s ∈ path, N s

def Relabeling.leaf (r : Relabeling) : UseLeaf → UseLeaf
  | .named i => .named (r.use i)
  | .glob path => .glob (path.map r.name)

/-- A grammar whose nonterminals read what is like something else as the same, relabeled. All but types
and imports read a token. -/
structure Grammar.Respects (M : Likeness) (g : Grammar) : Prop where
  ty {b : Prop} : Alike M b b g.ty g.ty (Mapped M.ty (Ty.Written M.Named))
  useTree {b : Prop} {path : List String} (hp : ∀ s ∈ path, M.Named s) :
    Alike M b b (g.useTree path) (g.useTree (path.map M.name))
      (Mapped (List.map M.leaf) (∀ l ∈ ·, UseLeaf.Named M.Named l))
  expr {b : Prop} (bare : Bool) :
    Alike M b True (g.expr bare) (g.expr bare) (Mapped M.expr (Expr.Written M.Named))
  operand {b : Prop} (strength : Nat) (bare : Bool) :
    Alike M b True (g.operand strength bare) (g.operand strength bare)
      (Mapped M.expr (Expr.Written M.Named))
  unary {b : Prop} (bare : Bool) :
    Alike M b True (g.unary bare) (g.unary bare) (Mapped M.expr (Expr.Written M.Named))
  primary {b : Prop} (bare : Bool) :
    Alike M b True (g.primary bare) (g.primary bare) (Mapped M.expr (Expr.Written M.Named))
  statementExpr {b : Prop} :
    Alike M b True g.statementExpr g.statementExpr (Mapped M.expr (Expr.Written M.Named))
  conditional {b : Prop} :
    Alike M b True g.conditional g.conditional (Mapped M.expr (Expr.Written M.Named))
  block {b : Prop} (kind : BlockKind) (lo : Option Int) :
    Alike M b True (g.block kind lo) (g.block kind (lo.map M.place))
      (Mapped M.block (Block.Written M.Named))
  item {b : Prop} : Alike M b True g.item g.item (Mapped M.item (Item.Written M.Named))

namespace Grammar

variable {M : Likeness} {b : Prop} {g : Grammar} {t t' : Token}

/-! ### Types -/

/-- The end of a turn that reads one name of a path. -/
theorem nameEnd_alike {name : String} (hn : M.Named name) :
    Alike M b b (do
        if (← nextIs "::") && (← looksAtKind 1 .ident) then
          skip 1
          return .one name
        return .last name () : Parse (Turn String Unit)) (do
        if (← nextIs "::") && (← looksAtKind 1 .ident) then
          skip 1
          return .one (M.name name)
        return .last (M.name name) ())
      (Turn.Like (Mapped M.name M.Named) fun _ _ => True) := by
  apply Alike.seeing (.nextIs (by decide))
  intro colons
  apply Alike.seeing (.looksAtKind 1 .ident)
  intro word
  apply Alike.ite
  · exact .bind (.skip 1) fun _ _ _ => .pure (.one ⟨rfl, hn⟩)
  · exact .pure (.last ⟨rfl, hn⟩ trivial)

theorem Respects.pathType (hg : g.Respects M) :
    Alike M b b g.pathType g.pathType (Mapped (List.map M.name) (∀ s ∈ ·, M.Named s)) := by
  apply Alike.bind (.accept (by decide))
  rintro _ _ -
  refine .bind (Alike.collect (m := M.name) (P := M.Named) (S := fun _ _ => True) ?_) ?_
  · apply Alike.past .expectName
    rintro name _ ⟨rfl, hname⟩
    have htraits : ∀ v ∈ ["Fn", "FnMut", "FnOnce"], Asked v := by decide
    simp only [M.contains_name htraits]
    apply Alike.seeing (.nextIs (by decide))
    intro angle
    refine .ite (.past .skipGenerics fun _ _ _ => nameEnd_alike hname) ?_
    apply Alike.seeing (.nextIs (by decide))
    intro colons
    apply Alike.seeing (.looksAt 1 (by decide))
    intro angle
    apply Alike.ite
    · apply Alike.bind (.skip 1)
      intro _ _ _
      exact .past .skipGenerics fun _ _ _ => nameEnd_alike hname
    apply Alike.seeing (.nextIs (by decide))
    intro round
    refine .ite ?_ (nameEnd_alike hname)
    apply Alike.past .skipGroup
    intro _ _ _
    apply Alike.bind (.accept (by decide))
    rintro arrow _ rfl
    exact .ite (.bind hg.ty fun _ _ _ => nameEnd_alike hname) (nameEnd_alike hname)
  · rintro ⟨names, _⟩ ⟨_, _⟩ ⟨⟨rfl, hnames⟩, -⟩
    exact .pure ⟨rfl, hnames⟩

theorem Respects.bounds (hg : g.Respects M) :
    Alike M b b g.bounds g.bounds fun _ _ => True := by
  -- Whatever a bound is, another one may follow behind a plus sign.
  have hend : Alike M b b
      (do if ← accept "+" then return .inl () else return .inr () : Parse (Unit ⊕ Unit))
      (do if ← accept "+" then return .inl () else return .inr ()) (· = ·) := by
    apply Alike.bind (.accept (by decide))
    rintro more _ rfl
    exact .ite (.pure rfl) (.pure rfl)
  apply Alike.repeat
  apply Alike.bind (.accept (by decide))
  intro _ _ _
  apply Alike.bind (.acceptKind .lifetime)
  rintro lifetime _ rfl
  apply Alike.ite hend
  apply Alike.seeing (.nextIs (by decide))
  intro round
  apply Alike.ite (.past .skipGroup fun _ _ _ => hend)
  apply Alike.bind (.accept (by decide))
  rintro quantified _ rfl
  apply Alike.ite
  · apply Alike.past .skipGenerics
    intro _ _ _
    exact .bind hg.pathType fun _ _ _ => hend
  · exact .bind hg.pathType fun _ _ _ => hend

theorem Respects.referenceType (hg : g.Respects M) (ht : t.Like M t') :
    Alike M b b (g.referenceType t) (g.referenceType t') (Mapped M.ty (Ty.Written M.Named)) := by
  apply Alike.bind (.skip 1)
  intro _ _ _
  apply Alike.bind (.acceptKind .lifetime)
  intro _ _ _
  apply Alike.bind (.accept (by decide))
  rintro mutable _ rfl
  apply Alike.bind hg.ty
  rintro inner _ ⟨rfl, hinner⟩
  have hmark : t'.value = "&&" ↔ t.value = "&&" := ht.value_eq_iff (by decide)
  by_cases hm : t.value = "&&"
  · simpa [hm, hmark.2 hm] using .pure ⟨rfl, hinner⟩
  · simpa [hm, mt hmark.1 hm] using .pure ⟨rfl, hinner⟩

theorem Respects.pointerType (hg : g.Respects M) :
    Alike M b b g.pointerType g.pointerType (Mapped M.ty (Ty.Written M.Named)) := by
  apply Alike.bind (.skip 1)
  intro _ _ _
  apply Alike.bind (.accept (by decide))
  rintro constant _ rfl
  have hrest : Alike M b b (do let _ ← g.ty; return Ty.other "*ptr")
      (do let _ ← g.ty; return Ty.other "*ptr") (Mapped M.ty (Ty.Written M.Named)) :=
    .bind hg.ty fun _ _ _ => .pure ⟨rfl, trivial⟩
  exact .ite hrest (.past (.expect (by decide)) fun _ _ _ => hrest)

theorem Respects.tupleType (hg : g.Respects M) :
    Alike M b b g.tupleType g.tupleType (Mapped M.ty (Ty.Written M.Named)) := by
  apply Alike.bind (.skip 1)
  intro _ _ _
  apply Alike.bind (.commaList (by decide) hg.ty)
  rintro ⟨elems, trailing⟩ ⟨_, _⟩ ⟨⟨rfl, helems⟩, rfl⟩
  apply Alike.past (.expect (by decide))
  intro _ _ _
  have htuple : M.ty (.tuple elems) = .tuple (elems.map M.ty) := by
    rw [Relabeling.ty, M.tys_eq_map]
  obtain _ | ⟨e, _ | ⟨e', es⟩⟩ := elems <;> cases trailing
  case cons.nil.false => exact .pure ⟨rfl, helems _ (List.mem_singleton.2 rfl)⟩
  all_goals exact .pure ⟨htuple, trivial⟩

theorem Respects.qualifiedType (hg : g.Respects M) :
    Alike M b b g.qualifiedType g.qualifiedType (Mapped M.ty (Ty.Written M.Named)) := by
  apply Alike.past .skipGenerics
  intro _ _ _
  refine .bind (Alike.repeat ?_) fun _ _ _ => .pure ⟨rfl, trivial⟩
  apply Alike.bind (.accept (by decide))
  rintro colons _ rfl
  exact .ite (.bind hg.pathType fun _ _ _ => .pure rfl) (.pure rfl)

theorem Respects.functionType (hg : g.Respects M) :
    Alike M b b g.functionType g.functionType (Mapped M.ty (Ty.Written M.Named)) := by
  apply Alike.bind (.accept (by decide))
  intro _ _ _
  apply Alike.bind (.accept (by decide))
  rintro foreign _ rfl
  extract_lets last rest
  have hlast : Alike M b b (last ()) (last ()) (Mapped M.ty (Ty.Written M.Named)) :=
    .pure ⟨rfl, trivial⟩
  have hrest : Alike M b b (rest ()) (rest ()) (Mapped M.ty (Ty.Written M.Named)) := by
    apply Alike.past (.expect (by decide))
    intro _ _ _
    apply Alike.past .skipGroup
    intro _ _ _
    apply Alike.bind (.accept (by decide))
    rintro arrow _ rfl
    exact .ite (.bind hg.ty fun _ _ _ => hlast) hlast
  exact .ite (.bind (.acceptKind .string) fun _ _ _ => hrest) hrest

theorem Respects.typeOf (hg : g.Respects M) :
    Alike M b b g.typeOf g.typeOf (Mapped M.ty (Ty.Written M.Named)) := by
  have hother (text : String) : Alike M b b (do skip 1; return Ty.other text)
      (do skip 1; return Ty.other text) (Mapped M.ty (Ty.Written M.Named)) :=
    .bind (.skip 1) fun _ _ _ => .pure ⟨rfl, trivial⟩
  apply Alike.look 0 (.rejectEnd _)
  intro t t' ht
  have himpl : t'.isKeyword "impl" = t.isKeyword "impl" := ht.isKeyword (by decide)
  have hdyn : t'.isKeyword "dyn" = t.isKeyword "dyn" := ht.isKeyword (by decide)
  have hfor : t'.isKeyword "for" = t.isKeyword "for" := ht.isKeyword (by decide)
  have hfn : t'.isKeyword "fn" = t.isKeyword "fn" := ht.isKeyword (by decide)
  have hunsafe : t'.isKeyword "unsafe" = t.isKeyword "unsafe" := ht.isKeyword (by decide)
  have hextern : t'.isKeyword "extern" = t.isKeyword "extern" := ht.isKeyword (by decide)
  simp only [ht.isPunct, ht.kind, himpl, hdyn, hfor, hfn, hunsafe, hextern]
  apply Alike.ite (hg.referenceType ht)
  apply Alike.ite hg.pointerType
  apply Alike.ite hg.tupleType
  apply Alike.ite
  · exact .past .skipGroup fun _ _ _ => .pure ⟨rfl, trivial⟩
  apply Alike.ite (hother _)
  apply Alike.ite hg.qualifiedType
  refine .cond (fun hword => ?_) fun _ => ?_
  · have hvalue : t'.value = t.value := by
      rcases Bool.or_eq_true_iff.1 hword with h | h
      · exact ht.value_of_isKeyword (by decide) h
      · exact ht.value_of_isKeyword (by decide) h
    rw [hvalue]
    apply Alike.bind (.skip 1)
    intro _ _ _
    exact .bind hg.bounds fun _ _ _ => .pure ⟨rfl, trivial⟩
  apply Alike.ite
  · apply Alike.bind (.skip 1)
    intro _ _ _
    exact .past .skipGenerics fun _ _ _ => hg.ty
  apply Alike.ite hg.functionType
  refine .cond (fun hlifetime => ?_) fun _ => ?_
  · rw [ht.value (by simp [hlifetime])]
    exact hother _
  apply Alike.ite
  · apply Alike.bind hg.pathType
    rintro names _ ⟨rfl, hnames⟩
    exact .pure ⟨rfl, hnames⟩
  · exact .reject ht (.expected _)

theorem Respects.declaredType (hg : g.Respects M) :
    Alike M b b g.declaredType g.declaredType
      (Mapped (Option.map M.ty) (∀ ty ∈ ·, Ty.Written M.Named ty)) := by
  apply Alike.bind (.accept (by decide))
  rintro colon _ rfl
  apply Alike.ite
  · apply Alike.bind hg.ty
    rintro ty _ ⟨rfl, hty⟩
    exact .pure ⟨rfl, by simpa using hty⟩
  · exact .pure ⟨rfl, by simp⟩

/-! ### Patterns -/

/-- The tokens of a pattern; there is at least one. -/
theorem patternTokens_alike {stops : List String} (hstops : ∀ v ∈ stops, Asked v) :
    Alike M b b (patternTokens stops) (patternTokens stops)
      fun ts ts' => ts ≠ [] ∧ Together M ts ts' := by
  apply Alike.get
  intro c c' hc
  refine .bind (.sweep (fun _ t t' ht => ?_) none ()) fun _ _ _ => ?_
  · simp only [ht.isOneOf hstops, ht.closes?]
    exact .ite .halt (.pass _)
  apply Alike.get
  intro d d' hd
  have htake := hc.rest.take (c.rest.length - d.rest.length)
  simp only [hc.rest.length_eq, hd.rest.length_eq]
  generalize c.rest.take (c.rest.length - d.rest.length) = ts at htake ⊢
  generalize c'.rest.take (c.rest.length - d.rest.length) = ts' at htake ⊢
  cases htake with
  | nil =>
    have hrest := hd.rest
    generalize d.rest = us at hrest ⊢
    generalize d'.rest = us' at hrest ⊢
    cases hrest with
    | nil => exact .throw _
    | cons hu _ _ => exact .reject hu fun _ => .missingPattern
  | cons ht hjoin h => exact .pure ⟨List.cons_ne_nil _ _, .cons ht hjoin h⟩

theorem ofTokens_alike {ts ts' : List Token} (h : Together M ts ts') (span : Span) :
    Mapped M.pattern (Pattern.Named M.Named) (Pattern.ofTokens span ts)
      (Pattern.ofTokens (M.span span) ts') := by
  cases h with
  | nil => exact ⟨rfl, trivial⟩
  | @cons t t' _ _ ht _ h =>
    cases h with
    | nil =>
      have hplain : (t'.kind = .ident ∧ t'.value ≠ "_") ↔ (t.kind = .ident ∧ t.value ≠ "_") := by
        rw [ht.kind, Ne, Ne, ht.value_eq_iff (by decide)]
      by_cases hp : t.kind = .ident ∧ t.value ≠ "_"
      · simpa [Pattern.ofTokens, hp, hplain.2 hp, Mapped, Relabeling.pattern, Pattern.Named]
          using ⟨(ht.name hp.1).symm, .inl (ht.named hp.1)⟩
      · simp [Pattern.ofTokens, hp, mt hplain.1 hp, Mapped, Relabeling.pattern, Pattern.Named]
    | @cons u u' _ _ hu _ h =>
      cases h with
      | nil =>
        have hmut : (t'.isKeyword "mut" ∧ u'.kind = .ident) ↔ (t.isKeyword "mut" ∧ u.kind = .ident) := by
          rw [ht.isKeyword (by decide), hu.kind]
        by_cases hm : t.isKeyword "mut" ∧ u.kind = .ident
        · simpa [Pattern.ofTokens, hm, hmut.2 hm, Mapped, Relabeling.pattern, Pattern.Named]
            using ⟨(hu.name hm.2).symm, .inl (hu.named hm.2)⟩
        · simp [Pattern.ofTokens, hm, mt hmut.1 hm, Mapped, Relabeling.pattern, Pattern.Named]
      | cons _ _ _ => exact ⟨rfl, trivial⟩

theorem pattern_alike {stops : List String} (hstops : ∀ v ∈ stops, Asked v) :
    Alike M b b (pattern stops) (pattern stops) (Mapped M.pattern (Pattern.Named M.Named)) := by
  apply Alike.bind (patternTokens_alike hstops)
  rintro ts ts' ⟨hne, h⟩
  simp only [h.lo_head? hne, h.hi_getLast? hne]
  exact .pure (ofTokens_alike h _)

/-! ### Imports -/

theorem useName_alike {path : List String} {name : String} (hp : ∀ s ∈ path, M.Named s)
    (hn : M.Named name) :
    Alike M b b (useName path name) (useName (path.map M.name) (M.name name))
      (Mapped M.leaf (UseLeaf.Named M.Named)) := by
  have hself : M.name name = "self" ↔ name = "self" := M.name_eq_iff (by decide) name
  have hfull : ∀ s ∈ if name = "self" then path else path ++ [name], M.Named s := by
    split
    · exact hp
    · intro s hs
      rcases List.mem_append.1 hs with hs | hs
      · exact hp s hs
      · exact List.mem_singleton.1 hs ▸ hn
  have hpath : (if M.name name = "self" then path.map M.name else path.map M.name ++ [M.name name]) =
      (if name = "self" then path else path ++ [name]).map M.name := by
    by_cases h : name = "self"
    · rw [if_pos h, if_pos (hself.2 h)]
    · rw [if_neg h, if_neg (mt hself.1 h), List.map_append, List.map_singleton]
  have hown : (if M.name name = "self" then (path.map M.name).getLastD (M.name name) else M.name name) =
      M.name (if name = "self" then path.getLastD name else name) := by
    by_cases h : name = "self"
    · rw [if_pos h, if_pos (hself.2 h), List.getLastD_eq_getLast?, List.getLastD_eq_getLast?,
        List.getLast?_map, Option.getD_map]
    · rw [if_neg h, if_neg (mt hself.1 h)]
  unfold useName
  rw [hpath, hown]
  apply Alike.bind (.accept (by decide))
  rintro renamed _ rfl
  apply Alike.ite
  · apply Alike.past .expectName
    rintro own _ ⟨rfl, -⟩
    exact .pure ⟨rfl, hfull⟩
  · exact .pure ⟨rfl, hfull⟩

theorem Respects.usePath (hg : g.Respects M) {path : List String} (hp : ∀ s ∈ path, M.Named s) :
    Alike M b b (g.usePath path) (g.usePath (path.map M.name))
      (Mapped (List.map M.leaf) (∀ l ∈ ·, UseLeaf.Named M.Named l)) := by
  apply Alike.iterate (I := Mapped (List.map M.name) (∀ s ∈ ·, M.Named s)) ⟨rfl, hp⟩
  rintro path _ ⟨rfl, hp⟩
  apply Alike.past .expectName
  rintro name _ ⟨rfl, hn⟩
  apply Alike.bind (.accept (by decide))
  rintro colons _ rfl
  have hpath : ∀ s ∈ path ++ [name], M.Named s := by
    intro s hs
    rcases List.mem_append.1 hs with hs | hs
    · exact hp s hs
    · exact List.mem_singleton.1 hs ▸ hn
  have hmap : path.map M.name ++ [M.name name] = (path ++ [name]).map M.name := by
    rw [List.map_append, List.map_singleton]
  simp only [hmap]
  apply Alike.ite
  · apply Alike.seeing (.nextIs (by decide))
    intro opens
    apply Alike.seeing (.nextIs (by decide))
    intro glob
    apply Alike.ite
    · exact .bind (hg.useTree hpath) fun _ _ h => .pure (.inr h)
    · exact .pure (.inl ⟨rfl, hpath⟩)
  · apply Alike.bind (useName_alike hp hn)
    rintro leaf _ ⟨rfl, hleaf⟩
    exact .pure (.inr ⟨rfl, by simpa using hleaf⟩)

theorem Respects.useTreeOf (hg : g.Respects M) {path : List String} (hp : ∀ s ∈ path, M.Named s) :
    Alike M b b (g.useTreeOf path) (g.useTreeOf (path.map M.name))
      (Mapped (List.map M.leaf) (∀ l ∈ ·, UseLeaf.Named M.Named l)) := by
  apply Alike.bind (.accept (by decide))
  intro _ _ _
  apply Alike.bind (.accept (by decide))
  rintro opens _ rfl
  apply Alike.ite
  · apply Alike.bind (.commaList (by decide) (hg.useTree hp))
    rintro ⟨groups, _⟩ ⟨_, _⟩ ⟨⟨rfl, hgroups⟩, -⟩
    apply Alike.past (.expect (by decide))
    intro _ _ _
    refine .pure ⟨List.map_flatten .., ?_⟩
    intro l hl
    obtain ⟨group, hgroup, hl⟩ := List.mem_flatten.1 hl
    exact hgroups group hgroup l hl
  apply Alike.bind (.accept (by decide))
  rintro glob _ rfl
  apply Alike.ite
  · exact .pure ⟨rfl, by simpa [UseLeaf.Named] using hp⟩
  · exact hg.usePath hp

end Grammar

end BuilderMigration
