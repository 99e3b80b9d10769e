import BuilderMigration.Proofs.Printing.Angles

/-! Bindings with a type that has generic arguments. They are read as what they are, save for types in which a
bracket that closes generic arguments stands in one token with an equals sign: of these the reader runs on
behind the type, and where it finds no bracket it gives up. -/

namespace BuilderMigration

open Parse

variable {ts us : List Token} {last : Int}

/-! ### Types with generic arguments -/

namespace AngleGroup

def spelt (A : AngleGroup) : List Spelling := A.tokens.map Token.spelling

theorem spelt_head (A : AngleGroup) : ∃ ws, A.spelt = mark "<" :: ws := by
  have h := A.opens
  rw [Token.isPunct, Bool.and_eq_true, beq_iff_eq, beq_iff_eq] at h
  exact ⟨_, congrArg (· :: _) (Prod.ext h.1 h.2)⟩

end AngleGroup

/-- A name of a path with the generic arguments that it may have, in front of which two colons may stand. -/
structure GenericName where
  name : Ident
  args : Option (Bool × AngleGroup)

/-- The double colons in front of something. -/
def colonsSpelt (colons : Bool) : List Spelling := if colons then [mark "::"] else []

namespace GenericName

def spelt (s : GenericName) : List Spelling :=
  s.name.spelling :: match s.args with
    | none => []
    | some (colons, A) => colonsSpelt colons ++ A.spelt

def glued (s : GenericName) : Nat := (s.args.map (·.2.glued)).getD 0

def fused (s : GenericName) : Bool := s.args.any (·.2.fused)

end GenericName

/-- The names of a path. Only behind the last one may an equals sign stand in one token with the bracket. -/
inductive GenericPath where
  | ends (s : GenericName)
  | more (s : GenericName) (apart : s.fused = false) (p : GenericPath)

namespace GenericPath

def head : GenericPath → GenericName
  | ends s | more s _ _ => s

def segments : GenericPath → List String
  | ends s => [s.name.text]
  | more s _ p => s.name.text :: p.segments

def spelt : GenericPath → List Spelling
  | ends s => s.spelt
  | more s _ p => s.spelt ++ mark "::" :: p.spelt

def glued : GenericPath → Nat
  | ends s => s.glued
  | more s _ p => s.glued + p.glued

def fused : GenericPath → Bool
  | ends s => s.fused
  | more _ _ p => p.fused

end GenericPath

/-- A path as a type, which may begin with double colons. -/
structure GenericType where
  rooted : Bool
  path : GenericPath
  free : path.head.name.text ∉ reserved

namespace GenericType

def spelt (T : GenericType) : List Spelling := colonsSpelt T.rooted ++ T.path.spelt

/-- How many brackets that close stand in one token with an equals sign. -/
def glued (T : GenericType) : Nat := T.path.glued

/-- The equals sign behind the type, if it has a token of its own. -/
def equals (T : GenericType) : List Spelling := if T.path.fused then [] else [mark "="]

def ty (T : GenericType) : Ty := .path T.path.segments

/-- Whether a binding with the type is read as what it is: whatever pattern it binds and whatever its value,
these and the names of the type are what is found. -/
def ReadsLet (T : GenericType) : Prop :=
  ∀ (g : Grammar) (ps : List Spelling) (P : Pattern → Prop) (es : List Spelling) (E : Expr → Prop),
    Consumes (At ":") (Grammar.pattern [":", "=", ";"]) ps P →
    Consumes (At ";") (g.exprOf false) es E →
    Consumes (fun _ => True) (Grammar.letStmt g.above)
      (keyword "let" :: (ps ++ mark ":" :: (T.spelt ++ (T.equals ++ (es ++ [mark ";"])))))
      fun stmt => ∃ span p e, stmt = .letStmt span p (some T.ty) (some e) none ∧ P p ∧ E e

end GenericType

/-! ### Readers that give up -/

namespace Parse

variable {α β : Type} {M N : Option Spelling → Prop} {p q : Parse α} {f : α → Parse β}
  {ws vs : List Spelling} {Q : α → Prop}

/-- From tokens spelt `ws`, with none behind them, the reader gives up. -/
def Rejects (p : Parse α) (ws : List Spelling) : Prop :=
  ∀ ts last, ts.map Token.spelling = ws → ∃ e, p ⟨ts, last⟩ = .error e

theorem Rejects.bind (h : Rejects p ws) : Rejects (p >>= f) ws := by
  intro ts last hts
  obtain ⟨e, he⟩ := h ts last hts
  exact ⟨e, by rw [bind_apply, he]⟩

/-- One reader behind another, in front of which the first one may stand. -/
theorem Rejects.behind (hp : Consumes M p ws Q) (hm : M vs.head?) (hf : ∀ a, Q a → Rejects (f a) vs) :
    Rejects (p >>= f) (ws ++ vs) := by
  intro ts last hts
  obtain ⟨us, us', rfl, hus, rfl⟩ := List.map_eq_append_iff.1 hts
  rw [List.head?_map] at hm
  obtain ⟨a, last', ha, hQ⟩ := hp us us' last hus hm
  rw [bind_of_ok ha]
  exact hf a hQ us' last' rfl

/-- A reader of one token and what is behind it. -/
theorem Rejects.cons {w : Spelling} (hp : Consumes (fun _ => True) p [w] Q)
    (hf : ∀ a, Q a → Rejects (f a) vs) : Rejects (p >>= f) (w :: vs) := .behind hp trivial hf

/-- A text that is read is not given up. -/
theorem Rejects.not_consumes (h : Rejects p ws) : ¬ Consumes (fun _ => True) p ws Q := by
  intro hp
  let ts : List Token := ws.map fun w => ⟨w.1, w.2, 0, 0, 0, 0⟩
  have hts : ts.map Token.spelling = ws := by
    rw [List.map_map]
    exact List.map_id ws
  obtain ⟨e, he⟩ := h ts 0 hts
  obtain ⟨a, last', ha, -⟩ := hp ts [] 0 hts trivial
  rw [List.append_nil, he] at ha
  cases ha

/-- On tokens spelt `ws` with others spelt `vs` behind them, a reader goes on as another one does behind the
tokens spelt `ws`. -/
def LeadsTo (p : Parse α) (ws : List Spelling) (q : Parse α) (vs : List Spelling) : Prop :=
  ∀ ts last, ts.map Token.spelling = ws ++ vs →
    ∃ us last', us.map Token.spelling = vs ∧ ∀ rest, p ⟨ts ++ rest, last⟩ = q ⟨us ++ rest, last'⟩

theorem LeadsTo.consumes (h : LeadsTo p ws q vs) (hq : Consumes N q vs Q) :
    Consumes N p (ws ++ vs) Q := by
  intro ts rest last hts hn
  obtain ⟨us, last', hus, hp⟩ := h ts last hts
  rw [hp]
  exact hq us rest last' hus hn

theorem LeadsTo.rejects (h : LeadsTo p ws q vs) (hq : Rejects q vs) : Rejects p (ws ++ vs) := by
  intro ts last hts
  obtain ⟨us, last', hus, hp⟩ := h ts last hts
  have hrest := hp []
  rw [List.append_nil, List.append_nil] at hrest
  rw [hrest]
  exact hq us last' hus

end Parse

/-! ### Types that are read -/

section

variable {N : Option Spelling → Prop} {ws vs : List Spelling} {g : Grammar} {S : Turn String Unit → Prop}
  {A : AngleGroup} {T : GenericType} {i : Ident} {colons : Bool}

theorem AngleGroup.consumes (h : A.glued = 0) :
    Consumes (fun _ => True) skipGenerics A.spelt fun _ => True := by
  intro ts rest last hts _
  obtain ⟨A', rfl, hglued⟩ := A.exists_respelt hts
  obtain ⟨-, hfused⟩ : A'.within = 0 ∧ A'.fused = false := by
    simpa [AngleGroup.glued] using hglued.trans h
  refine ⟨(), A'.closer.hi, ?_, trivial⟩
  rw [Grammar.skipGenerics_exact (hglued.trans h), AngleGroup.behind, hfused]
  rfl

namespace Grammar

/-- The turn through a name goes on to its generic arguments. -/
theorem pathTurn_args (g : Grammar) (i : Ident) (colons : Bool) (A : AngleGroup) (vs : List Spelling) :
    LeadsTo (pathTurn g) (i.spelling :: colonsSpelt colons) (do skipGenerics; nameEnd i.text)
      (A.spelt ++ vs) := by
  intro ts last hts
  obtain ⟨t, ts, rfl, ht, hts⟩ := List.map_eq_cons_iff.1 hts
  obtain ⟨hkind, hvalue⟩ := Prod.mk.inj ht
  have hnext (v : String) (w : Token) (ws : List Token) (last : Int) :
      nextIs v ⟨w :: ws, last⟩ = .ok (w.spelling.is v, ⟨w :: ws, last⟩) := nextIs_eq v _
  obtain ⟨ws, hws⟩ := A.spelt_head
  rw [hws, List.cons_append] at hts ⊢
  cases colons with
  | false =>
    obtain ⟨u, us, rfl, hu, hus⟩ := List.map_eq_cons_iff.1 hts
    refine ⟨u :: us, t.hi, by rw [List.map_cons, hu, hus], fun rest => ?_⟩
    rw [pathTurn, List.cons_append, bind_of_ok (expectName_cons hkind _ _), List.cons_append,
      bind_of_ok (hnext ..), hu, hvalue]
    rfl
  | true =>
    obtain ⟨c, cs, rfl, hc, hcs⟩ := List.map_eq_cons_iff.1 hts
    obtain ⟨u, us, rfl, hu, hus⟩ := List.map_eq_cons_iff.1 hcs
    have hless (us : List Token) :
        looksAt 1 "<" ⟨c :: u :: us, t.hi⟩ = .ok (true, ⟨c :: u :: us, t.hi⟩) := by
      rw [looksAt_second, nextSpelling, List.head?_cons, Option.map_some, hu]
      rfl
    refine ⟨u :: us, c.hi, by rw [List.map_cons, hu, hus], fun rest => ?_⟩
    rw [pathTurn, List.cons_append, bind_of_ok (expectName_cons hkind _ _), List.cons_append,
      List.cons_append, bind_of_ok (hnext ..), hc, if_neg (by decide), bind_of_ok (hnext ..), hc,
      bind_of_ok (hless _), hvalue]
    rfl

/-- A name with its generic arguments and what ends the turn through it. -/
theorem pathTurn_generic (h : A.glued = 0) (hend : Consumes N (nameEnd i.text) vs S) :
    Consumes N (pathTurn g) (i.spelling :: (colonsSpelt colons ++ A.spelt) ++ vs) S := by
  have hargs := (AngleGroup.consumes h).then fun _ _ => hend
  have hall := (pathTurn_args g i colons A vs).consumes hargs
  rwa [← List.append_assoc, List.cons_append] at hall

end Grammar

namespace GenericName

theorem turn_one (g : Grammar) {s : GenericName} (h : s.glued = 0) :
    Consumes NameNext (Grammar.pathTurn g) (s.spelt ++ [mark "::"]) (· = .one s.name.text) := by
  obtain ⟨i, _ | ⟨colons, A⟩⟩ := s
  · exact Grammar.pathTurn_one g i
  · exact Grammar.pathTurn_generic h (nameEnd_one i.text)

theorem turn_last (g : Grammar) {s : GenericName} (h : s.glued = 0) :
    Consumes (Before typeEnds) (Grammar.pathTurn g) s.spelt (· = .last s.name.text ()) := by
  obtain ⟨i, _ | ⟨colons, A⟩⟩ := s
  · exact Grammar.pathTurn_last g i
  · have hcolons (o : Option Spelling) (ho : Before typeEnds o) : o.any (·.is "::") = false :=
      ho.any_is (by decide)
    have hall : Consumes _ _ (i.spelling :: (colonsSpelt colons ++ A.spelt) ++ []) _ :=
      Grammar.pathTurn_generic (g := g) h (nameEnd_last i.text hcolons)
    rwa [List.append_nil] at hall

end GenericName

namespace GenericPath

theorem spelt_head (p : GenericPath) : ∃ ws, p.spelt = p.head.name.spelling :: ws := by
  cases p <;> exact ⟨_, rfl⟩

theorem nameNext (p : GenericPath) : NameNext p.spelt.head? := by
  obtain ⟨ws, hws⟩ := p.spelt_head
  exact ⟨p.head.name, by rw [hws, List.head?_cons]⟩

theorem consumes (g : Grammar) {p : GenericPath} (h : p.glued = 0) :
    Consumes (Before typeEnds) (collect (Grammar.pathTurn g)) p.spelt (·.1 = p.segments) := by
  induction p with
  | ends s => exact (s.turn_last g h).lastName
  | more s _ p ih =>
    obtain ⟨hs, hp⟩ := Nat.add_eq_zero_iff.1 h
    have hall := Consumes.oneName (by simp) (s.turn_one g hs) p.nameNext (ih hp)
    rwa [List.append_assoc, List.singleton_append] at hall

theorem fused_eq_false {p : GenericPath} (h : p.glued = 0) : p.fused = false := by
  induction p with
  | ends s =>
    obtain ⟨i, _ | ⟨colons, A⟩⟩ := s
    · rfl
    · exact (show A.within = 0 ∧ A.fused = false by
        simpa [glued, GenericName.glued, AngleGroup.glued] using h).2
  | more s _ p ih => exact ih (Nat.add_eq_zero_iff.1 h).2

end GenericPath

namespace Grammar

/-- A path as a type, behind the double colons that it may begin with. -/
def namesType (g : Grammar) : Parse Ty := do
  let (names, _) ← collect (pathTurn g)
  return .path names

/-- A type goes on to the names of its path. -/
theorem typeOf_names (g : Grammar) (T : GenericType) (vs : List Spelling) :
    LeadsTo (typeOf g) (colonsSpelt T.rooted) (namesType g) (T.path.spelt ++ vs) := by
  intro ts last hts
  obtain ⟨rooted, p, free⟩ := T
  obtain ⟨ws, hws⟩ := p.spelt_head
  dsimp only at hts ⊢
  rw [hws, List.cons_append] at hts ⊢
  have hpath (b : Bool) (t : Token) (us : List Token) (c : Cursor)
      (ht : t.spelling = mark "::" ∨ ∃ n : FreeName, t.spelling = n.name.spelling)
      (haccept : accept "::" ⟨t :: us, last⟩ = .ok (b, c)) :
      typeOf g ⟨t :: us, last⟩ = namesType g c := by
    rw [typeOf_pathType ht, show pathType g = accept "::" >>= fun _ => (do
      let (names, _) ← collect (pathTurn g)
      return names) from rfl, bind_assoc, bind_of_ok haccept, bind_assoc]
    rfl
  cases rooted with
  | false =>
    obtain ⟨t, ts, rfl, ht, hts⟩ := List.map_eq_cons_iff.1 hts
    refine ⟨t :: ts, last, by rw [List.map_cons, ht, hts], fun rest => ?_⟩
    have hno : t.spelling.is "::" = false := ht ▸ p.head.name.is_of_not_isWord (by decide)
    exact hpath false t (ts ++ rest) _ (.inr ⟨⟨p.head.name, free⟩, ht⟩) (accept_of_not hno)
  | true =>
    obtain ⟨t, ts, rfl, ht, hts⟩ := List.map_eq_cons_iff.1 hts
    refine ⟨ts, t.hi, hts, fun rest => hpath true t (ts ++ rest) _ (.inl ht) ?_⟩
    rw [accept, bind_of_ok (nextIs_eq "::" _), nextSpelling, List.head?_cons, Option.map_some,
      Option.any_some, ht]
    rfl

end Grammar

namespace GenericType

theorem typeOf_consumes (g : Grammar) (h : T.glued = 0) :
    Consumes (Before typeEnds) g.typeOf T.spelt (· = T.ty) := by
  have hnames : Consumes (Before typeEnds) (Grammar.namesType g) (T.path.spelt ++ []) (· = T.ty) := by
    rw [List.append_nil]
    exact .last (T.path.consumes g h) fun r hr => .pure (congrArg Ty.path hr)
  have hall := (Grammar.typeOf_names g T []).consumes hnames
  rwa [List.append_nil] at hall

/-- With no bracket in one token with an equals sign, a binding with the type is read as what it is. -/
theorem readsLet (h : T.glued = 0) : T.ReadsLet := by
  intro g ps P es E hps hes
  have hdeclared : Consumes (At "=") (Grammar.declaredType g.above) (mark ":" :: T.spelt)
      (· = some T.ty) := by
    refine .cons (.accept rfl) fun found hfound => ?_
    subst hfound
    refine .last ((T.typeOf_consumes g h).mono fun o ho => ho.before (by decide)) fun ty hty => .pure ?_
    rw [hty]
  have hequals : T.equals = [mark "="] := if_neg (by simp [GenericPath.fused_eq_false h])
  rw [hequals, List.singleton_append, ← List.cons_append]
  refine .cons (.expect rfl) fun start _ => .bind hps (fun o _ => rfl) fun p hp => ?_
  refine .bind hdeclared (fun o _ => rfl) fun ty hty => ?_
  refine .cons (.accept rfl) fun found hfound => ?_
  subst hfound
  simp only [if_true, pure_bind]
  refine .bind hes (fun o _ => rfl) fun e he => .acceptNot (fun o _ => rfl) ?_
  simp only [Bool.false_eq_true, if_false]
  exact .last (.expect rfl) fun _ _ => .spanFrom fun s => .pure ⟨s, p, e, by rw [hty], hp, he⟩

end GenericType

/-! ### Types that are not read -/

/-- Whether tokens spelt so are balanced. -/
def Balances (ws : List Spelling) : Prop := ∀ ts, ts.map Token.spelling = ws → ∃ n, Angled n ts

namespace Balances

theorem append (h : Balances ws) (h' : Balances vs) : Balances (ws ++ vs) := by
  intro ts hts
  obtain ⟨us, us', rfl, hus, hus'⟩ := List.map_eq_append_iff.1 hts
  obtain ⟨m, hm⟩ := h us hus
  obtain ⟨n, hn⟩ := h' us' hus'
  exact ⟨m + n, hm.append hn⟩

theorem nil : Balances [] := by
  intro ts hts
  obtain rfl := List.map_eq_nil_iff.1 hts
  exact ⟨0, .nil⟩

/-- A token that is no bracket. -/
theorem cons {w : Spelling} (hw : ∀ v ∈ brackets, w ≠ mark v) (h : Balances ws) :
    Balances (w :: ws) := by
  intro ts hts
  obtain ⟨t, ts, rfl, ht, hts⟩ := List.map_eq_cons_iff.1 hts
  obtain ⟨n, hn⟩ := h ts hts
  refine ⟨n, .plain (fun v hv => ?_) hn⟩
  by_contra hpunct
  rw [Bool.not_eq_false, Token.isPunct, Bool.and_eq_true, beq_iff_eq, beq_iff_eq] at hpunct
  exact hw v hv (ht ▸ Prod.ext hpunct.1 hpunct.2)

theorem name (i : Ident) (h : Balances ws) : Balances (i.spelling :: ws) := .cons (fun _ _ => nofun) h

theorem group (A : AngleGroup) : Balances A.spelt := by
  intro ts hts
  exact ⟨A.glued, A.angled_tokens.respelt hts⟩

theorem genericName (s : GenericName) : Balances s.spelt := by
  obtain ⟨i, _ | ⟨colons, A⟩⟩ := s
  · exact .name i .nil
  · cases colons with
    | false => exact .name i (.group A)
    | true => exact .name i (.cons (by decide) (.group A))

theorem path (p : GenericPath) : Balances p.spelt := by
  induction p with
  | ends s => exact .genericName s
  | more s _ p ih => exact .append (.genericName s) (.cons (by decide) ih)

end Balances

/-- With a bracket in one token with an equals sign, generic arguments run to the end of what is balanced. -/
theorem AngleGroup.rejects (h : A.glued ≠ 0) (hvs : Balances vs) :
    Rejects skipGenerics (A.spelt ++ vs) := by
  intro ts last hts
  obtain ⟨us, us', rfl, hus, hus'⟩ := List.map_eq_append_iff.1 hts
  obtain ⟨A', rfl, hglued⟩ := A.exists_respelt hus
  obtain ⟨k, hk⟩ := Nat.exists_eq_succ_of_ne_zero h
  obtain ⟨n, hn⟩ := hvs us' hus'
  refine ⟨.rejected (.atEnd .genericArguments), ?_⟩
  rw [Grammar.skipGenerics_glued (hglued.trans hk), ← List.append_nil us', Grammar.skipAngles_angled hn,
    Grammar.skipAngles_nil]

theorem GenericName.turn_rejects (g : Grammar) {s : GenericName} (h : s.glued ≠ 0) (hvs : Balances vs) :
    Rejects (Grammar.pathTurn g) (s.spelt ++ vs) := by
  obtain ⟨i, _ | ⟨colons, A⟩⟩ := s
  · exact absurd rfl h
  · have hall := (Grammar.pathTurn_args g i colons A vs).rejects (AngleGroup.rejects h hvs).bind
    rwa [← List.append_assoc, List.cons_append] at hall

/-- The names of a path are given up at the first one with a bracket in one token with an equals sign. -/
theorem GenericPath.rejects (g : Grammar) {p : GenericPath} (h : p.glued ≠ 0) (hvs : Balances vs)
    (fuel : Nat) : Rejects (collectFrom (Grammar.pathTurn g) fuel) (p.spelt ++ vs) := by
  induction p generalizing fuel with
  | ends s =>
    cases fuel with
    | zero => exact fun ts last _ => ⟨_, rfl⟩
    | succ fuel => exact (s.turn_rejects g h hvs).bind
  | more s apart p ih =>
    rw [GenericPath.spelt, List.append_assoc, List.cons_append]
    cases fuel with
    | zero => exact fun ts last _ => ⟨_, rfl⟩
    | succ fuel =>
      by_cases hs : s.glued = 0
      · have hp : p.glued ≠ 0 := by simpa [GenericPath.glued, hs] using h
        obtain ⟨ws, hws⟩ := p.spelt_head
        rw [List.append_cons]
        refine Rejects.behind (s.turn_one g hs) ⟨p.head.name, by rw [hws]; rfl⟩ fun t ht => ?_
        subst ht
        exact (ih hp fuel).bind
      · exact (s.turn_rejects g hs (.cons (by decide) (.append (.path p) hvs))).bind

namespace GenericType

theorem typeOf_rejects (g : Grammar) (h : T.glued ≠ 0) (hvs : Balances vs) :
    Rejects (Grammar.typeOf g) (T.spelt ++ vs) := by
  rw [spelt, List.append_assoc]
  refine (Grammar.typeOf_names g T vs).rejects (Rejects.bind fun ts last hts => ?_)
  exact T.path.rejects g h hvs _ ts last hts

/-- With a bracket in one token with an equals sign, the binding of a name to a name is given up. -/
theorem not_readsLet (h : T.glued ≠ 0) : ¬ T.ReadsLet := by
  intro hall
  let b : Binding := ⟨false, ⟨"p", by decide⟩, by decide, none⟩
  let e : PathName := ⟨⟨"e", by decide⟩, by decide, []⟩
  have hps : Consumes (At ":") (Grammar.pattern [":", "=", ";"]) b.nameSpelt
      fun p => p.unplaced = b.pattern :=
    (b.pattern_consumes (by decide)).mono fun o ho => ho.before (by decide)
  have hes : Consumes (At ";") (Grammar.exhausted.exprOf false) e.spellings
      fun e' => e'.unplaced = (Operand.path e).tree :=
    (Operand.ReadBy.path .exhausted e).expr.mono fun o ho => ho.before (by decide)
  have hvs : Balances (T.equals ++ (e.spellings ++ [mark ";"])) := by
    have hvalue : Balances (e.spellings ++ [mark ";"]) := .name _ (.cons (by decide) .nil)
    rw [equals]
    split
    · exact hvalue
    · exact .cons (by decide) hvalue
  refine Rejects.not_consumes ?_ (hall .exhausted b.nameSpelt _ e.spellings _ hps hes)
  refine .cons (.expect rfl) fun start _ => .behind hps rfl fun p _ => .bind ?_
  refine .cons (.accept rfl) fun found hfound => ?_
  subst hfound
  exact (T.typeOf_rejects .exhausted h hvs).bind

theorem readsLet_iff (T : GenericType) : T.ReadsLet ↔ T.glued = 0 :=
  ⟨fun hread => by_contra fun h => not_readsLet h hread, readsLet⟩

end GenericType

/-- Generic arguments are passed over exactly, and bindings with types that have some are read as what they
are, just if no bracket that closes generic arguments stands in one token with an equals sign. -/
theorem generics_exact_iff (A : AngleGroup) (T : GenericType) :
    (A.SkipsExactly ↔ A.glued = 0) ∧ (T.ReadsLet ↔ T.glued = 0) :=
  ⟨Grammar.skipsExactly_iff A, T.readsLet_iff⟩

end

/-- The arguments `<u8>` with an equals sign close behind them. -/
def fusedGenerics : AngleGroup where
  opener := ⟨.punct, "<", 12, 13, 1, 13⟩
  inner := [⟨.ident, "u8", 13, 15, 1, 14⟩]
  closer := ⟨.punct, ">=", 15, 17, 1, 16⟩
  within := 0
  fused := true
  opens := by decide
  closes := by decide
  angled := .plain (by decide) .nil

def fusedType : GenericType where
  rooted := false
  path := .ends ⟨⟨"Vec", by decide⟩, some (false, fusedGenerics)⟩
  free := by decide

/-- With an equals sign close behind its type a binding is given up, which is read with a blank in between. -/
theorem not_generics_exact :
    let ts := (tokenize "\x7b let p: Vec<u8>= e; \x7d" 0).tokens
    ts = ts.take 5 ++ (fusedGenerics.tokens ++ ts.drop 8) ∧
      skipGenerics ⟨fusedGenerics.tokens ++ ts.drop 8, 12⟩ =
        .error (.rejected (.atEnd .genericArguments)) ∧
      (readExpr "\x7b let p: Vec<u8>= e; \x7d" 0).isOk = false ∧
      (readExpr "\x7b let p: Vec<u8> = e; \x7d" 0).isOk = true ∧
      ¬ fusedGenerics.SkipsExactly ∧ ¬ fusedType.ReadsLet := by
  intro ts
  have hskip : skipGenerics ⟨fusedGenerics.tokens ++ ts.drop 8, 12⟩ =
      .error (.rejected (.atEnd .genericArguments)) := by decide +kernel
  refine ⟨by decide +kernel, hskip, by decide +kernel, by decide +kernel, fun h => ?_, ?_⟩
  · rw [h (ts.drop 8) 12] at hskip
    cases hskip
  · exact GenericType.not_readsLet (by decide)

end BuilderMigration
