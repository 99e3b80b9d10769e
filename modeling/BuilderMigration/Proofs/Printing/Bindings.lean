import BuilderMigration.Grammar.Reading
import BuilderMigration.Proofs.Grammar.Types
import BuilderMigration.Proofs.Printing.Consumes

/-! Paths, types and bindings are read as they are written, by every grammar that is deep enough. -/

namespace BuilderMigration

open Parse

/-! ### Deep grammars -/

/-- What holds of every grammar from some depth on. -/
def Deep (P : Grammar → Prop) : Prop := ∃ depth, ∀ d, depth ≤ d → P (.ofDepth d)

namespace Deep

variable {P P' : Grammar → Prop}

theorem of (h : ∀ g, P g) : Deep P := ⟨0, fun _ _ => h _⟩

theorem and (h : Deep P) (h' : Deep P') : Deep fun g => P g ∧ P' g := by
  obtain ⟨m, hm⟩ := h
  obtain ⟨n, hn⟩ := h'
  exact ⟨max m n, fun d hd => ⟨hm d (by omega), hn d (by omega)⟩⟩

theorem imp (h : Deep P) (himp : ∀ g, P g → P' g) : Deep P' := by
  obtain ⟨m, hm⟩ := h
  exact ⟨m, fun d hd => himp _ (hm d hd)⟩

/-- One round of productions above. -/
theorem above (h : Deep P) (himp : ∀ g, P g → P' g.above) : Deep P' := by
  obtain ⟨m, hm⟩ := h
  refine ⟨m + 1, fun d hd => ?_⟩
  obtain ⟨d, rfl⟩ := Nat.exists_eq_succ_of_ne_zero (Nat.ne_of_gt (Nat.lt_of_lt_of_le m.succ_pos hd))
  exact himp _ (hm d (Nat.le_of_succ_le_succ hd))

theorem all {ε : Type} {P : ε → Grammar → Prop} {es : List ε} (h : ∀ e ∈ es, Deep (P e)) :
    Deep fun g => ∀ e ∈ es, P e g := by
  induction es with
  | nil => exact .of fun _ => nofun
  | cons e es ih =>
    refine ((h e List.mem_cons_self).and (ih fun e he => h e (List.mem_cons_of_mem _ he))).imp ?_
    intro g hg e he
    rcases List.mem_cons.1 he with rfl | he
    · exact hg.1
    · exact hg.2 e he

end Deep

variable {α β : Type} {N : Option Spelling → Prop} {ws : List Spelling} {w : Spelling} {R : β → Prop}
  {g : Grammar} {v : String}

/-! ### What a text begins with -/

/-- A token that is none of some marks and words, and no lifetime. -/
def Opens (barriers : List String) (w : Spelling) : Prop :=
  w.1 ≠ .lifetime ∧ ∀ v ∈ barriers, w.is v = false

/-- A text that begins with such a token. -/
def Opened (barriers : List String) (ws : List Spelling) : Prop :=
  ∃ w ws', ws = w :: ws' ∧ Opens barriers w

variable {barriers : List String}

theorem Opened.is_head (h : Opened barriers ws) (hv : v ∈ barriers) :
    ∃ w ws', ws = w :: ws' ∧ w.is v = false := by
  obtain ⟨w, ws', rfl, hw⟩ := h
  exact ⟨w, ws', rfl, hw.2 v hv⟩

theorem Opened.any_is (h : Opened barriers ws) (hv : v ∈ barriers) (vs : List Spelling)
    (o : Option Spelling) : ((ws ++ vs).head?.or o).any (·.is v) = false :=
  any_is_of_head (h.is_head hv) vs o

theorem Opened.append (h : Opened barriers ws) (vs : List Spelling) : Opened barriers (ws ++ vs) := by
  obtain ⟨w, ws', rfl, hw⟩ := h
  exact ⟨w, ws' ++ vs, rfl, hw⟩

theorem opens_mark (h : v ∉ barriers) : Opens barriers (mark v) := by
  refine ⟨nofun, fun u hu => ?_⟩
  have hne : v ≠ u := fun he => h (he ▸ hu)
  simpa using hne

theorem opens_word (h : v ∉ barriers) : Opens barriers (.ident, v) := by
  refine ⟨nofun, fun u hu => ?_⟩
  have hne : v ≠ u := fun he => h (he ▸ hu)
  simpa [Spelling.is] using hne

theorem Ident.is_of_not_isWord (i : Ident) (h : ¬ IsWord v) : i.spelling.is v = false := by
  have hne : i.text ≠ v := fun he => h (he ▸ i.isWord)
  simpa [Ident.spelling, Spelling.is] using hne

/-- A path begins with a name that the grammar leaves free. -/
theorem PathName.opened (p : PathName) (h : ∀ v ∈ barriers, v ∈ reserved ∨ ¬ IsWord v) :
    Opened barriers p.spellings := by
  refine ⟨_, _, rfl, opens_word fun hv => ?_⟩
  rcases h _ hv with hv | hv
  · exact p.free hv
  · exact hv p.head.isWord

/-! ### Attributes -/

/-- Nothing is passed over where no attribute is next. -/
theorem Parse.Consumes.skipAttributes {f : Unit → Parse β}
    (hb : ∀ o, N o → (ws.head?.or o).any (·.is "#") = false) (h : Consumes N (f ()) ws R) :
    Consumes N (skipAttributes >>= f) ws R := by
  refine .peek (x := ()) (fun o ho c hc => iterate_of_stop ?_) h
  rw [bind_of_ok (nextIs_eq "#" c), hc, hb o ho]
  rfl

/-! ### Paths -/

/-- A name is next. -/
def NameNext (o : Option Spelling) : Prop := ∃ i : Ident, o = some i.spelling

/-- The end of a turn that reads a name of a path. -/
def nameEnd (name : String) : Parse (Turn String Unit) := do
  if (← nextIs "::") && (← looksAtKind 1 .ident) then
    skip 1
    return .one name
  return .last name ()

/-- The end of a turn behind which another follows. -/
theorem nameEnd_one (name : String) :
    Consumes NameNext (nameEnd name) [mark "::"] fun t => t = .one name := by
  refine .nextIs (b := true) (fun _ _ => rfl) ?_
  refine .peekSecond (x := true) (fun o ho t us last hus => ?_) ?_
  · obtain ⟨i, rfl⟩ := ho
    obtain ⟨u, us, rfl, hu⟩ := nextSpelling_eq_some hus
    have hkind : u.kind = .ident := congrArg Prod.fst hu
    change Except.ok ((u.kind == .ident), _) = _
    rw [hkind]
    rfl
  · exact .last .skip_one fun _ _ => .pure rfl

/-- The end of the turn that reads the last name. -/
theorem nameEnd_last (name : String) (hn : ∀ o, N o → o.any (·.is "::") = false) :
    Consumes N (nameEnd name) [] fun t => t = .last name () :=
  .nextIs (b := false) hn (.looking (.looksAtKind 1 .ident) fun _ _ => .pure rfl)

/-- A turn that reads a name behind which another follows, and the names behind it. -/
theorem Parse.Consumes.oneName {turn : Parse (Turn String Unit)} {a : String} {as : List String}
    {vs : List Spelling} (hws : ws ≠ []) (h : Consumes NameNext turn ws (· = .one a))
    (hnext : NameNext vs.head?) (hrest : Consumes N (collect turn) vs (·.1 = as)) :
    Consumes N (collect turn) (ws ++ vs) (·.1 = a :: as) := by
  have hturn := h.imp (S := fun t => ∃ b, t = .one b ∧ b = a) fun t ht => ⟨_, ht, rfl⟩
  refine (Consumes.collectOne hws hturn (fun o _ => ?_) hrest).imp fun r hr => ?_
  · obtain ⟨i, hi⟩ := hnext
    exact ⟨i, by rw [hi, Option.some_or]⟩
  · obtain ⟨b, bs, hr, rfl, hbs⟩ := hr
    exact hr.trans (congrArg (b :: ·) hbs)

/-- The turn that reads the last name. -/
theorem Parse.Consumes.lastName {turn : Parse (Turn String Unit)} {a : String}
    (h : Consumes N turn ws (· = .last a ())) : Consumes N (collect turn) ws (·.1 = [a]) := by
  have hturn := h.imp (S := fun t => ∃ b u, t = .last b u ∧ b = a) fun t ht => ⟨_, _, ht, rfl⟩
  refine hturn.collectLast.imp fun r hr => ?_
  obtain ⟨b, hr, rfl⟩ := hr
  exact hr

/-- Turns that each read a name read a path. -/
theorem consumes_names {turn : Parse (Turn String Unit)}
    (hone : ∀ i : Ident, Consumes NameNext turn [i.spelling, mark "::"] fun t => t = .one i.text)
    (hlast : ∀ i : Ident, Consumes N turn [i.spelling] fun t => t = .last i.text ()) (p : PathName) :
    Consumes N (do
      let (names, _) ← collect turn
      return names) p.spellings fun names => names = p.segments := by
  suffices h : Consumes N (collect turn) p.spellings fun r => r.1 = p.segments from
    .last h fun _ hr => .pure hr
  obtain ⟨head, free, tail⟩ := p
  simp only [PathName.spellings, PathName.segments]
  clear free
  induction tail generalizing head with
  | nil => exact (hlast head).lastName
  | cons i is ih => exact .oneName (by simp) (hone head) ⟨i, rfl⟩ (ih i)

/-! ### Types -/

/-- What comes behind a type. -/
def typeEnds : List String := [",", ")", "|", "=", ";"]

namespace Grammar

/-- One turn through the names of a path. -/
def pathTurn (g : Grammar) : Parse (Turn String Unit) := do
  let name ← expectName
  if ← nextIs "<" then skipGenerics
  else if (← nextIs "::") && (← looksAt 1 "<") then
    skip 1
    skipGenerics
  else if (← nextIs "(") && ["Fn", "FnMut", "FnOnce"].contains name then
    skipGroup
    if ← accept "->" then let _ ← g.ty
  if (← nextIs "::") && (← looksAtKind 1 .ident) then
    skip 1
    return .one name
  return .last name ()

theorem pathTurn_one (g : Grammar) (i : Ident) :
    Consumes NameNext (pathTurn g) [i.spelling, mark "::"] fun t => t = .one i.text := by
  refine .cons .expectName fun name hname => ?_
  subst hname
  refine .nextIs (b := false) (fun _ _ => rfl) (.nextIs (b := true) (fun _ _ => rfl) ?_)
  refine .peekSecond (x := false) (fun o ho t us last hus => ?_) ?_
  · obtain ⟨j, rfl⟩ := ho
    have hless : (some j.spelling).any (·.is "<") = false := j.is_of_not_isWord (by decide)
    rw [looksAt_second, hus]
    exact congrArg (fun b => Except.ok (b, _)) hless
  · exact .nextIs (b := false) (fun _ _ => rfl) (nameEnd_one _)

theorem pathTurn_last (g : Grammar) (i : Ident) :
    Consumes (Before typeEnds) (pathTurn g) [i.spelling] fun t => t = .last i.text () := by
  refine .last .expectName fun name hname => ?_
  subst hname
  have hno (v : String) (hv : v ∉ typeEnds) (o : Option Spelling) (ho : Before typeEnds o) :
      o.any (·.is v) = false := ho.any_is hv
  refine .nextIs (b := false) (hno "<" (by decide)) (.nextIs (b := false) (hno "::" (by decide)) ?_)
  refine .looking (.looksAt 1 "<") fun _ _ => .nextIs (b := false) (hno "(" (by decide)) ?_
  exact nameEnd_last _ (hno "::" (by decide))

end Grammar

theorem pathType_consumes (g : Grammar) (p : PathName) :
    Consumes (Before typeEnds) g.pathType p.spellings fun names => names = p.segments := by
  refine .acceptNot (fun o _ => p.head.is_of_not_isWord (by decide)) ?_
  exact consumes_names g.pathTurn_one g.pathTurn_last p

/-- What a type has to begin with, for the marks in front of it not to go on. -/
def typeBarriers : List String := ["mut", ")"]

namespace Grammar

/-- A token that begins a path begins a path as a type. -/
theorem typeOf_pathType {t : Token}
    (h : t.spelling = mark "::" ∨ ∃ n : FreeName, t.spelling = n.name.spelling) (us : List Token)
    (last : Int) : typeOf g ⟨t :: us, last⟩ = (do return Ty.path (← pathType g)) ⟨t :: us, last⟩ := by
  rw [typeOf, look_head]
  dsimp only
  rcases h with h | ⟨n, h⟩
  · obtain ⟨hkind, hvalue⟩ := Prod.mk.inj h
    simp [Token.isPunct, Token.isKeyword, hkind, hvalue]
  · obtain ⟨hkind, hvalue⟩ := Prod.mk.inj h
    have hpunct (v : String) : t.isPunct v = false := by simp [Token.isPunct, hkind]
    have hkeyword (v : String) (hv : v ∈ reserved) : t.isKeyword v = false := by
      have hne : n.name.text ≠ v := fun he => n.free (he ▸ hv)
      simpa [Token.isKeyword, hkind, hvalue] using hne
    simp only [hpunct, hkeyword "impl" (by decide), hkeyword "dyn" (by decide),
      hkeyword "for" (by decide), hkeyword "fn" (by decide), hkeyword "unsafe" (by decide),
      hkeyword "extern" (by decide), hkind, Bool.or_false, Bool.false_eq_true, if_false, reduceCtorEq,
      decide_true, if_true]

/-- A type that begins with a name is a path. -/
theorem typeOf_name {n : FreeName} {Q : List String → Prop}
    (h : Consumes N g.pathType (n.name.spelling :: ws) Q) :
    Consumes N g.typeOf (n.name.spelling :: ws) fun ty => ∃ names, ty = .path names ∧ Q names := by
  intro ts rest last hts hn
  obtain ⟨t, us, rfl, ht, -⟩ := List.map_eq_cons_iff.1 hts
  obtain ⟨names, last', hnames, hQ⟩ := h (t :: us) rest last hts hn
  refine ⟨.path names, last', ?_, names, rfl, hQ⟩
  rw [List.cons_append, typeOf_pathType (.inr ⟨n, ht⟩)]
  exact bind_of_ok hnames

/-- What may stand behind the mark of a reference. -/
def referenceSpelt (lifetime : Option Ident) (mutable : Bool) : List Spelling :=
  (match lifetime with | none => [] | some i => [(.lifetime, "'" ++ i.text)]) ++
    (if mutable then [keyword "mut"] else [])

/-- A reference, or with the mark for two of them the outer one of two. -/
theorem typeOf_reference (twice : Bool) (lifetime : Option Ident) (mutable : Bool) {inner : Ty}
    (hws : Opened typeBarriers ws) (h : Consumes N g.ty ws (· = inner)) :
    Consumes N g.typeOf
      (mark (if twice then "&&" else "&") :: (referenceSpelt lifetime mutable ++ ws))
      (· = if twice then .ref (.ref inner mutable) false else .ref inner mutable) := by
  refine .lookHead fun t ht => ?_
  obtain ⟨hkind, hvalue⟩ := Prod.mk.inj ht
  have hamp : (t.isPunct "&" || t.isPunct "&&") = true := by
    cases twice <;> simp [Token.isPunct, hkind, hvalue]
  have htwice : t.value = "&&" ↔ twice = true := by
    cases twice <;> simp [hvalue]
  dsimp only
  rw [if_pos hamp]
  have hinner : Consumes N (do
      let inner ← g.ty
      let ty := Ty.ref inner mutable
      return if t.value = "&&" then .ref ty false else ty) ws
      (· = if twice then .ref (.ref inner mutable) false else .ref inner mutable) := by
    refine .last h fun ty hty => .pure ?_
    rw [hty]
    simp only [htwice]
  have hmut := hws.is_head (v := "mut") (by decide)
  have hmutable : Consumes N (do
      let mutable ← accept "mut"
      let inner ← g.ty
      let ty := Ty.ref inner mutable
      return if t.value = "&&" then .ref ty false else ty)
      ((if mutable then [keyword "mut"] else []) ++ ws)
      (· = if twice then .ref (.ref inner mutable) false else .ref inner mutable) := by
    cases mutable with
    | true =>
      refine .cons (.accept rfl) fun found hfound => ?_
      subst hfound
      exact hinner
    | false =>
      refine .acceptNot (fun o _ => ?_) hinner
      simpa using any_is_of_head hmut [] o
  refine .cons .skip_one fun _ _ => ?_
  cases lifetime with
  | none =>
    refine .acceptKindNot (fun o _ => ?_) hmutable
    obtain ⟨w, ws, hw, hopens⟩ := hws
    cases mutable <;> simp [referenceSpelt, hw, hopens.1, keyword]
  | some i => exact .cons (.acceptKind rfl) fun _ _ => hmutable

/-- Behind a single thing stands a comma. -/
def singleSpelt {ε : Type} : List ε → List Spelling
  | [_] => [mark ","]
  | _ => []

variable {ε : Type} {spell : ε → List Spelling} {tyOf : ε → Ty} {elems : List ε}

/-- The elements of a tuple, of which a single one has a comma behind it. -/
theorem tuple_list (hhead : ∀ a ∈ elems, ∃ w ws, spell a = w :: ws ∧ w.is ")" = false)
    (h : ∀ a ∈ elems, Consumes (Before typeEnds) g.ty (spell a) (· = tyOf a)) :
    Consumes (At ")") (commaList ")" g.ty) (commas (elems.map spell) ++ singleSpelt elems)
      fun r => r.1 = elems.map tyOf ∧ (elems.length = 1 → r.2 = true) := by
  have hitem (a : ε) (ha : a ∈ elems) :
      Consumes (Before [",", ")"]) g.ty (spell a) fun ty => id ty = tyOf a :=
    (h a ha).mono fun o ho => ho.mono (by decide)
  have hmany := Consumes.commaList (by decide) hhead hitem
  match elems with
  | [a] =>
    have hone := Consumes.commaListOne (hhead a List.mem_cons_self) (hitem a List.mem_cons_self)
    rw [List.map_singleton, commas_singleton]
    refine hone.imp fun r hr => ?_
    obtain ⟨ty, rfl, rfl⟩ := hr
    exact ⟨rfl, fun _ => rfl⟩
  | [] => exact hmany.imp fun r hr => ⟨by simpa using hr.1, nofun⟩
  | a :: a' :: as =>
    rw [show singleSpelt (a :: a' :: as) = [] from rfl, List.append_nil]
    exact hmany.imp fun r hr => ⟨by simpa using hr.1, nofun⟩

/-- Types in parentheses. -/
theorem typeOf_parens (hhead : ∀ a ∈ elems, ∃ w ws, spell a = w :: ws ∧ w.is ")" = false)
    (h : ∀ a ∈ elems, Consumes (Before typeEnds) g.ty (spell a) (· = tyOf a)) :
    Consumes N g.typeOf
      (mark "(" :: (commas (elems.map spell) ++ (singleSpelt elems ++ [mark ")"])))
      (· = .tuple (elems.map tyOf)) := by
  refine .lookHead fun t ht => ?_
  obtain ⟨hkind, hvalue⟩ := Prod.mk.inj ht
  have hamp : ¬ (t.isPunct "&" || t.isPunct "&&") = true := by simp [Token.isPunct, hkind, hvalue]
  have hstar : ¬ t.isPunct "*" = true := by simp [Token.isPunct, hkind, hvalue]
  have hopen : t.isPunct "(" = true := by simp [Token.isPunct, hkind, hvalue]
  dsimp only
  rw [if_neg hamp, if_neg hstar, if_pos hopen, ← List.append_assoc]
  refine .cons .skip_one fun _ _ => .bind (tuple_list hhead h) (fun _ _ => rfl) fun r hr => ?_
  refine .last (.expect rfl) fun _ _ => ?_
  obtain ⟨tys, trailing⟩ := r
  obtain ⟨rfl, hsingle⟩ := hr
  split
  · next ty htys htrailing =>
    -- a single type without a comma behind it would stand for itself
    have hlength : elems.length = 1 := by
      have := congrArg List.length (htys : elems.map tyOf = [ty])
      rwa [List.length_map] at this
    rw [hsingle hlength] at htrailing
    cases htrailing
  · exact .pure rfl

end Grammar

namespace TypePhrase

/-- A grammar reads a type as it is written. -/
def ReadBy (a : TypePhrase) (g : Grammar) : Prop :=
  Consumes (Before typeEnds) g.ty a.spellings fun ty => ty = a.ty

theorem opened (a : TypePhrase) : Opened typeBarriers a.spellings := by
  cases a with
  | ref mutable inner => exact ⟨_, _, rfl, opens_mark (by decide)⟩
  | path p => exact p.opened (by decide)
  | tuple elems => exact ⟨_, _, rfl, opens_mark (by decide)⟩

theorem eachSpelt_eq (as : List TypePhrase) : eachSpelt as = as.map spellings := by
  induction as with
  | nil => rfl
  | cons a as ih => rw [eachSpelt, ih, List.map_cons]

theorem tys_eq (as : List TypePhrase) : tys as = as.map ty := by
  induction as with
  | nil => rfl
  | cons a as ih => rw [tys, ih, List.map_cons]

theorem read_path (g : Grammar) (p : PathName) :
    Consumes (Before typeEnds) g.typeOf (path p).spellings fun ty => ty = (path p).ty := by
  refine (Grammar.typeOf_name (n := ⟨p.head, p.free⟩) (pathType_consumes g p)).imp fun ty hty => ?_
  obtain ⟨names, rfl, rfl⟩ := hty
  rw [ty]

/-- A reference, perhaps to something mutable. -/
theorem read_ref {g : Grammar} {mutable : Bool} {inner : TypePhrase} (h : inner.ReadBy g) :
    Consumes (Before typeEnds) g.typeOf (ref mutable inner).spellings
      fun ty => ty = (ref mutable inner).ty :=
  Grammar.typeOf_reference false none mutable inner.opened h

/-- Types in parentheses; a single one has a comma behind it. -/
theorem read_tuple {g : Grammar} {elems : List TypePhrase} (h : ∀ a ∈ elems, a.ReadBy g) :
    Consumes (Before typeEnds) g.typeOf (tuple elems).spellings
      fun ty => ty = (tuple elems).ty := by
  have hcomma : lastComma elems = Grammar.singleSpelt elems := by
    match elems with
    | [] | [_] | _ :: _ :: _ => rfl
  have hhead (a : TypePhrase) := a.opened.is_head (v := ")") (by decide)
  rw [spellings, eachSpelt_eq, hcomma, ty, tys_eq, List.append_assoc]
  exact Grammar.typeOf_parens (fun a _ => hhead a) h

mutual

/-- Deep grammars read types as they are written. -/
theorem read : ∀ a : TypePhrase, Deep a.ReadBy
  | .ref _ inner => (read inner).above fun _ h => read_ref h
  | .path p => (Deep.of fun _ => trivial).above fun g _ => read_path g p
  | .tuple elems => (Deep.all (read_each elems)).above fun _ h => read_tuple h

theorem read_each : ∀ as : List TypePhrase, ∀ a ∈ as, Deep a.ReadBy
  | a :: _, _, .head _ => read a
  | _ :: as, b, .tail _ hb => read_each as b hb

end

end TypePhrase

/-! ### Bindings -/

theorem sweep_apply {σ : Type} (judge : σ → Token → Verdict σ) (ended : Option Unfinished) (s : σ)
    (c : Cursor) : sweep judge ended s c =
      match sweepFrom judge ended [] s c.last c.rest with
      | .ok c' => .ok ((), c')
      | .error e => .error (.rejected e) := by
  change (match sweepFrom judge ended [] s c.last c.rest with
    | .ok c' => set c'
    | .error e => throw (.rejected e) : Parse Unit) c = _
  cases sweepFrom judge ended [] s c.last c.rest <;> rfl

/-- A text of tokens that open no group, and are no stop, is passed over up to a stop. -/
theorem sweepFrom_stop {stops : List String} {ts rest : List Token} (last : Int)
    (hpass : ∀ t ∈ ts, t.isOneOf stops = false ∧ t.closes? = none ∧ t.opens? = none)
    (hstop : ∀ t ∈ rest.head?, t.isOneOf stops = true) :
    ∃ last', sweepFrom (σ := Unit)
      (fun _ t => if t.isOneOf stops || t.closes?.isSome then .halt else .pass ()) none [] ()
      last (ts ++ rest) = .ok ⟨rest, last'⟩ := by
  induction ts generalizing last with
  | nil =>
    refine ⟨last, ?_⟩
    cases rest with
    | nil => rfl
    | cons t us =>
      rw [List.nil_append, sweepFrom, hstop t rfl]
      rfl
  | cons t ts ih =>
    obtain ⟨hno, hclose, hopen⟩ := hpass t List.mem_cons_self
    obtain ⟨last', h⟩ := ih t.hi fun u hu => hpass u (List.mem_cons_of_mem _ hu)
    refine ⟨last', ?_⟩
    rw [List.cons_append, sweepFrom, hno, hclose]
    simpa [hopen] using h

namespace Binding

/-- Only the name of a binding is read as its pattern. -/
theorem patternTokens_consumes (b : Binding) {stops : List String}
    (hstops : ∀ v ∈ stops, ¬ IsWord v) :
    Consumes (Before stops) (Grammar.patternTokens stops) b.nameSpelt
      fun ts => ts.map Token.spelling = b.nameSpelt := by
  intro ts rest last hts hstop
  have hwords : ∀ w ∈ b.nameSpelt, ∃ v, w = (.ident, v) ∧ IsWord v := by
    intro w hw
    obtain ⟨mutable, name, named, ty⟩ := b
    cases mutable with
    | false =>
      obtain rfl : w = name.spelling := by simpa [nameSpelt] using hw
      exact ⟨_, rfl, name.isWord⟩
    | true =>
      rcases (by simpa [nameSpelt] using hw : w = keyword "mut" ∨ w = name.spelling) with rfl | rfl
      · exact ⟨_, rfl, by decide⟩
      · exact ⟨_, rfl, name.isWord⟩
  have hpass : ∀ t ∈ ts, t.isOneOf stops = false ∧ t.closes? = none ∧ t.opens? = none := by
    intro t ht
    obtain ⟨v, hv, hword⟩ := hwords t.spelling (hts ▸ List.mem_map_of_mem ht)
    obtain ⟨hkind, rfl⟩ := Prod.mk.inj hv
    have hno : t.value ∉ stops := fun h => hstops _ h hword
    simp [Token.isOneOf, Token.closes?, Token.opens?, Token.isPunct, hkind, hno]
  have hrest : ∀ t ∈ rest.head?, t.isOneOf stops = true := by
    intro t ht
    obtain ⟨v, hv, hnext⟩ := hstop t.spelling (Option.mem_map_of_mem Token.spelling ht)
    obtain ⟨hkind, hvalue⟩ := Prod.mk.inj hnext
    simp [Token.isOneOf, hkind, hvalue, hv]
  obtain ⟨last', hsweep⟩ := sweepFrom_stop last hpass hrest
  have hne : ts ≠ [] := by
    rintro rfl
    obtain ⟨mutable, name, named, ty⟩ := b
    cases mutable <;> cases hts
  have hget (c : Cursor) : (get : Parse Cursor) c = .ok (c, c) := rfl
  have hread : Parse.sweep (fun (_ : Unit) t =>
      if t.isOneOf stops || t.closes?.isSome then .halt else .pass ()) none () ⟨ts ++ rest, last⟩ =
      .ok ((), ⟨rest, last'⟩) := by
    rw [sweep_apply, hsweep]
  have htake : (ts ++ rest).take ((ts ++ rest).length - rest.length) = ts := by
    rw [List.length_append, Nat.add_sub_cancel, List.take_left]
  refine ⟨ts, last', ?_, hts⟩
  unfold Grammar.patternTokens
  rw [bind_of_ok (hget _)]
  dsimp only
  rw [bind_of_ok hread, bind_of_ok (hget _)]
  dsimp only
  rw [htake]
  cases ts with
  | nil => exact absurd rfl hne
  | cons t ts => rfl

/-- The name of a binding is read as its pattern. -/
theorem pattern_consumes (b : Binding) {stops : List String} (hstops : ∀ v ∈ stops, ¬ IsWord v) :
    Consumes (Before stops) (Grammar.pattern stops) b.nameSpelt
      fun p => p.unplaced = b.pattern := by
  refine .last (b.patternTokens_consumes hstops) fun ts hts => .pure ?_
  obtain ⟨mutable, name, named, ty⟩ := b
  cases mutable with
  | false =>
    obtain ⟨t, ts, rfl, ht, hnil⟩ := List.map_eq_cons_iff.1 hts
    obtain rfl := List.map_eq_nil_iff.1 hnil
    obtain ⟨hkind, hvalue⟩ := Prod.mk.inj ht
    have hplain : t.kind = .ident ∧ t.value ≠ "_" := ⟨hkind, hvalue ▸ named⟩
    dsimp only [Grammar.Pattern.ofTokens]
    rw [if_pos hplain, hvalue]
    rfl
  | true =>
    obtain ⟨t, us, rfl, ht, hus⟩ := List.map_eq_cons_iff.1 hts
    obtain ⟨u, us, rfl, hu, hnil⟩ := List.map_eq_cons_iff.1 hus
    obtain rfl := List.map_eq_nil_iff.1 hnil
    obtain ⟨hkind, hvalue⟩ := Prod.mk.inj ht
    obtain ⟨hkind', hvalue'⟩ := Prod.mk.inj hu
    have hmut : t.isKeyword "mut" ∧ u.kind = .ident :=
      ⟨by simp [Token.isKeyword, hkind, hvalue], hkind'⟩
    dsimp only [Grammar.Pattern.ofTokens]
    rw [if_pos hmut, hvalue']
    rfl

/-- Deep grammars read the type that a binding may have. -/
theorem declaredType_consumes (b : Binding) : Deep fun g =>
    Consumes (Before [",", "|", "=", ";"]) (Grammar.declaredType g) b.typeSpelt
      fun ty => ty = b.ty.map (·.ty) := by
  obtain ⟨mutable, name, named, ty⟩ := b
  cases ty with
  | none =>
    refine .of fun g => .acceptNot (fun o ho => ?_) (.pure rfl)
    exact ho.any_is (by decide)
  | some a =>
    refine a.read.imp fun g hg => ?_
    refine .cons (.accept rfl) fun found hfound => ?_
    subst hfound
    exact .last (hg.mono fun o ho => ho.mono (by decide)) fun ty hty => .pure (by rw [hty]; rfl)

/-- What stands behind the name of a binding. -/
theorem typeSpelt_head (b : Binding) {stops : List String} {o : Option Spelling}
    (ho : Before stops o) (hcolon : ":" ∈ stops) : Before stops (b.typeSpelt.head?.or o) := by
  obtain ⟨mutable, name, named, ty⟩ := b
  cases ty with
  | none => exact ho
  | some a => exact before_mark hcolon

/-- Deep grammars read a parameter as it is written. -/
theorem closureParam_consumes (b : Binding) : Deep fun g =>
    Consumes (Before [",", "|"]) (Grammar.closureParam g) b.spellings
      fun p => p.unplaced = b.param := by
  refine b.declaredType_consumes.imp fun g hg => ?_
  have hhash (o : Option Spelling) : (b.spellings.head?.or o).any (·.is "#") = false := by
    obtain ⟨mutable, name, named, ty⟩ := b
    cases mutable with
    | false => exact name.is_of_not_isWord (by decide)
    | true => rfl
  refine .skipAttributes (fun o _ => hhash o) (.look 0 fun t => ?_)
  refine .bind (b.pattern_consumes (by decide)) (fun o ho => ?_) fun p hp => ?_
  · exact b.typeSpelt_head (ho.mono (by decide)) (by decide)
  · refine .last (hg.mono fun o ho => ho.mono (by decide)) fun ty hty => .spanFrom fun s => .pure ?_
    rw [Param.unplaced, hp, hty, param]

theorem opened (b : Binding) : ∃ w ws, b.spellings = w :: ws ∧ w.is "|" = false := by
  obtain ⟨mutable, name, named, ty⟩ := b
  cases mutable with
  | false => exact ⟨_, _, rfl, name.is_of_not_isWord (by decide)⟩
  | true => exact ⟨_, _, rfl, rfl⟩

/-- Deep grammars read parameters between bars. -/
theorem closureParams_consumes (bs : List Binding) : Deep fun g =>
    Consumes (fun _ => True) (Grammar.closureParams g) (barred bs)
      fun ps => ps.map (·.unplaced) = bs.map (·.param) := by
  refine (Deep.all fun b (_ : b ∈ bs) => b.closureParam_consumes).imp fun g hg => ?_
  cases bs with
  | nil =>
    refine .last (.accept rfl) fun found hfound => ?_
    subst hfound
    exact .pure rfl
  | cons b bs =>
    refine .acceptNot (fun _ _ => rfl) (.cons (.expect rfl) fun _ _ => ?_)
    refine .bind (.commaList (by decide) (fun b _ => b.opened) hg) (fun _ _ => rfl) fun r hr => ?_
    exact .last (.expect rfl) fun _ _ => .pure hr.1

end Binding

end BuilderMigration
