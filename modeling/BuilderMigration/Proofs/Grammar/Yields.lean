import BuilderMigration.Grammar.Reading
import BuilderMigration.Proofs.Token.Order

/-! A logic of outcomes for reading. Two readers that differ only in how deep the grammar below them
goes are followed side by side: they end alike, what they read has a property, and a failure other
than a rejection has an excuse in the text. -/

namespace BuilderMigration

/-- The mark of an attribute where no attribute begins. -/
def StrayMark : List Token → Prop
  | [] => False
  | t :: ts => t.isPunct "#" ∧
      ¬ (ts[0]?.any (·.is "[") ∨ (ts[0]?.any (·.is "!") ∧ ts[1]?.any (·.is "[")))

/-- Somewhere in a text stands the mark of an attribute where no attribute begins. -/
def HasStrayMark (ts : List Token) : Prop := ∃ us, us <:+ ts ∧ StrayMark us

/-- A text ends in an expression that is a statement but for its semicolon: the tokens at its end
are such an expression to the last. -/
def EndsInExpression (ts : List Token) : Prop :=
  ∃ depth last us e stop, us <:+ ts ∧ e.isBlockLike = false ∧
    Grammar.statementExprOf (.ofDepth depth) ⟨us, last⟩ = .ok (e, ⟨[], stop⟩)

/-- What it takes for a text to be read to a failure. -/
def Failure.Excused (ts : List Token) : Failure → Prop
  | .rejected _ => True
  | .cutStatement => EndsInExpression ts
  | .endless => HasStrayMark ts

namespace Parse

variable {α β σ : Type} {ts : List Token} {c : Cursor}

/-- From `c` both readers end alike: in a result with the property `Q`, or in an excused failure. -/
def Yields (ts : List Token) (p p' : Parse α) (c : Cursor) (Q : α → Cursor → Prop) : Prop :=
  p c = p' c ∧ match p c with
    | .ok (a, c') => Q a c'
    | .error f => f.Excused ts

variable {p p' q q' : Parse α} {f f' : α → Parse β} {Q R : α → Cursor → Prop}
  {S : β → Cursor → Prop}

theorem Yields.imp (h : Yields ts p p' c Q) (hq : ∀ a c', Q a c' → R a c') :
    Yields ts p p' c R := by
  obtain ⟨he, h⟩ := h
  refine ⟨he, ?_⟩
  cases hp : p c with
  | ok r => rw [hp] at h; exact hq _ _ h
  | error f => rw [hp] at h; exact h

theorem Yields.pure {a : α} (h : Q a c) : Yields ts (pure a) (pure a) c Q := ⟨rfl, h⟩

theorem bind_apply (p : Parse α) (f : α → Parse β) (c : Cursor) :
    (p >>= f) c = match p c with
      | .ok (a, c') => f a c'
      | .error e => .error e := by
  change (p c >>= fun x => f x.1 x.2) = _
  cases p c <;> rfl

theorem bind_of_ok {a : α} {c' : Cursor} (h : p c = .ok (a, c')) : (p >>= f) c = f a c' := by
  rw [bind_apply, h]

theorem expect_cons {v : String} {t : Token} (ht : t.is v = true) (us : List Token) (last : Int) :
    expect v ⟨t :: us, last⟩ = .ok (t, ⟨us, t.hi⟩) := by
  change (if t.is v then next else rejectAt t _) ⟨t :: us, last⟩ = _
  rw [if_pos ht]
  rfl

/-- One reader behind another, with the outcome of the first at hand. -/
theorem Yields.bind_eq (hp : Yields ts p p' c Q)
    (hf : ∀ a c', p c = .ok (a, c') → Q a c' → Yields ts (f a) (f' a) c' S) :
    Yields ts (p >>= f) (p' >>= f') c S := by
  obtain ⟨he, h⟩ := hp
  simp only [Yields, bind_apply, ← he]
  cases hp : p c with
  | ok r =>
    rw [hp] at h
    exact hf _ _ hp h
  | error e =>
    rw [hp] at h
    exact ⟨rfl, h⟩

/-- One reader behind another. -/
theorem Yields.bind (hp : Yields ts p p' c Q)
    (hf : ∀ a c', Q a c' → Yields ts (f a) (f' a) c' S) :
    Yields ts (p >>= f) (p' >>= f') c S :=
  hp.bind_eq fun a c' _ => hf a c'

theorem Yields.ite {b : Prop} [Decidable b] (hp : b → Yields ts p p' c Q)
    (hq : ¬ b → Yields ts q q' c Q) :
    Yields ts (if b then p else q) (if b then p' else q') c Q := by
  by_cases h : b
  · simpa [h] using hp h
  · simpa [h] using hq h

theorem Yields.reject (t : Token) (cause : SyntaxError.Cause) :
    Yields ts (rejectAt t cause) (rejectAt t cause) c Q := ⟨rfl, trivial⟩

theorem Yields.rejectEnd (during : Unfinished) :
    Yields ts (Parse.rejectEnd during) (Parse.rejectEnd during) c Q := ⟨rfl, trivial⟩

theorem Yields.throw {e : SyntaxError} :
    Yields ts (throw (.rejected e) : Parse α) (throw (.rejected e)) c Q := ⟨rfl, trivial⟩

/-! ### Looking ahead -/

/-- A reader that only looks hands on what it sees. -/
theorem Yields.peek {p : Parse α} {a : α} (hp : p c = .ok (a, c))
    (h : Yields ts (f a) (f' a) c S) : Yields ts (p >>= f) (p >>= f') c S := by
  simpa only [Yields, bind_apply, hp] using h

theorem Yields.lookAhead {g g' : Option Token → Parse β} (k : Nat)
    (h : Yields ts (g c.rest[k]?) (g' c.rest[k]?) c S) :
    Yields ts (look k >>= g) (look k >>= g') c S := .peek rfl h

/-- A look at the next token, which there may be or not. -/
theorem Yields.lookNext {g g' : Option Token → Parse β}
    (hnil : c.rest = [] → Yields ts (g none) (g' none) c S)
    (hcons : ∀ t us, c.rest = t :: us → Yields ts (g (some t)) (g' (some t)) c S) :
    Yields ts (look 0 >>= g) (look 0 >>= g') c S := by
  refine .lookAhead 0 ?_
  cases hr : c.rest with
  | nil => exact hnil hr
  | cons t us => exact hcons t us hr

variable {b b' : Bool → Parse β}

theorem Yields.looksAt (k : Nat) (v : String)
    (h : Yields ts (b (c.rest[k]?.any (·.is v))) (b' (c.rest[k]?.any (·.is v))) c S) :
    Yields ts (looksAt k v >>= b) (looksAt k v >>= b') c S := .peek rfl h

theorem Yields.looksAtOneOf (k : Nat) (vs : List String)
    (h : Yields ts (b (c.rest[k]?.any (·.isOneOf vs))) (b' (c.rest[k]?.any (·.isOneOf vs))) c S) :
    Yields ts (looksAtOneOf k vs >>= b) (looksAtOneOf k vs >>= b') c S := .peek rfl h

theorem Yields.looksAtKind (k : Nat) (kind : TokenKind)
    (h : Yields ts (b (c.rest[k]?.any (·.kind == kind))) (b' (c.rest[k]?.any (·.kind == kind)))
      c S) :
    Yields ts (looksAtKind k kind >>= b) (looksAtKind k kind >>= b') c S := .peek rfl h

/-- A look at whether the next token is `v`. -/
theorem Yields.nextIs (v : String)
    (htrue : (∃ t us, c.rest = t :: us ∧ t.is v = true) → Yields ts (b true) (b' true) c S)
    (hfalse : (∀ t us, c.rest = t :: us → t.is v = false) → Yields ts (b false) (b' false) c S) :
    Yields ts (nextIs v >>= b) (nextIs v >>= b') c S := by
  refine .looksAt 0 v ?_
  cases hr : c.rest with
  | nil => exact hfalse (by simp [hr])
  | cons t us =>
    simp only [List.getElem?_cons_zero, Option.any_some]
    cases ht : t.is v with
    | true => exact htrue ⟨t, us, hr, ht⟩
    | false => exact hfalse (by simp [hr, ht])

/-- A reader that only looks, at whatever place, and sees something with a property. -/
def Looks (p : Parse α) (P : α → Prop) : Prop := ∀ c, ∃ a, p c = .ok (a, c) ∧ P a

theorem Looks.pure {P : α → Prop} {a : α} (h : P a) : Looks (pure a) P := fun _ => ⟨a, rfl, h⟩

theorem Looks.bind {P : α → Prop} {R : β → Prop} (hp : Looks p P) (hf : ∀ a, P a → Looks (f a) R) :
    Looks (p >>= f) R := by
  intro c
  obtain ⟨a, ha, hP⟩ := hp c
  obtain ⟨b, hb, hR⟩ := hf a hP c
  exact ⟨b, by rw [bind_apply, ha]; exact hb, hR⟩

theorem Looks.ite {b : Prop} [Decidable b] {P : α → Prop} (hp : Looks p P) (hq : Looks q P) :
    Looks (if b then p else q) P := by
  by_cases h : b
  · simpa [h] using hp
  · simpa [h] using hq

theorem Looks.look (k : Nat) : Looks (look k) fun _ => True := fun _ => ⟨_, rfl, trivial⟩

theorem Looks.looksAt (k : Nat) (v : String) : Looks (looksAt k v) fun _ => True :=
  .bind (.look k) fun _ _ => .pure trivial

theorem Looks.looksAtOneOf (k : Nat) (vs : List String) : Looks (looksAtOneOf k vs) fun _ => True :=
  .bind (.look k) fun _ _ => .pure trivial

theorem Looks.looksAtKind (k : Nat) (kind : TokenKind) :
    Looks (looksAtKind k kind) fun _ => True :=
  .bind (.look k) fun _ _ => .pure trivial

theorem Yields.looking {P : α → Prop} (hp : Looks p P)
    (h : ∀ a, P a → Yields ts (f a) (f' a) c S) : Yields ts (p >>= f) (p >>= f') c S := by
  obtain ⟨a, ha, hP⟩ := hp c
  exact .peek ha (h a hP)

/-! ### Single tokens -/

/-- Reading the token `t`, which takes a cursor to another. -/
structure Takes (ts : List Token) (t : Token) (c c' : Cursor) : Prop where
  rest : c.rest = t :: c'.rest
  last : c'.last = t.hi
  passes : c.Passes ts c'

/-- Reading the next token if it is the right one. -/
structure Accepts (ts : List Token) (found : Bool) (c c' : Cursor) : Prop where
  moves : c.Moves ts c'
  passes : found = true → c.Passes ts c'
  stays : found = false → c' = c

variable {v : String}

theorem Yields.next (hc : c.On ts) :
    Yields ts next next c (fun t c' => Takes ts t c c') := by
  refine ⟨rfl, ?_⟩
  cases hr : c.rest with
  | nil => simp [Parse.next, hr, Failure.Excused]
  | cons t us =>
    simp only [Parse.next, hr]
    exact ⟨hr, rfl, hc.passes hr⟩

theorem Yields.skip (hc : c.On ts) (n : Nat) :
    Yields ts (skip n) (skip n) c (fun _ c' => c.Moves ts c') := by
  induction n generalizing c with
  | zero => exact .pure hc.stays
  | succ n ih =>
    refine .bind (.next hc) fun t c₁ h₁ => ?_
    exact (ih h₁.passes.on).imp fun _ c' h => h₁.passes.moves.trans h

theorem Yields.skip_pos (hc : c.On ts) {n : Nat} (hn : 0 < n) :
    Yields ts (Parse.skip n) (Parse.skip n) c (fun _ c' => c.Passes ts c') := by
  obtain ⟨m, rfl⟩ := Nat.exists_eq_succ_of_ne_zero (Nat.ne_of_gt hn)
  refine .bind (.next hc) fun t c₁ h₁ => ?_
  exact (Yields.skip h₁.passes.on m).imp fun _ c' h => h₁.passes.trans h

theorem Yields.skip_one (hc : c.On ts) :
    Yields ts (Parse.skip 1) (Parse.skip 1) c (fun _ c' => c.Passes ts c') :=
  .skip_pos hc Nat.one_pos

theorem Yields.accept (hc : c.On ts) (v : String) :
    Yields ts (accept v) (accept v) c (fun found c' => Accepts ts found c c') := by
  refine .nextIs v (fun _ => ?_) fun _ => .pure ⟨hc.stays, nofun, fun _ => rfl⟩
  refine .bind (.next hc) fun t c₁ h₁ => .pure ⟨h₁.passes.moves, fun _ => h₁.passes, nofun⟩

theorem Yields.acceptKind (hc : c.On ts) (kind : TokenKind) :
    Yields ts (acceptKind kind) (acceptKind kind) c (fun found c' => Accepts ts found c c') := by
  refine .looksAtKind 0 kind (.ite (fun _ => ?_) fun _ => ?_)
  · exact .bind (.next hc) fun t c₁ h₁ => .pure ⟨h₁.passes.moves, fun _ => h₁.passes, nofun⟩
  · exact .pure ⟨hc.stays, nofun, fun _ => rfl⟩

theorem Yields.expect (hc : c.On ts) (v : String) :
    Yields ts (expect v) (expect v) c (fun t c' => Takes ts t c c') :=
  .lookNext (fun _ => .rejectEnd _) fun _ _ _ => .ite (fun _ => .next hc) fun _ => .reject ..

theorem Yields.expectName (hc : c.On ts) :
    Yields ts expectName expectName c (fun _ c' => c.Passes ts c') := by
  refine .lookNext (fun _ => .rejectEnd _) fun t us _ => .ite (fun _ => ?_) fun _ => .reject ..
  exact .bind (.next hc) fun _ c₁ h₁ => .pure h₁.passes

/-- The span up to the last token read. -/
theorem Yields.spanFrom {g g' : Span → Parse β} (lo : Int)
    (h : Yields ts (g ⟨lo, c.last, 0⟩) (g' ⟨lo, c.last, 0⟩) c S) :
    Yields ts (spanFrom lo >>= g) (spanFrom lo >>= g') c S := .peek rfl h

/-- Where a reader is rejected another begins from the same place. -/
theorem Yields.orElse (hp : Yields ts p p' c Q) (hq : Yields ts q q' c Q) :
    Yields ts (orElse p q) (orElse p' q') c Q := by
  obtain ⟨he, hp⟩ := hp
  simp only [Yields, Parse.orElse, ← he]
  cases h : p c with
  | ok r =>
    rw [h] at hp
    exact ⟨rfl, hp⟩
  | error e =>
    rw [h] at hp
    cases e with
    | rejected e => exact hq
    | cutStatement => exact ⟨rfl, hp⟩
    | endless => exact ⟨rfl, hp⟩

/-! ### Loops -/

/-- What a turn has to find so that the loop has a property of the place where it begins, what is
collected and the place where it ends. -/
def Turn.Leads (ts : List Token) (Q : Cursor → List α → β → Cursor → Prop) (c : Cursor) :
    Turn α β → Cursor → Prop
  | .skip, c' => c.Passes ts c' ∧ ∀ as b c'', Q c' as b c'' → Q c as b c''
  | .one a, c' => c.Passes ts c' ∧ ∀ as b c'', Q c' as b c'' → Q c (a :: as) b c''
  | .last a b, c' => Q c [a] b c'
  | .stop b, c' => Q c [] b c'

/-- A turn that goes on has read a token, so the bound on the turns is never reached. -/
theorem Yields.collect {turn turn' : Parse (Turn α β)} {Q : Cursor → List α → β → Cursor → Prop}
    (hc : c.On ts)
    (h : ∀ c₁, c.Moves ts c₁ → Yields ts turn turn' c₁ (Turn.Leads ts Q c₁)) :
    Yields ts (collect turn) (collect turn') c (fun r c' => Q c r.1 r.2 c') := by
  suffices hfuel : ∀ fuel c₁, c.Moves ts c₁ → c₁.rest.length < fuel →
      Yields ts (collectFrom turn fuel) (collectFrom turn' fuel) c₁
        (fun r c' => Q c₁ r.1 r.2 c') from
    hfuel (c.rest.length + 1) c hc.stays (Nat.lt_succ_self _)
  intro fuel
  induction fuel with
  | zero => intro c₁ _ hl; exact absurd hl (Nat.not_lt_zero _)
  | succ fuel ih =>
    intro c₁ h₁ hl
    refine .bind (h c₁ h₁) fun r c₂ h₂ => ?_
    have hnext (hp : c₁.Passes ts c₂) : c₂.rest.length < fuel :=
      Nat.lt_of_lt_of_le hp.fewer (Nat.le_of_lt_succ hl)
    cases r with
    | skip =>
      exact (ih c₂ (h₁.trans h₂.1.moves) (hnext h₂.1)).imp fun r c' hr => h₂.2 r.1 r.2 c' hr
    | one a =>
      refine .bind (ih c₂ (h₁.trans h₂.1.moves) (hnext h₂.1)) fun r c₃ h₃ => ?_
      exact .pure (h₂.2 r.1 r.2 c₃ h₃)
    | last a b => exact .pure h₂
    | stop b => exact .pure h₂

/-- What a step has to find so that an invariant of the state carries on. -/
def StepLeads (ts : List Token) (I : σ → Cursor → Prop) (Q : β → Cursor → Prop) (c : Cursor) :
    σ ⊕ β → Cursor → Prop
  | .inl s, c' => c.Passes ts c' ∧ I s c'
  | .inr b, c' => Q b c'

theorem Yields.iterate {step step' : σ → Parse (σ ⊕ β)} {I : σ → Cursor → Prop} {s : σ}
    (hc : c.On ts) (hs : I s c)
    (h : ∀ s c₁, c.Moves ts c₁ → I s c₁ →
      Yields ts (step s) (step' s) c₁ (StepLeads ts I S c₁)) :
    Yields ts (iterate step s) (iterate step' s) c S := by
  suffices hfuel : ∀ fuel s c₁, c.Moves ts c₁ → I s c₁ → c₁.rest.length < fuel →
      Yields ts (iterateFrom step fuel s) (iterateFrom step' fuel s) c₁ S from
    hfuel (c.rest.length + 1) s c hc.stays hs (Nat.lt_succ_self _)
  intro fuel
  induction fuel with
  | zero => intro s c₁ _ _ hl; exact absurd hl (Nat.not_lt_zero _)
  | succ fuel ih =>
    intro s c₁ h₁ hi hl
    refine .bind (h s c₁ h₁ hi) fun r c₂ h₂ => ?_
    cases r with
    | inl s' =>
      exact ih s' c₂ (h₁.trans h₂.1.moves) h₂.2
        (Nat.lt_of_lt_of_le h₂.1.fewer (Nat.le_of_lt_succ hl))
    | inr b => exact .pure h₂

theorem iterate_of_stop {step : σ → Parse (σ ⊕ β)} {s : σ} {b : β} {c' : Cursor}
    (h : step s c = .ok (.inr b, c')) : Parse.iterate step s c = .ok (b, c') := by
  rw [Parse.iterate, iterateFrom, bind_of_ok h]
  rfl

/-- A loop without a state. -/
theorem Yields.repeat {step step' : Parse (Unit ⊕ Unit)} (hc : c.On ts)
    (h : ∀ c₁, c.Moves ts c₁ → Yields ts step step' c₁
      (fun r c₂ => c₁.Moves ts c₂ ∧ (r.isLeft = true → c₁.Passes ts c₂))) :
    Yields ts (Parse.iterate (fun _ => step) ()) (Parse.iterate (fun _ => step') ()) c
      (fun _ c' => c.Moves ts c') := by
  refine .iterate (I := fun _ c₁ => c.Moves ts c₁) hc hc.stays fun _ c₁ h₁ _ => ?_
  refine (h c₁ h₁).imp fun r c₂ h₂ => ?_
  cases r with
  | inl _ => exact ⟨h₂.2 rfl, h₁.trans h₂.1⟩
  | inr _ => exact h₁.trans h₂.1

/-- Items between commas, by what is known of a list behind one more item. -/
theorem Yields.commaList {item item' : Parse α} {Q : Cursor → List α → Cursor → Prop}
    {R : Cursor → α → Cursor → Prop} (hc : c.On ts) (close : String)
    (hnil : ∀ c₁, c₁.On ts → Q c₁ [] c₁)
    (hcons : ∀ c₁ a c₂ c₃ as c', c₁.On ts → R c₁ a c₂ → c₂.Moves ts c₃ → Q c₃ as c' →
      Q c₁ (a :: as) c')
    (h : ∀ c₁, c.Moves ts c₁ →
      Yields ts item item' c₁ (fun a c₂ => c₁.Passes ts c₂ ∧ R c₁ a c₂)) :
    Yields ts (commaList close item) (commaList close item') c (fun r c' => Q c r.1 c') := by
  refine .collect (Q := fun c as _ c' => Q c as c') hc fun c₁ h₁ => ?_
  refine .nextIs close (fun _ => .pure (hnil c₁ h₁.on)) fun _ => ?_
  refine .bind (h c₁ h₁) fun a c₂ ⟨hp, hr⟩ => ?_
  refine .bind (.accept hp.on ",") fun found c₃ h₃ => ?_
  refine .ite (fun _ => ?_) fun _ => ?_
  · exact .pure ⟨hp.trans h₃.moves, fun as _ c' hq => hcons c₁ a c₂ c₃ as c' h₁.on hr h₃.moves hq⟩
  · exact .pure (hcons c₁ a c₂ c₃ [] c₃ h₁.on hr h₃.moves (hnil c₃ h₃.moves.on))

theorem Yields.commaList_moves {item item' : Parse α} (hc : c.On ts) (close : String)
    (h : ∀ c₁, c.Moves ts c₁ → Yields ts item item' c₁ (fun _ c₂ => c₁.Passes ts c₂)) :
    Yields ts (Parse.commaList close item) (Parse.commaList close item') c
      (fun _ c' => c.Moves ts c') :=
  .commaList (Q := fun c _ c' => c.Moves ts c') (R := fun c _ c' => c.Passes ts c') hc close
    (fun _ h₁ => h₁.stays) (fun _ _ _ _ _ _ _ h₁ h₂ h₃ => h₁.moves.trans (h₂.trans h₃))
    fun c₁ h₁ => (h c₁ h₁).imp fun _ _ h₂ => ⟨h₂, h₂⟩

end Parse

/-! ### Whole expressions -/

/-- An expression with no token behind it. -/
def Grammar.soleExpr (g : Grammar) : Parse Expr := do
  let e ← g.expr false
  match ← Parse.look 0 with
  | none => return e
  | some t => Parse.rejectAt t (.unexpectedToken t.value)

theorem readExprTokens_eq (ts : List Token) :
    readExprTokens ts = (·.1) <$> (Grammar.forTokens ts).soleExpr ⟨ts, 0⟩ := rfl

end BuilderMigration
