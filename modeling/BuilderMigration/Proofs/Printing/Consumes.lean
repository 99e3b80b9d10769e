import BuilderMigration.Proofs.Grammar.Yields
import BuilderMigration.Proofs.Printing.Phrase

/-! A logic of reading what is there: a reader takes exactly the tokens with given spellings from the
front of a text. What comes behind them matters to it only by the next token. -/

namespace BuilderMigration

/-! ### The next token -/

def Spelling.is (w : Spelling) (v : String) : Bool := (w.1 == .punct || w.1 == .ident) && w.2 == v

/-- How the next token is spelt, if there is one. -/
def nextSpelling (ts : List Token) : Option Spelling := ts.head?.map Token.spelling

/-- The end of the text or one of some marks. -/
def Before (marks : List String) (o : Option Spelling) : Prop := ∀ w ∈ o, ∃ v ∈ marks, w = mark v

/-- A mark, with no end of the text before it. -/
def At (v : String) (o : Option Spelling) : Prop := o = some (mark v)

variable {o : Option Spelling} {v : String} {marks more : List String}

theorem Before.mono (h : Before marks o) (hsub : ∀ v ∈ marks, v ∈ more) : Before more o := by
  intro w hw
  obtain ⟨v, hv, rfl⟩ := h w hw
  exact ⟨v, hsub v hv, rfl⟩

theorem Before.none : Before marks none := nofun

theorem before_mark (h : v ∈ marks) : Before marks (some (mark v)) := by
  rintro w hw
  exact ⟨v, h, (Option.mem_some_iff.1 hw).symm⟩

theorem At.before (h : At v o) (hv : v ∈ marks) : Before marks o := h ▸ before_mark hv

@[simp] theorem mark_is (u v : String) : (mark u).is v = (u == v) := rfl

@[simp] theorem keyword_is (u v : String) : (keyword u).is v = (u == v) := rfl

theorem Before.any_is (h : Before marks o) (hv : v ∉ marks) : o.any (·.is v) = false := by
  cases o with
  | none => rfl
  | some w =>
    obtain ⟨u, hu, rfl⟩ := h w rfl
    have hne : u ≠ v := fun he => hv (he ▸ hu)
    simpa using hne

theorem At.any_is (h : At v o) : o.any (·.is v) = true := by
  rw [h]
  simp

theorem nextSpelling_append (ts rest : List Token) :
    nextSpelling (ts ++ rest) = (ts.map Token.spelling).head?.or (nextSpelling rest) := by
  cases ts <;> simp [nextSpelling]

theorem nextSpelling_eq_some {w : Spelling} {us : List Token} (h : nextSpelling us = some w) :
    ∃ u vs, us = u :: vs ∧ u.spelling = w := by
  cases us with
  | nil => cases h
  | cons u us => exact ⟨u, us, rfl, Option.some.inj h⟩

namespace Parse

variable {α β γ ε σ : Type} {M N : Option Spelling → Prop} {p : Parse α} {f : α → Parse β}
  {ws vs : List Spelling} {w : Spelling} {Q : α → Prop} {R : β → Prop} {c c₁ c₂ : Cursor}

/-- From a text that begins with tokens spelt `ws`, and goes on as `Next` says of the next token, the
reader takes these tokens and no more, and what it finds has the property `Q`. -/
def Consumes (Next : Option Spelling → Prop) (p : Parse α) (ws : List Spelling) (Q : α → Prop) : Prop :=
  ∀ ts rest last, ts.map Token.spelling = ws → Next (nextSpelling rest) →
    ∃ a last', p ⟨ts ++ rest, last⟩ = .ok (a, ⟨rest, last'⟩) ∧ Q a

theorem Consumes.imp {S : α → Prop} (h : Consumes N p ws Q) (hq : ∀ a, Q a → S a) :
    Consumes N p ws S := by
  intro ts rest last hts hn
  obtain ⟨a, last', hp, ha⟩ := h ts rest last hts hn
  exact ⟨a, last', hp, hq a ha⟩

theorem Consumes.mono (h : Consumes M p ws Q) (hm : ∀ o, N o → M o) : Consumes N p ws Q :=
  fun ts rest last hts hn => h ts rest last hts (hm _ hn)

theorem Consumes.pure {a : α} (h : Q a) : Consumes N (pure a) [] Q := by
  intro ts rest last hts _
  obtain rfl := List.map_eq_nil_iff.1 hts
  exact ⟨a, last, rfl, h⟩

/-- One reader behind another, in front of which the first one may stand. -/
theorem Consumes.bind (hp : Consumes M p ws Q) (hm : ∀ o, N o → M (vs.head?.or o))
    (hf : ∀ a, Q a → Consumes N (f a) vs R) : Consumes N (p >>= f) (ws ++ vs) R := by
  intro ts rest last hts hn
  obtain ⟨us, us', rfl, hus, hus'⟩ := List.map_eq_append_iff.1 hts
  have hnext : M (nextSpelling (us' ++ rest)) := by
    rw [nextSpelling_append, hus']
    exact hm _ hn
  obtain ⟨a, last₁, ha, hQ⟩ := hp us (us' ++ rest) last hus hnext
  obtain ⟨b, last₂, hb, hR⟩ := hf a hQ us' rest last₁ hus' hn
  rw [List.append_assoc]
  exact ⟨b, last₂, (bind_of_ok ha).trans hb, hR⟩

/-- One reader behind another that does not care for what comes next. -/
theorem Consumes.then (hp : Consumes (fun _ => True) p ws Q)
    (hf : ∀ a, Q a → Consumes N (f a) vs R) : Consumes N (p >>= f) (ws ++ vs) R :=
  .bind hp (fun _ _ => trivial) hf

/-- A reader of one token and what is behind it. -/
theorem Consumes.cons (hp : Consumes (fun _ => True) p [w] Q)
    (hf : ∀ a, Q a → Consumes N (f a) vs R) : Consumes N (p >>= f) (w :: vs) R :=
  .then hp hf

/-- One reader behind another that takes everything. -/
theorem Consumes.last (hp : Consumes N p ws Q) (hf : ∀ a, Q a → Consumes N (f a) [] R) :
    Consumes N (p >>= f) ws R :=
  List.append_nil ws ▸ .bind hp (fun _ h => h) hf

/-- A reader that only looks, and by the next token sees `x`. -/
theorem Consumes.peek {q : Parse γ} {g : γ → Parse β} {x : γ}
    (hq : ∀ o, N o → ∀ c : Cursor, nextSpelling c.rest = ws.head?.or o → q c = .ok (x, c))
    (h : Consumes N (g x) ws R) : Consumes N (q >>= g) ws R := by
  intro ts rest last hts hn
  have hhead : nextSpelling (ts ++ rest) = ws.head?.or (nextSpelling rest) := by
    rw [nextSpelling_append, hts]
  obtain ⟨b, last', hb, hR⟩ := h ts rest last hts hn
  exact ⟨b, last', (bind_of_ok (hq _ hn ⟨ts ++ rest, last⟩ hhead)).trans hb, hR⟩

theorem nextIs_eq (v : String) (c : Cursor) :
    nextIs v c = .ok ((nextSpelling c.rest).any (·.is v), c) := by
  obtain ⟨_ | ⟨t, ts⟩, last⟩ := c <;> rfl

theorem accept_of_not {v : String} (h : (nextSpelling c.rest).any (·.is v) = false) :
    accept v c = .ok (false, c) := by
  rw [accept, bind_of_ok (nextIs_eq v c), h]
  rfl

theorem look_head (f : Option Token → Parse β) (t : Token) (us : List Token) (last : Int) :
    (look 0 >>= f) ⟨t :: us, last⟩ = f (some t) ⟨t :: us, last⟩ := rfl

theorem looksAt_second (v : String) (t : Token) (us : List Token) (last : Int) :
    looksAt 1 v ⟨t :: us, last⟩ = .ok ((nextSpelling us).any (·.is v), ⟨t :: us, last⟩) := by
  cases us <;> rfl

theorem looksAtOneOf_eq (vs : List String) (c : Cursor) :
    looksAtOneOf 0 vs c = .ok ((nextSpelling c.rest).any fun w =>
      (w.1 == .punct || w.1 == .ident) && vs.contains w.2, c) := by
  obtain ⟨_ | ⟨t, ts⟩, last⟩ := c <;> rfl

/-- A look at whether the next token is `v`. -/
theorem Consumes.nextIs {g : Bool → Parse β} {v : String} {b : Bool}
    (hb : ∀ o, N o → (ws.head?.or o).any (·.is v) = b) (h : Consumes N (g b) ws R) :
    Consumes N (nextIs v >>= g) ws R :=
  .peek (fun o ho c hc => by rw [nextIs_eq, hc, hb o ho]) h

/-- A reader that only looks, whatever it sees. -/
theorem Consumes.looking {q : Parse γ} {g : γ → Parse β} {P : γ → Prop} (hq : Looks q P)
    (h : ∀ x, P x → Consumes N (g x) ws R) : Consumes N (q >>= g) ws R := by
  intro ts rest last hts hn
  obtain ⟨x, hx, hP⟩ := hq ⟨ts ++ rest, last⟩
  obtain ⟨b, last', hb, hR⟩ := h x hP ts rest last hts hn
  exact ⟨b, last', (bind_of_ok hx).trans hb, hR⟩

/-- A reader that only looks, behind the first token. -/
theorem Consumes.peekSecond {q : Parse γ} {g : γ → Parse β} {x : γ}
    (hq : ∀ o, N o → ∀ (t : Token) (us : List Token) (last : Int),
      nextSpelling us = ws.head?.or o → q ⟨t :: us, last⟩ = .ok (x, ⟨t :: us, last⟩))
    (h : Consumes N (g x) (w :: ws) R) : Consumes N (q >>= g) (w :: ws) R := by
  intro ts rest last hts hn
  obtain ⟨t, us, rfl, ht, hus⟩ := List.map_eq_cons_iff.1 hts
  have hhead : nextSpelling (us ++ rest) = ws.head?.or (nextSpelling rest) := by
    rw [nextSpelling_append, hus]
  obtain ⟨b, last', hb, hR⟩ := h (t :: us) rest last hts hn
  exact ⟨b, last', (bind_of_ok (hq _ hn t (us ++ rest) last hhead)).trans hb, hR⟩

/-- The end of the last token makes no difference. -/
theorem Consumes.spanFrom {g : Span → Parse β} {lo : Int} (h : ∀ s, Consumes N (g s) ws R) :
    Consumes N (spanFrom lo >>= g) ws R :=
  fun ts rest last hts hn => h ⟨lo, last, 0⟩ ts rest last hts hn

/-- A look at some token. -/
theorem Consumes.look {g : Option Token → Parse β} (k : Nat) (h : ∀ o, Consumes N (g o) ws R) :
    Consumes N (look k >>= g) ws R :=
  fun ts rest last hts hn => h (ts ++ rest)[k]? ts rest last hts hn

/-- A look at the first token of those that are read. -/
theorem Consumes.lookHead {g : Option Token → Parse β}
    (h : ∀ t, Token.spelling t = w → Consumes N (g (some t)) (w :: ws) R) :
    Consumes N (Parse.look 0 >>= g) (w :: ws) R := by
  intro ts rest last hts hn
  obtain ⟨t, us, rfl, ht, hus⟩ := List.map_eq_cons_iff.1 hts
  exact h t ht (t :: us) rest last hts hn

/-- A look at what comes behind. -/
theorem Consumes.lookNext {f : Option Token → Parse β} {S : β → Prop}
    (h : ∀ o, N (o.map Token.spelling) → Consumes N (f o) [] S) :
    Consumes N (Parse.look 0 >>= f) [] S := by
  intro ts rest last hts hn
  obtain rfl := List.map_eq_nil_iff.1 hts
  rw [nextSpelling, List.head?_eq_getElem?] at hn
  exact h rest[0]? hn [] rest last rfl (by rwa [nextSpelling, List.head?_eq_getElem?])

theorem Consumes.ite {b : Prop} [Decidable b] {q : Parse α} (hp : b → Consumes N p ws Q)
    (hq : ¬ b → Consumes N q ws Q) : Consumes N (if b then p else q) ws Q := by
  by_cases h : b
  · simpa [h] using hp h
  · simpa [h] using hq h

/-! ### Single tokens -/

theorem Consumes.next : Consumes N next [w] fun t => t.spelling = w := by
  intro ts rest last hts _
  obtain ⟨t, us, rfl, ht, hus⟩ := List.map_eq_cons_iff.1 hts
  obtain rfl := List.map_eq_nil_iff.1 hus
  exact ⟨t, t.hi, rfl, ht⟩

theorem Consumes.skip_one : Consumes N (skip 1) [w] fun _ => True :=
  .last .next fun _ _ => .pure trivial

/-- Reading the next token, which is `v`. -/
theorem Consumes.accept {v : String} (h : w.is v = true) :
    Consumes N (accept v) [w] fun found => found = true :=
  .nextIs (fun _ _ => h) (.last .next fun _ _ => .pure rfl)

/-- Leaving the next token, which is not `v`. -/
theorem Consumes.acceptNot {g : Bool → Parse β} {v : String}
    (hb : ∀ o, N o → (ws.head?.or o).any (·.is v) = false) (h : Consumes N (g false) ws R) :
    Consumes N (Parse.accept v >>= g) ws R := by
  exact .peek (x := false) (fun o ho c hc => accept_of_not (hc ▸ hb o ho)) h

/-- Reading the next token, which is of a kind. -/
theorem Consumes.acceptKind {kind : TokenKind} (h : w.1 = kind) :
    Consumes N (acceptKind kind) [w] fun found => found = true := by
  refine .peek (x := true) (fun o _ c hc => ?_) (.last .next fun _ _ => .pure rfl)
  obtain ⟨t, us, hrest, ht⟩ := nextSpelling_eq_some hc
  obtain ⟨rest, last⟩ := c
  subst hrest
  have hkind : (t.kind == kind) = true := by
    rw [beq_iff_eq, ← h, ← ht]
    rfl
  exact congrArg (fun b => Except.ok (b, _)) hkind

/-- Leaving the next token, which is not of a kind. -/
theorem Consumes.acceptKindNot {g : Bool → Parse β} {kind : TokenKind}
    (hb : ∀ o, N o → (ws.head?.or o).any (·.1 == kind) = false) (h : Consumes N (g false) ws R) :
    Consumes N (Parse.acceptKind kind >>= g) ws R := by
  refine .peek (x := false) (fun o ho c hc => ?_) h
  have hkind : looksAtKind 0 kind c = .ok ((nextSpelling c.rest).any (·.1 == kind), c) := by
    obtain ⟨_ | ⟨t, ts⟩, last⟩ := c <;> rfl
  rw [Parse.acceptKind, bind_of_ok hkind, hc, hb o ho]
  rfl

theorem Consumes.expect {v : String} (h : w.is v = true) :
    Consumes N (expect v) [w] fun _ => True := by
  refine .lookHead fun t ht => ?_
  have his : t.is v = true := by
    rw [← h, ← ht]
    rfl
  dsimp only
  rw [if_pos his]
  exact Consumes.next.imp fun _ _ => trivial

theorem expectName_cons {t : Token} (hkind : t.kind = .ident) (us : List Token) (last : Int) :
    expectName ⟨t :: us, last⟩ = .ok (t.value, ⟨us, t.hi⟩) := by
  rw [expectName, look_head]
  dsimp only
  rw [if_pos hkind]
  rfl

theorem Consumes.expectName {name : String} :
    Consumes N expectName [(.ident, name)] fun n => n = name := by
  refine .lookHead fun t ht => ?_
  obtain ⟨hkind, hvalue⟩ := Prod.mk.inj ht
  dsimp only
  rw [if_pos hkind]
  exact .last .next fun _ _ => .pure hvalue

/-! ### Loops -/

theorem iterateFrom_mono {step : σ → Parse (σ ⊕ β)} {m n : Nat} {s : σ} {r : β × Cursor}
    (h : iterateFrom step m s c = .ok r) (hmn : m ≤ n) : iterateFrom step n s c = .ok r := by
  induction m generalizing n s c with
  | zero => cases h
  | succ m ih =>
    obtain ⟨n, rfl⟩ := Nat.exists_eq_succ_of_ne_zero (Nat.ne_of_gt (Nat.lt_of_lt_of_le m.succ_pos hmn))
    rw [iterateFrom, bind_apply] at h ⊢
    cases hs : step s c with
    | error e =>
      rw [hs] at h
      cases h
    | ok x =>
      obtain ⟨_ | b, c₁⟩ := x
      · rw [hs] at h
        exact ih h (Nat.le_of_succ_le_succ hmn)
      · rw [hs] at h
        exact h

/-- A step that goes on, and reads a token. -/
theorem iterate_of_inl {step : σ → Parse (σ ⊕ β)} {s s' : σ} {r : β × Cursor}
    (hs : step s c = .ok (.inl s', c₁)) (hl : c₁.rest.length < c.rest.length)
    (h : iterate step s' c₁ = .ok r) : iterate step s c = .ok r := by
  rw [iterate, iterateFrom, bind_of_ok hs]
  exact iterateFrom_mono h hl

theorem collectFrom_mono {turn : Parse (Turn α β)} {m n : Nat} {r : (List α × β) × Cursor}
    (h : collectFrom turn m c = .ok r) (hmn : m ≤ n) : collectFrom turn n c = .ok r := by
  induction m generalizing n c r with
  | zero => cases h
  | succ m ih =>
    obtain ⟨n, rfl⟩ := Nat.exists_eq_succ_of_ne_zero (Nat.ne_of_gt (Nat.lt_of_lt_of_le m.succ_pos hmn))
    rw [collectFrom, bind_apply] at h ⊢
    have hle := Nat.le_of_succ_le_succ hmn
    cases ht : turn c with
    | error e =>
      rw [ht] at h
      cases h
    | ok x =>
      obtain ⟨t, c₁⟩ := x
      rw [ht] at h
      cases t with
      | skip => exact ih h hle
      | last a b => exact h
      | stop b => exact h
      | one a =>
        dsimp only at h ⊢
        rw [bind_apply] at h ⊢
        cases hrest : collectFrom turn m c₁ with
        | error e =>
          rw [hrest] at h
          cases h
        | ok x =>
          rw [hrest] at h
          rw [ih hrest hle]
          exact h

theorem length_lt_of_ne_nil {ts rest : List Token} (h : ts.map Token.spelling = ws) (hws : ws ≠ []) :
    rest.length < (ts ++ rest).length := by
  have hpos : 0 < ts.length := by
    rw [← List.length_map Token.spelling, h]
    exact List.length_pos_iff.2 hws
  rw [List.length_append]
  omega

/-- A turn that finds one thing, and the turns behind it. -/
theorem Consumes.collectOne {turn : Parse (Turn α β)} {S : List α × β → Prop} (hws : ws ≠ [])
    (h : Consumes M turn ws fun t => ∃ a, t = .one a ∧ Q a) (hm : ∀ o, N o → M (vs.head?.or o))
    (hrest : Consumes N (collect turn) vs S) :
    Consumes N (collect turn) (ws ++ vs) fun r => ∃ a as, r.1 = a :: as ∧ Q a ∧ S (as, r.2) := by
  intro ts rest last hts hn
  obtain ⟨us, us', rfl, hus, hus'⟩ := List.map_eq_append_iff.1 hts
  have hnext : M (nextSpelling (us' ++ rest)) := by
    rw [nextSpelling_append, hus']
    exact hm _ hn
  obtain ⟨_, last₁, ht, a, rfl, hQ⟩ := h us (us' ++ rest) last hus hnext
  obtain ⟨⟨as, b⟩, last₂, hr, hS⟩ := hrest us' rest last₁ hus' hn
  refine ⟨(a :: as, b), last₂, ?_, a, as, rfl, hQ, hS⟩
  rw [List.append_assoc, collect, collectFrom, bind_of_ok ht]
  dsimp only
  rw [bind_of_ok (collectFrom_mono hr (length_lt_of_ne_nil hus hws))]
  rfl

/-- The turn that finds the last thing. -/
theorem Consumes.collectLast {turn : Parse (Turn α β)} {S : α → β → Prop}
    (h : Consumes N turn ws fun t => ∃ a b, t = .last a b ∧ S a b) :
    Consumes N (collect turn) ws fun r => ∃ a, r.1 = [a] ∧ S a r.2 := by
  intro ts rest last hts hn
  obtain ⟨_, last₁, ht, a, b, rfl, hS⟩ := h ts rest last hts hn
  refine ⟨([a], b), last₁, ?_, a, rfl, hS⟩
  rw [collect, collectFrom, bind_of_ok ht]
  rfl

/-- The turn that ends a loop. -/
theorem Consumes.collectStop {turn : Parse (Turn α β)} {S : β → Prop}
    (h : Consumes N turn ws fun t => ∃ b, t = .stop b ∧ S b) :
    Consumes N (collect turn) ws fun r => r.1 = [] ∧ S r.2 := by
  intro ts rest last hts hn
  obtain ⟨_, last₁, ht, b, rfl, hS⟩ := h ts rest last hts hn
  refine ⟨([], b), last₁, ?_, rfl, hS⟩
  rw [collect, collectFrom, bind_of_ok ht]
  rfl

/-- The step that ends a loop. -/
theorem Consumes.iterateStop {step : σ → Parse (σ ⊕ β)} {s : σ} {S : β → Prop}
    (h : Consumes N (step s) ws fun r => ∃ b, r = .inr b ∧ S b) :
    Consumes N (iterate step s) ws S := by
  intro ts rest last hts hn
  obtain ⟨_, last', hs, b, rfl, hb⟩ := h ts rest last hts hn
  exact ⟨b, last', iterate_of_stop hs, hb⟩

/-- A step of a loop that goes on, and the steps behind it. -/
theorem Consumes.iterateOne {step : σ → Parse (σ ⊕ β)} {s s' : σ} (hws : ws ≠ [])
    (h : Consumes M (step s) ws (· = .inl s')) (hm : ∀ o, N o → M (vs.head?.or o))
    (hrest : Consumes N (iterate step s') vs R) : Consumes N (iterate step s) (ws ++ vs) R := by
  intro ts rest last hts hn
  obtain ⟨us, us', rfl, hus, hus'⟩ := List.map_eq_append_iff.1 hts
  have hnext : M (nextSpelling (us' ++ rest)) := by
    rw [nextSpelling_append, hus']
    exact hm _ hn
  obtain ⟨_, last₁, hs, rfl⟩ := h us (us' ++ rest) last hus hnext
  obtain ⟨b, last₂, hb, hR⟩ := hrest us' rest last₁ hus' hn
  rw [List.append_assoc]
  exact ⟨b, last₂, iterate_of_inl hs (length_lt_of_ne_nil hus hws) hb, hR⟩

/-! ### Lists between commas -/

theorem commas_singleton (ws : List Spelling) : commas [ws] = ws := by simp [commas]

/-- One turn of a list between commas. -/
def listTurn (close : String) (item : Parse α) : Parse (Turn α Bool) := do
  if ← Parse.nextIs close then return .stop true
  let a ← item
  if ← Parse.accept "," then return .one a
  return .last a false

theorem commaList_eq (close : String) (item : Parse α) :
    commaList close item = collect (listTurn close item) := rfl

variable {τ : Type} {close : String} {item : Parse α} {spell : ε → List Spelling} {view : α → τ}
  {tree : ε → τ}

/-- What begins otherwise does not close a list. -/
theorem any_is_of_head {ws : List Spelling} (h : ∃ w ws', ws = w :: ws' ∧ w.is close = false)
    (vs : List Spelling) (o : Option Spelling) : ((ws ++ vs).head?.or o).any (·.is close) = false := by
  obtain ⟨w, ws', rfl, hw⟩ := h
  exact hw

/-- A turn that reads an item with the comma behind it. -/
theorem listTurn_one (hhead : ∃ w ws', ws = w :: ws' ∧ w.is close = false)
    (h : Consumes (Before [",", close]) item ws Q) :
    Consumes (fun _ => True) (listTurn close item) (ws ++ [mark ","])
      fun t => ∃ a, t = .one a ∧ Q a := by
  refine .nextIs (fun o _ => any_is_of_head hhead _ o) ?_
  refine .bind h (fun _ _ => before_mark (by simp)) fun a ha => ?_
  refine .last (.accept rfl) fun found hf => ?_
  subst hf
  exact .pure ⟨a, rfl, ha⟩

/-- A turn that reads an item which no comma follows. -/
theorem listTurn_last (hhead : ∃ w ws', ws = w :: ws' ∧ w.is close = false) (hclose : close ≠ ",")
    (h : Consumes (Before [",", close]) item ws Q) :
    Consumes (At close) (listTurn close item) ws
      fun t => ∃ a b, t = .last a b ∧ Q a ∧ b = false := by
  refine .nextIs (fun o _ => by simpa using any_is_of_head hhead [] o) ?_
  refine .last (h.mono fun o ho => At.before ho (by simp)) fun a ha => ?_
  refine .acceptNot (fun o ho => ?_) (.pure ⟨a, false, rfl, ha, rfl⟩)
  rw [show ([] : List Spelling).head?.or o = some (mark close) from ho]
  simpa using hclose

theorem listTurn_stop : Consumes (At close) (listTurn close item) []
    fun t => ∃ b, t = .stop b ∧ b = true :=
  .nextIs (fun _ ho => At.any_is ho) (.pure ⟨true, rfl, rfl⟩)

/-- One item with a comma behind it. -/
theorem Consumes.commaListOne (hhead : ∃ w ws', ws = w :: ws' ∧ w.is close = false)
    (h : Consumes (Before [",", close]) item ws Q) :
    Consumes (At close) (Parse.commaList close item) (ws ++ [mark ","])
      fun r => ∃ a, r = ([a], true) ∧ Q a := by
  have hall := Consumes.collectOne (by simp) (listTurn_one hhead h) (fun _ _ => trivial)
    listTurn_stop.collectStop
  rw [List.append_nil] at hall
  rw [commaList_eq]
  refine hall.imp fun r hr => ?_
  obtain ⟨as, b⟩ := r
  obtain ⟨a, as, rfl, ha, rfl, rfl⟩ := hr
  exact ⟨a, rfl, ha⟩

/-- Items between commas, up to the mark that closes the list. -/
theorem Consumes.commaList {es : List ε} (hclose : close ≠ ",")
    (hhead : ∀ e ∈ es, ∃ w ws, spell e = w :: ws ∧ w.is close = false)
    (h : ∀ e ∈ es, Consumes (Before [",", close]) item (spell e) fun a => view a = tree e) :
    Consumes (At close) (commaList close item) (commas (es.map spell))
      fun r => r.1.map view = es.map tree ∧ r.2 = es.isEmpty := by
  rw [commaList_eq]
  induction es with
  | nil =>
    refine listTurn_stop.collectStop.imp fun r hr => ?_
    obtain ⟨as, b⟩ := r
    obtain ⟨rfl, rfl⟩ := hr
    exact ⟨rfl, rfl⟩
  | cons e es ih =>
    have hitem := h e List.mem_cons_self
    have hfirst := hhead e List.mem_cons_self
    cases es with
    | nil =>
      rw [List.map_singleton, commas_singleton]
      refine (listTurn_last hfirst hclose hitem).collectLast.imp fun r hr => ?_
      obtain ⟨as, b⟩ := r
      obtain ⟨a, rfl, ha, rfl⟩ := hr
      exact ⟨by simp [ha], rfl⟩
    | cons e' es =>
      have hlist : commas ((e :: e' :: es).map spell) =
          spell e ++ [mark ","] ++ commas ((e' :: es).map spell) := by
        simp [commas, List.intercalate]
      have hrest := ih (fun e he => hhead e (List.mem_cons_of_mem _ he))
        fun e he => h e (List.mem_cons_of_mem _ he)
      rw [hlist]
      refine (Consumes.collectOne (by simp) (listTurn_one hfirst hitem)
        (fun _ _ => trivial) hrest).imp fun r hr => ?_
      obtain ⟨as, b⟩ := r
      obtain ⟨a, as, rfl, ha, has, hb⟩ := hr
      exact ⟨(congrArg (· :: as.map view) ha).trans (congrArg (tree e :: ·) has), hb⟩

/-- Items between commas, with a comma behind the last one too. -/
theorem Consumes.commaListTrailing {es : List ε} (hne : es ≠ [])
    (hhead : ∀ e ∈ es, ∃ w ws, spell e = w :: ws ∧ w.is close = false)
    (h : ∀ e ∈ es, Consumes (Before [",", close]) item (spell e) fun a => view a = tree e) :
    Consumes (At close) (Parse.commaList close item) (commas (es.map spell) ++ [mark ","])
      fun r => r.1.map view = es.map tree ∧ r.2 = true := by
  induction es with
  | nil => exact absurd rfl hne
  | cons e es ih =>
    have hitem := h e List.mem_cons_self
    have hfirst := hhead e List.mem_cons_self
    cases es with
    | nil =>
      rw [List.map_singleton, commas_singleton]
      refine (Consumes.commaListOne hfirst hitem).imp fun r hr => ?_
      obtain ⟨a, rfl, ha⟩ := hr
      exact ⟨by simp [ha], rfl⟩
    | cons e' es =>
      have hlist : commas ((e :: e' :: es).map spell) ++ [mark ","] =
          spell e ++ [mark ","] ++ (commas ((e' :: es).map spell) ++ [mark ","]) := by
        simp [commas, List.intercalate]
      have hrest := ih (List.cons_ne_nil _ _) (fun e he => hhead e (List.mem_cons_of_mem _ he))
        fun e he => h e (List.mem_cons_of_mem _ he)
      rw [hlist, commaList_eq]
      refine (Consumes.collectOne (by simp) (listTurn_one hfirst hitem)
        (fun _ _ => trivial) hrest).imp fun r hr => ?_
      obtain ⟨as, b⟩ := r
      obtain ⟨a, as, rfl, ha, has, hb⟩ := hr
      exact ⟨(congrArg (· :: as.map view) ha).trans (congrArg (tree e :: ·) has), hb⟩

end Parse

end BuilderMigration
