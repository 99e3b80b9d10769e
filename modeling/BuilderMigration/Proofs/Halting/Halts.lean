import BuilderMigration.Proofs.Grammar.Yields

/-! A logic of halting, for tokens at any positions. Two readers that differ only in how deep the
grammar below them goes end alike, and neither runs on for ever. What carries it is the number of
tokens left, which no reader adds to; which results have taken a token is kept beside it. -/

namespace BuilderMigration

theorem HasStrayMark.of_suffix {ts us : List Token} (h : HasStrayMark us) (hs : us <:+ ts) :
    HasStrayMark ts := by
  obtain ⟨vs, hv, hm⟩ := h
  exact ⟨vs, hv.trans hs, hm⟩

namespace Parse

variable {α β σ : Type} {m n : Nat} {c c' : Cursor} {r r' : α → Prop} {s : β → Prop}
  {p p' q q' : Parse α} {f f' : α → Parse β}

/-- From `c` both readers end alike: in a result at the same tokens or behind, with a token taken if
the result is one that `takes`, or in a failure that is no endless run. -/
def HaltsAt (c : Cursor) (takes : α → Prop) (p p' : Parse α) : Prop :=
  p c = p' c ∧ match p c with
    | .ok (a, c') => c'.rest <:+ c.rest ∧ (takes a → c'.rest.length < c.rest.length)
    | .error e => e ≠ .endless

theorem HaltsAt.ok {a : α} (hp : p c = .ok (a, c')) (hp' : p' c = .ok (a, c'))
    (hs : c'.rest <:+ c.rest) (hr : r a → c'.rest.length < c.rest.length) : HaltsAt c r p p' := by
  refine ⟨hp.trans hp'.symm, ?_⟩
  rw [hp]
  exact ⟨hs, hr⟩

theorem HaltsAt.error {e : Failure} (hp : p c = .error e) (hp' : p' c = .error e)
    (he : e ≠ .endless) : HaltsAt c r p p' := by
  refine ⟨hp.trans hp'.symm, ?_⟩
  rw [hp]
  exact he

/-- Both ways for readers that halt to end. -/
theorem HaltsAt.cases (h : HaltsAt c r p p') :
    (∃ a c', p c = .ok (a, c') ∧ p' c = .ok (a, c') ∧ c'.rest <:+ c.rest ∧
      (r a → c'.rest.length < c.rest.length)) ∨
    ∃ e, p c = .error e ∧ p' c = .error e ∧ e ≠ .endless := by
  obtain ⟨heq, h⟩ := h
  rw [← heq]
  cases hp : p c with
  | ok x =>
    rw [hp] at h
    exact .inl ⟨x.1, x.2, rfl, rfl, h⟩
  | error e =>
    rw [hp] at h
    exact .inr ⟨e, rfl, rfl, h⟩

theorem HaltsAt.pure {a : α} (h : ¬ r a) : HaltsAt c r (pure a) (pure a) :=
  .ok rfl rfl (List.suffix_refl _) fun ha => absurd ha h

/-- One reader behind another. The token that the whole takes is taken by the one or the other. -/
theorem HaltsAt.bind (hp : HaltsAt c r p p')
    (hf : ∀ a c', c'.rest <:+ c.rest → (r a → c'.rest.length < c.rest.length) →
      ∃ s' : β → Prop, HaltsAt c' s' (f a) (f' a) ∧
        ∀ b, s b → s' b ∨ c'.rest.length < c.rest.length) :
    HaltsAt c s (p >>= f) (p' >>= f') := by
  obtain ⟨a, c₁, ha, ha', hs₁, ht₁⟩ | ⟨e, he, he', hne⟩ := hp.cases
  · obtain ⟨s', hs', hor⟩ := hf a c₁ hs₁ ht₁
    obtain ⟨b, c₂, hb, hb', hs₂, ht₂⟩ | ⟨e, he, he', hne⟩ := hs'.cases
    · refine .ok ((bind_of_ok ha).trans hb) ((bind_of_ok ha').trans hb') (hs₂.trans hs₁) fun h => ?_
      have h₁ := hs₁.length_le
      have h₂ := hs₂.length_le
      rcases hor b h with h | h
      · have := ht₂ h
        omega
      · omega
    · exact .error ((bind_of_ok ha).trans he) ((bind_of_ok ha').trans he') hne
  · exact .error (by rw [bind_apply, he]) (by rw [bind_apply, he']) hne

/-- Readers that halt wherever fewer than `n` tokens are left and every mark of an attribute begins
one. -/
structure Halts (n : Nat) (takes : α → Prop) (p p' : Parse α) : Prop where
  run (c : Cursor) (hn : c.rest.length < n) (hm : ¬ HasStrayMark c.rest) : HaltsAt c takes p p'

/-! ### Weaker claims -/

theorem Halts.imp (h : Halts n r p p') (hr : ∀ a, r' a → r a) : Halts n r' p p' where
  run c hn hm := by
    obtain ⟨a, c', hp, hp', hs, ht⟩ | ⟨e, hp, hp', he⟩ := (h.run c hn hm).cases
    · exact .ok hp hp' hs fun h => ht (hr a h)
    · exact .error hp hp' he

/-- Nothing is claimed of what is taken. -/
theorem Halts.keep (h : Halts n r p p') : Halts n (fun _ => False) p p' := h.imp fun _ => False.elim

theorem Halts.mono (h : Halts m r p p') (hn : n ≤ m) : Halts n r p p' :=
  ⟨fun c hl => h.run c (Nat.lt_of_lt_of_le hl hn)⟩

/-- Where there are fewer tokens. -/
theorem Halts.lower (h : Halts (n + 1) r p p') : Halts n r p p' := h.mono (Nat.le_succ n)

theorem Halts.zero : Halts 0 r p p' := ⟨fun _ hl => absurd hl (Nat.not_lt_zero _)⟩

/-! ### Sequences -/

theorem Halts.pure {a : α} (h : ¬ r a) : Halts n r (pure a) (pure a) := ⟨fun _ _ _ => .pure h⟩

theorem Halts.throw {e : Failure} (h : e ≠ .endless) : Halts n r (throw e) (throw e) :=
  ⟨fun _ _ _ => .error rfl rfl h⟩

theorem Halts.reject (t : Token) (cause : SyntaxError.Cause) :
    Halts n r (rejectAt t cause) (rejectAt t cause) := .throw nofun

theorem Halts.rejectEnd (during : Unfinished) :
    Halts n r (Parse.rejectEnd during) (Parse.rejectEnd during) := .throw nofun

/-- One reader behind another: behind a result that takes a token there are fewer of them, and
nothing more need be taken. -/
theorem Halts.branch (hp : Halts (n + 1) r p p')
    (htakes : ∀ a, r a → Halts n (fun _ => False) (f a) (f' a))
    (hkeeps : ∀ a, ¬ r a → Halts (n + 1) s (f a) (f' a)) :
    Halts (n + 1) s (p >>= f) (p' >>= f') where
  run c hn hm := by
    refine (hp.run c hn hm).bind fun a c₁ hs ht => ?_
    have hm₁ : ¬ HasStrayMark c₁.rest := fun h => hm (h.of_suffix hs)
    by_cases hr : r a
    · have hlt := ht hr
      exact ⟨_, (htakes a hr).run c₁ (by omega) hm₁, fun _ _ => .inr hlt⟩
    · have hle := hs.length_le
      exact ⟨s, (hkeeps a hr).run c₁ (by omega) hm₁, fun _ h => .inl h⟩

/-- One reader behind another. -/
theorem Halts.bind (hp : Halts n r p p') (hf : ∀ a, Halts n s (f a) (f' a)) :
    Halts n s (p >>= f) (p' >>= f') := by
  cases n with
  | zero => exact .zero
  | succ n => exact .branch hp.keep (fun _ => False.elim) fun a _ => hf a

/-- One reader behind another that takes a token in any case. -/
theorem Halts.past (hp : Halts (n + 1) (fun _ => True) p p')
    (hf : ∀ a, Halts n (fun _ => False) (f a) (f' a)) : Halts (n + 1) s (p >>= f) (p' >>= f') :=
  .branch hp (fun a _ => hf a) fun _ h => absurd trivial h

/-- The same where no fewer tokens are called for. -/
theorem Halts.taken (hp : Halts n (fun _ => True) p p')
    (hf : ∀ a, Halts n (fun _ => False) (f a) (f' a)) : Halts n s (p >>= f) (p' >>= f') := by
  cases n with
  | zero => exact .zero
  | succ n => exact .past hp fun a => (hf a).lower

theorem Halts.ite {b : Prop} [Decidable b] (hp : b → Halts n r p p') (hq : ¬ b → Halts n r q q') :
    Halts n r (if b then p else q) (if b then p' else q') := by
  by_cases h : b
  · simpa [h] using hp h
  · simpa [h] using hq h

/-- Readers that go on by what one sees that only looks. -/
theorem HaltsAt.peek {a : α} (hp : p c = .ok (a, c)) (h : HaltsAt c s (f a) (f' a)) :
    HaltsAt c s (p >>= f) (p >>= f') := by
  simpa only [HaltsAt, bind_of_ok hp] using h

theorem Halts.looking {P : α → Prop} (hp : Looks p P)
    (h : ∀ a, P a → Halts n s (f a) (f' a)) : Halts n s (p >>= f) (p >>= f') where
  run c hn hm := by
    obtain ⟨a, ha, hP⟩ := hp c
    exact .peek ha ((h a hP).run c hn hm)

/-- The same for a yes or no. -/
theorem Halts.whether {x : Parse Bool} {P : Bool → Prop} (hx : Looks x P)
    (hp : Halts n r p p') (hq : Halts n r q q') :
    Halts n r (do if ← x then p else q) (do if ← x then p' else q') :=
  .looking hx fun _ _ => .ite (fun _ => hp) fun _ => hq

theorem Looks.spanFrom (lo : Int) : Looks (spanFrom lo) fun _ => True := fun _ => ⟨_, rfl, trivial⟩

theorem Looks.nextIs (v : String) : Looks (nextIs v) fun _ => True := .looksAt 0 v

/-- Readers that begin with a look at the next token, which there may be or not. -/
theorem Halts.lookNext {g g' : Option Token → Parse β} (hnil : Halts n s (g none) (g' none))
    (hcons : ∀ t, 1 < n → Halts n s (g (some t)) (g' (some t))) :
    Halts n s (look 0 >>= g) (look 0 >>= g') where
  run c hn hm := by
    change HaltsAt c s (g c.rest[0]?) (g' c.rest[0]?)
    cases hr : c.rest with
    | nil => exact hnil.run c hn hm
    | cons t us =>
      have hn₁ : 1 < n := by
        rw [hr, List.length_cons] at hn
        omega
      exact (hcons t hn₁).run c hn hm

/-- Where a reader is rejected another begins at the same place: what the first has taken is there
again. -/
theorem Halts.orElse (hp : Halts n r p p') (hq : Halts n r q q') :
    Halts n r (orElse p q) (orElse p' q') where
  run c hn hm := by
    obtain ⟨a, c', ha, ha', hs, ht⟩ | ⟨e, he, he', hne⟩ := (hp.run c hn hm).cases
    · exact .ok (by rw [Parse.orElse, ha]) (by rw [Parse.orElse, ha']) hs ht
    · cases e with
      | rejected e => simpa only [HaltsAt, Parse.orElse, he, he'] using hq.run c hn hm
      | cutStatement => exact .error (by rw [Parse.orElse, he]) (by rw [Parse.orElse, he']) hne
      | endless => exact absurd rfl hne

/-! ### Single tokens -/

theorem Halts.next : Halts n (fun _ => True) next next where
  run c _ _ := by
    obtain ⟨_ | ⟨t, us⟩, last⟩ := c
    · exact .error (e := .rejected (SyntaxError.atEnd .text)) rfl rfl nofun
    · exact .ok (a := t) rfl rfl (List.suffix_cons t us) fun _ =>
        Nat.lt_succ_self _

theorem Halts.skip (k : Nat) : Halts n (fun _ => 0 < k) (skip k) (skip k) := by
  induction k with
  | zero => exact .pure (Nat.lt_irrefl 0)
  | succ k ih => exact .taken .next fun _ => ih.keep

theorem Halts.skip_pos {k : Nat} (hk : 0 < k) : Halts n (fun _ => True) (Parse.skip k) (Parse.skip k) :=
  (Halts.skip k).imp fun _ _ => hk

theorem Halts.skip_one : Halts n (fun _ => True) (Parse.skip 1) (Parse.skip 1) :=
  .skip_pos Nat.one_pos

theorem Halts.accept (v : String) : Halts n (fun found => found = true) (accept v) (accept v) :=
  .whether (.nextIs v) (.taken .next fun _ => .pure nofun) (.pure nofun)

theorem Halts.acceptKind (kind : TokenKind) :
    Halts n (fun found => found = true) (acceptKind kind) (acceptKind kind) :=
  .whether (.looksAtKind 0 kind) (.taken .next fun _ => .pure nofun) (.pure nofun)

theorem Halts.expect (v : String) : Halts n (fun _ => True) (expect v) (expect v) :=
  .lookNext (.rejectEnd _) fun _ _ => .ite (fun _ => .next) fun _ => .reject _ _

theorem Halts.expectName : Halts n (fun _ => True) expectName expectName :=
  .lookNext (.rejectEnd _) fun _ _ =>
    .ite (fun _ => .taken .next fun _ => .pure nofun) fun _ => .reject _ _

/-- Readers that go on by whether a token was taken. -/
theorem Halts.branchIf {x : Parse Bool} (hx : Halts (n + 1) (fun found => found = true) x x)
    (hp : Halts n (fun _ => False) p p') (hq : Halts (n + 1) r q q') :
    Halts (n + 1) r (do if ← x then p else q) (do if ← x then p' else q') := by
  refine .branch hx (fun found h => ?_) fun found h => ?_
  · rw [if_pos h, if_pos h]
    exact hp
  · rw [if_neg h, if_neg h]
    exact hq

/-! ### Loops -/

/-- Whether a collecting loop takes another turn. -/
def Turn.GoesOn : Turn α β → Prop
  | .skip | .one _ => True
  | .last _ _ | .stop _ => False

theorem Halts.stop {b : β} :
    Halts n (fun t => t.GoesOn ∨ False) (Pure.pure (.stop b) : Parse (Turn α β))
      (Pure.pure (.stop b)) :=
  .pure fun h => h.elim id id

/-- A loop halts whose turns halt and take a token where they go on; it takes one itself if every turn
does. -/
theorem Halts.collect (used : Prop) {turn turn' : Parse (Turn α β)}
    (h : Halts n (fun t => t.GoesOn ∨ used) turn turn') :
    Halts n (fun _ => used) (collect turn) (collect turn') := by
  suffices hfuel : ∀ fuel (c : Cursor), c.rest.length < fuel → c.rest.length < n →
      ¬ HasStrayMark c.rest →
      HaltsAt c (fun _ => used) (collectFrom turn fuel) (collectFrom turn' fuel) from
    ⟨fun c => hfuel (c.rest.length + 1) c (Nat.lt_succ_self _)⟩
  intro fuel
  induction fuel with
  | zero => intro c hl; exact absurd hl (Nat.not_lt_zero _)
  | succ fuel ih =>
    intro c hl hn hm
    refine (h.run c hn hm).bind fun t c₁ hs htakes => ?_
    have hle := hs.length_le
    have hgo (hgo : t.GoesOn) :
        HaltsAt c₁ (fun _ => used) (collectFrom turn fuel) (collectFrom turn' fuel) := by
      have hlt := htakes (.inl hgo)
      exact ih c₁ (by omega) (by omega) fun h => hm (h.of_suffix hs)
    have hend (x : List α × β) (hx : ¬ t.GoesOn) : ∃ s' : List α × β → Prop,
        HaltsAt c₁ s' (Pure.pure x) (Pure.pure x) ∧
          ∀ b, used → s' b ∨ c₁.rest.length < c.rest.length :=
      ⟨fun _ => False, .pure id, fun _ hu => .inr (htakes (.inr hu))⟩
    cases t with
    | skip => exact ⟨_, hgo trivial, fun _ => .inl⟩
    | one a =>
      refine ⟨fun _ => used, (hgo trivial).bind fun x c₂ hs₂ ht₂ => ?_, fun _ => .inl⟩
      exact ⟨fun _ => False, .pure id, fun _ hu => .inr (ht₂ hu)⟩
    | last a b => exact hend ([a], b) id
    | stop b => exact hend ([], b) id

theorem Halts.iterateFrom {used : Prop} {step step' : σ → Parse (σ ⊕ β)}
    (h : ∀ x, Halts n (fun y => y.isLeft = true ∨ used) (step x) (step' x)) {fuel : Nat} (x : σ)
    (hl : c.rest.length < fuel) (hn : c.rest.length < n) (hm : ¬ HasStrayMark c.rest) :
    HaltsAt c (fun _ => used) (iterateFrom step fuel x) (iterateFrom step' fuel x) := by
  induction fuel generalizing x c with
  | zero => exact absurd hl (Nat.not_lt_zero _)
  | succ fuel ih =>
    refine ((h x).run c hn hm).bind fun y c₁ hs htakes => ?_
    cases y with
    | inl x' =>
      have hlt := htakes (.inl rfl)
      exact ⟨_, ih x' (by omega) (by omega) fun h => hm (h.of_suffix hs), fun _ => .inl⟩
    | inr b => exact ⟨fun _ => False, .pure id, fun _ hu => .inr (htakes (.inr hu))⟩

theorem Halts.iterate (used : Prop) {step step' : σ → Parse (σ ⊕ β)}
    (h : ∀ x, Halts n (fun y => y.isLeft = true ∨ used) (step x) (step' x)) (x : σ) :
    Halts n (fun _ => used) (iterate step x) (iterate step' x) :=
  ⟨fun _ => Halts.iterateFrom h x (Nat.lt_succ_self _)⟩

/-- A list between commas whose items take a token. -/
theorem Halts.commaList (close : String) (h : Halts n (fun _ => True) p p') :
    Halts n (fun _ => False) (commaList close p) (commaList close p') := by
  refine .collect _ (.whether (.nextIs close) (.pure (by simp [Turn.GoesOn])) (.taken h fun _ => ?_))
  exact .bind (.accept ",") fun _ => .ite (fun _ => .pure id) fun _ => .pure id

/-! ### Tokens that are passed over -/

variable {ts : List Token} {last : Int}

theorem closeGroups_suffix {ds : List Delimiter} (h : closeGroups ds last ts = .ok c') :
    c'.rest <:+ ts := by
  induction ts generalizing ds last with
  | nil =>
    cases ds with
    | nil => exact Except.ok.inj h ▸ List.suffix_refl _
    | cons d ds => simp [closeGroups] at h
  | cons t ts ih =>
    have hgo {ds} (h : closeGroups ds t.hi ts = .ok c') := (ih h).trans (List.suffix_cons t ts)
    cases ds with
    | nil => exact Except.ok.inj (h : Except.ok _ = _) ▸ List.suffix_refl _
    | cons d ds =>
      simp only [closeGroups] at h
      split at h
      · exact hgo h
      · split at h
        · split at h
          · exact hgo h
          · simp at h
        · exact hgo h

theorem sweepFrom_suffix {judge : σ → Token → Verdict σ} {ended : Option Unfinished}
    {ds : List Delimiter} {x : σ} (h : sweepFrom judge ended ds x last ts = .ok c') :
    c'.rest <:+ ts := by
  induction ts generalizing ds x last with
  | nil =>
    cases ds with
    | nil =>
      cases ended with
      | none => exact Except.ok.inj (h : Except.ok _ = _) ▸ List.suffix_refl _
      | some during => simp [sweepFrom] at h
    | cons d ds => simp [sweepFrom] at h
  | cons t ts ih =>
    have hgo {ds x} (h : sweepFrom judge ended ds x t.hi ts = .ok c') :=
      (ih h).trans (List.suffix_cons t ts)
    cases ds with
    | nil =>
      simp only [sweepFrom] at h
      split at h
      · exact Except.ok.inj h ▸ List.suffix_refl _
      · simp at h
      · exact hgo h
    | cons d ds =>
      simp only [sweepFrom] at h
      split at h
      · exact hgo h
      · split at h
        · split at h
          · exact hgo h
          · simp at h
        · exact hgo h

/-- A reader that leaves the cursor where a function of it says. -/
theorem Halts.moving (run : Cursor → Except SyntaxError Cursor)
    (h : ∀ c c', run c = .ok c' → c'.rest <:+ c.rest) :
    Halts n (fun _ => False)
      (do
        match run (← get) with
        | .ok c' => set c'
        | .error e => MonadExcept.throw (Failure.rejected e) : Parse Unit)
      (do
        match run (← get) with
        | .ok c' => set c'
        | .error e => MonadExcept.throw (Failure.rejected e)) where
  run c _ _ := by
    refine .peek (a := c) rfl ?_
    cases hr : run c with
    | ok c' => exact ⟨rfl, h c c' hr, False.elim⟩
    | error e => exact ⟨rfl, nofun⟩

theorem Halts.skipGroup : Halts n (fun _ => True) skipGroup skipGroup := by
  rw [skipGroup_eq]
  refine .taken .next fun t => ?_
  cases t.opens? with
  | none => exact .reject _ _
  | some d =>
    exact .moving (fun c => closeGroups [d] c.last c.rest) fun _ _ => closeGroups_suffix

theorem Halts.sweep (judge : σ → Token → Verdict σ) (ended : Option Unfinished) (x : σ) :
    Halts n (fun _ => False) (sweep judge ended x) (sweep judge ended x) :=
  .moving (fun c => sweepFrom judge ended [] x c.last c.rest) fun _ _ => sweepFrom_suffix

theorem Halts.skipTo (stops : List String) :
    Halts n (fun _ => False) (skipTo stops) (skipTo stops) := .sweep _ _ _

theorem Halts.skipItemRest : Halts n (fun _ => True) skipItemRest skipItemRest := by
  cases n with
  | zero => exact .zero
  | succ n =>
    refine .bind (.sweep _ _ _) fun _ => .branchIf (.accept ";") (.pure id) ?_
    exact .taken .skipGroup fun _ => .bind (.accept ";") fun _ => .pure id

theorem Halts.skipGenerics : Halts n (fun _ => True) skipGenerics skipGenerics :=
  .taken (.expect "<") fun _ => .bind (.sweep _ _ _) fun _ => .bind .next fun _ => .pure id

/-- An attribute with `k` marks in front of its group. -/
theorem skipAttribute_halts (k : Nat) :
    Halts n (fun _ => True) (do Parse.skip k; Parse.skipGroup; return .inl () : Parse (Unit ⊕ Unit))
      (do Parse.skip k; Parse.skipGroup; return .inl ()) :=
  .bind (.skip k) fun _ => .taken .skipGroup fun _ => .pure id

/-- One turn of passing over attributes. -/
def attributeTurn : Parse (Unit ⊕ Unit) := do
  if ← nextIs "#" then
    if ← looksAt 1 "[" then
      skip 1
      skipGroup
      return .inl ()
    else if (← looksAt 1 "!") && (← looksAt 2 "[") then
      skip 2
      skipGroup
      return .inl ()
    else return .inr ()
  else return .inr ()

theorem skipAttributes_eq : skipAttributes = iterate (fun _ => attributeTurn) () := rfl

theorem attributeTurn_halts :
    Halts n (fun y => y.isLeft = true ∨ False) attributeTurn attributeTurn := by
  have hgo (k : Nat) : Halts n (fun y => y.isLeft = true ∨ False)
      (do Parse.skip k; Parse.skipGroup; return .inl () : Parse (Unit ⊕ Unit))
      (do Parse.skip k; Parse.skipGroup; return .inl ()) :=
    (skipAttribute_halts k).imp fun _ _ => trivial
  have hstop : Halts n (fun y => y.isLeft = true ∨ False) (Pure.pure (.inr ()) : Parse (Unit ⊕ Unit))
      (Pure.pure (.inr ())) := .pure (by simp)
  refine .whether (.nextIs "#") (.whether (.looksAt 1 "[") (hgo 1) ?_) hstop
  refine .looking (.looksAt 1 "!") fun _ _ => .looking (.looksAt 2 "[") fun _ _ => ?_
  exact .ite (fun _ => hgo 2) fun _ => hstop

/-- At the mark of an attribute that is none astray, a turn takes a token. -/
theorem attributeTurn_takes {t : Token} {us : List Token} (hr : c.rest = t :: us)
    (ht : t.isPunct "#" = true) (hm : ¬ HasStrayMark c.rest) :
    HaltsAt c (fun _ => True) attributeTurn attributeTurn := by
  have hmark : c.rest[0]?.any (·.is "#") = true := by
    simp_all [Token.isPunct, Token.is]
  have hbegins : c.rest[1]?.any (·.is "[") = true ∨
      (c.rest[1]?.any (·.is "!") && c.rest[2]?.any (·.is "[")) = true := by
    refine Decidable.byContradiction fun h => hm ⟨c.rest, List.suffix_refl _, ?_⟩
    rw [hr] at h ⊢
    exact ⟨ht, by simpa using h⟩
  have hgo (k : Nat) := (skipAttribute_halts k).run c (Nat.lt_succ_self _) hm
  refine .peek (a := true) (by rw [← hmark]; rfl) (.peek rfl ?_)
  by_cases hopen : c.rest[1]?.any (·.is "[") = true
  · rw [if_pos hopen]
    exact hgo 1
  · rw [if_neg hopen]
    refine .peek rfl (.peek rfl ?_)
    rw [if_pos (hbegins.resolve_left hopen)]
    exact hgo 2

theorem Halts.skipAttributes : Halts n (fun _ => False) skipAttributes skipAttributes :=
  .iterate _ (fun _ => attributeTurn_halts) ()

/-- At the mark of an attribute that is none astray, attributes are passed over with a token. -/
theorem skipAttributes_takes {t : Token} {us : List Token} (hr : c.rest = t :: us)
    (ht : t.isPunct "#" = true) (hm : ¬ HasStrayMark c.rest) :
    HaltsAt c (fun _ => True) skipAttributes skipAttributes := by
  rw [skipAttributes_eq]
  refine (attributeTurn_takes hr ht hm).bind fun y c₁ hs htakes => ?_
  have hlt := htakes trivial
  cases y with
  | inl _ =>
    have hrest := Halts.iterateFrom (fun _ => attributeTurn_halts) () hlt (Nat.lt_succ_self _)
      fun h => hm (h.of_suffix hs)
    exact ⟨_, hrest, fun _ _ => .inr hlt⟩
  | inr _ => exact ⟨fun _ => False, .pure id, fun _ _ => .inr hlt⟩

end Parse

end BuilderMigration
