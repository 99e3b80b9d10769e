import BuilderMigration.Proofs.Halting.Halts
import BuilderMigration.Proofs.Grammar.Group

/-! A logic of locality. One reader is run twice: on what is left of a group of tokens alone, and with
more tokens behind. Until the first run comes to the end of the group the second goes the same way, so
that it neither reads nor asks for a token behind the group. -/

namespace BuilderMigration

/-- A cursor with more tokens behind those that are left. -/
def Cursor.before (c : Cursor) (outer : List Token) : Cursor := ⟨c.rest ++ outer, c.last⟩

/-- A failure for want of tokens, which has no place in the text. -/
def Failure.AtEnd : Failure → Prop
  | .rejected e => e.line = 0
  | .cutStatement => True
  | .endless => False

/-! ### Tokens that close no group -/

theorem Token.closes?_of_kind {t : Token} (h : t.kind ≠ .punct) : t.closes? = none := by
  simp [Token.closes?, Token.isPunct, h]

theorem Token.closes?_of_value {t : Token} (h : t.value ∉ [")", "]", "\x7d"]) : t.closes? = none := by
  simp_all [Token.closes?, Token.isPunct]

theorem Token.closes?_of_is {t : Token} {v : String} (hv : v ∉ [")", "]", "\x7d"])
    (h : t.is v = true) : t.closes? = none := by
  refine closes?_of_value ?_
  rwa [show t.value = v by simp_all [Token.is]]

namespace Parse

variable {α β σ : Type} {G : TokenGroup} {outer : List Token} {j k : Nat} {c c' : Cursor}
  {p p' q q' : Parse α} {f f' : α → Parse β}

/-- Whether a run has come to the end of the tokens, or to none. -/
def RunsOut : Except Failure (α × Cursor) → Prop
  | .ok (_, c) => c.rest = []
  | .error e => e.AtEnd ∨ e = .endless

/-- From `c` the first reader comes to the end of the tokens, or the second goes the same way with
more tokens behind. Where no tokens are left it has come to the end. -/
def LocalAt (outer : List Token) (c : Cursor) (p p' : Parse α) : Prop :=
  RunsOut (p c) ∨ c.rest ≠ [] ∧ match p c with
    | .ok (a, c') => c'.rest <:+ c.rest ∧ p' (c.before outer) = .ok (a, c'.before outer)
    | .error e => p' (c.before outer) = .error e

theorem LocalAt.ok {a : α} (hne : c.rest ≠ []) (hp : p c = .ok (a, c'))
    (hp' : p' (c.before outer) = .ok (a, c'.before outer)) (hs : c'.rest <:+ c.rest) :
    LocalAt outer c p p' := by
  refine .inr ⟨hne, ?_⟩
  rw [hp]
  exact ⟨hs, hp'⟩

theorem LocalAt.error {e : Failure} (hne : c.rest ≠ []) (hp : p c = .error e)
    (hp' : p' (c.before outer) = .error e) : LocalAt outer c p p' := by
  refine .inr ⟨hne, ?_⟩
  rw [hp]
  exact hp'

/-- Where no tokens are left, a local reader has come to the end. -/
theorem LocalAt.runsOut (h : LocalAt outer c p p') (hr : c.rest = []) : RunsOut (p c) :=
  h.resolve_right fun h => h.1 hr

theorem LocalAt.suffix {a : α} (h : LocalAt outer c p p') (hp : p c = .ok (a, c')) :
    c'.rest <:+ c.rest := by
  rcases h with h | ⟨-, h⟩
  · rw [hp] at h
    exact (h : c'.rest = []) ▸ List.nil_suffix
  · rw [hp] at h
    exact h.1

/-- A run that has not come to the end goes on with more tokens behind. -/
theorem LocalAt.extends {a : α} (h : LocalAt outer c p p') (hp : p c = .ok (a, c'))
    (hne : c'.rest ≠ []) : p' (c.before outer) = .ok (a, c'.before outer) := by
  rcases h with h | ⟨-, h⟩
  · rw [hp] at h
    exact absurd h hne
  · rw [hp] at h
    exact h.2

/-- A failure that is not for want of tokens is the same with more tokens behind. -/
theorem LocalAt.fails {e : Failure} (h : LocalAt outer c p p') (hp : p c = .error e)
    (hne : ¬ e.AtEnd) (he : e ≠ .endless) : p' (c.before outer) = .error e := by
  rcases h with h | ⟨-, h⟩
  · rw [hp] at h
    exact absurd h (not_or.2 ⟨hne, he⟩)
  · rw [hp] at h
    exact h

theorem LocalAt.pure {a : α} : LocalAt outer c (pure a) (pure a) := by
  by_cases hr : c.rest = []
  · exact .inl hr
  · exact .ok hr rfl rfl (List.suffix_refl _)

/-- A reader that fails for want of tokens. -/
theorem LocalAt.wanting {e : Failure} (h : e.AtEnd) :
    LocalAt outer c (throw e : Parse α) p' := .inl (.inl h)

theorem LocalAt.endless : LocalAt outer c (throw .endless : Parse α) p' := .inl (.inr rfl)

theorem LocalAt.reject (t : Token) (cause : SyntaxError.Cause) (hne : c.rest ≠ []) :
    LocalAt outer c (rejectAt t cause : Parse α) (rejectAt t cause) := .error hne rfl rfl

/-- One reader behind another, with the outcome of the first at hand. -/
theorem LocalAt.bind (hp : LocalAt outer c p p')
    (hf : ∀ a c', p c = .ok (a, c') → c'.rest <:+ c.rest → LocalAt outer c' (f a) (f' a)) :
    LocalAt outer c (p >>= f) (p' >>= f') := by
  cases h : p c with
  | ok x =>
    obtain ⟨a, c₁⟩ := x
    have hfa := hf a c₁ h (hp.suffix h)
    by_cases hr : c₁.rest = []
    · refine .inl ?_
      rw [bind_of_ok h]
      exact hfa.runsOut hr
    · have hne : c.rest ≠ [] := fun hc => hr (List.suffix_nil.1 (hc ▸ hp.suffix h))
      have h' := hp.extends h hr
      have hs := hp.suffix h
      rcases hfa with hfa | ⟨-, hfa⟩
      · exact .inl (by rwa [bind_of_ok h])
      · refine .inr ⟨hne, ?_⟩
        rw [bind_of_ok h, bind_of_ok h']
        split at hfa
        · exact ⟨hfa.1.trans hs, hfa.2⟩
        · exact hfa
  | error e =>
    have he : (p >>= f) c = .error e := by rw [bind_apply, h]
    rcases hp with hp | ⟨hne, hp⟩
    · rw [h] at hp
      exact .inl (by rwa [he])
    · rw [h] at hp
      exact .error hne he (by rw [bind_apply, hp])

theorem LocalAt.ite {b : Prop} [Decidable b] (hp : b → LocalAt outer c p p')
    (hq : ¬ b → LocalAt outer c q q') :
    LocalAt outer c (if b then p else q) (if b then p' else q') := by
  by_cases h : b
  · simpa [h] using hp h
  · simpa [h] using hq h

/-- Readers that go on by what one sees that only looks. -/
theorem LocalAt.peek {a a' : α} (hp : p c = .ok (a, c))
    (hp' : c.rest ≠ [] → p' (c.before outer) = .ok (a', c.before outer))
    (h : LocalAt outer c (f a) (f' a')) : LocalAt outer c (p >>= f) (p' >>= f') := by
  rcases h with h | ⟨hne, h⟩
  · exact .inl (by rwa [bind_of_ok hp])
  · exact .inr ⟨hne, by rwa [bind_of_ok hp, bind_of_ok (hp' hne)]⟩

/-- Readers that go on by where they stand. -/
theorem LocalAt.standing {f f' : Cursor → Parse β}
    (h : LocalAt outer c (f c) (f' (c.before outer))) : LocalAt outer c (get >>= f) (get >>= f') :=
  .peek (show (get : Parse Cursor) c = .ok (c, c) from rfl)
    (fun _ => show (get : Parse Cursor) (c.before outer) = .ok (c.before outer, c.before outer) from rfl) h

/-- A reader that is local wherever some part of a group is left, of at least `k` tokens. -/
structure Local (G : TokenGroup) (outer : List Token) (k : Nat) (p : Parse α) : Prop where
  run (c : Cursor) (hs : c.rest <:+ G.tokens) (hk : k ≤ c.rest.length) : LocalAt outer c p p

/-! ### Sequences -/

theorem Local.mono (h : Local G outer j p) (hk : j ≤ k) : Local G outer k p :=
  ⟨fun c hs hl => h.run c hs (Nat.le_trans hk hl)⟩

theorem Local.pure {a : α} : Local G outer k (pure a) := ⟨fun _ _ _ => .pure⟩

theorem Local.throw {e : Failure} (h : e.AtEnd) : Local G outer k (throw e : Parse α) :=
  ⟨fun _ _ _ => .wanting h⟩

theorem Local.endless : Local G outer k (MonadExcept.throw Failure.endless : Parse α) :=
  ⟨fun _ _ _ => .endless⟩

theorem Local.rejectEnd (during : Unfinished) : Local G outer k (rejectEnd during : Parse α) :=
  .throw rfl

/-- At a token that is still left. -/
theorem Local.reject (t : Token) (cause : SyntaxError.Cause) :
    Local G outer (k + 1) (rejectAt t cause : Parse α) where
  run _ _ hk := .reject t cause (List.ne_nil_of_length_pos (Nat.zero_lt_of_lt hk))

theorem Local.bind (hp : Local G outer k p) (hf : ∀ a, Local G outer 0 (f a)) :
    Local G outer k (p >>= f) where
  run c hs hk := (hp.run c hs hk).bind fun a c₁ _ hs₁ =>
    (hf a).run c₁ (hs₁.trans hs) (Nat.zero_le _)

theorem Local.ite {b : Prop} [Decidable b] (hp : b → Local G outer k p)
    (hq : ¬ b → Local G outer k q) : Local G outer k (if b then p else q) := by
  by_cases h : b
  · simpa [h] using hp h
  · simpa [h] using hq h

/-! ### Looking ahead -/

theorem look_apply (j : Nat) (c : Cursor) : look j c = .ok (c.rest[j]?, c) := rfl

theorem looksAt_apply (j : Nat) (v : String) (c : Cursor) :
    looksAt j v c = .ok (c.rest[j]?.any (·.is v), c) := rfl

/-- Tokens behind those that are left hide none of them. -/
theorem getElem?_before (outer : List Token) (hj : j = 0 ∨ j < c.rest.length) (hne : c.rest ≠ []) :
    (c.before outer).rest[j]? = c.rest[j]? :=
  List.getElem?_append_left (hj.elim (fun h => h ▸ List.length_pos_iff.2 hne) id)

/-- Behind a token that is seen and closes no group there is another. -/
theorem goes_on_of_any (hs : c.rest <:+ G.tokens) {P : Token → Bool}
    (hP : ∀ t, P t = true → t.closes? = none) (h : c.rest[j]?.any P = true) :
    j + 1 < c.rest.length := by
  obtain ⟨t, ht, hPt⟩ := (Option.any_eq_true _ _).1 h
  exact TokenGroup.goes_on hs ht (hP t hPt)

/-- A reader that only looks and sees the same with more tokens behind, if any token is left. -/
def SeesAt (outer : List Token) (c : Cursor) (p : Parse α) : Prop :=
  ∃ a, p c = .ok (a, c) ∧ (c.rest ≠ [] → p (c.before outer) = .ok (a, c.before outer))

theorem SeesAt.pure {a : α} : SeesAt outer c (pure a) := ⟨a, rfl, fun _ => rfl⟩

theorem SeesAt.bind (hp : SeesAt outer c p) (hf : ∀ a, p c = .ok (a, c) → SeesAt outer c (f a)) :
    SeesAt outer c (p >>= f) := by
  obtain ⟨a, ha, ha'⟩ := hp
  obtain ⟨b, hb, hb'⟩ := hf a ha
  exact ⟨b, (bind_of_ok ha).trans hb, fun hne => (bind_of_ok (ha' hne)).trans (hb' hne)⟩

theorem SeesAt.ite {b : Prop} [Decidable b] (hp : b → SeesAt outer c p)
    (hq : ¬ b → SeesAt outer c q) : SeesAt outer c (if b then p else q) := by
  by_cases h : b
  · simpa [h] using hp h
  · simpa [h] using hq h

theorem SeesAt.look (hj : j = 0 ∨ j < c.rest.length) : SeesAt outer c (look j) :=
  ⟨_, look_apply j c, fun hne => by rw [look_apply, getElem?_before outer hj hne]⟩

theorem SeesAt.looksAt (hj : j = 0 ∨ j < c.rest.length) (v : String) : SeesAt outer c (looksAt j v) :=
  .bind (.look hj) fun _ _ => .pure

theorem SeesAt.looksAtKind (hj : j = 0 ∨ j < c.rest.length) (kind : TokenKind) :
    SeesAt outer c (looksAtKind j kind) := .bind (.look hj) fun _ _ => .pure

theorem SeesAt.looksAtOneOf (hj : j = 0 ∨ j < c.rest.length) (vs : List String) :
    SeesAt outer c (looksAtOneOf j vs) := .bind (.look hj) fun _ _ => .pure

theorem SeesAt.nextIs (v : String) : SeesAt outer c (nextIs v) := .looksAt (.inl rfl) v

theorem SeesAt.spanFrom (lo : Int) : SeesAt outer c (spanFrom lo) := ⟨_, rfl, fun _ => rfl⟩

/-- A look at a token, and what is seen by it. -/
theorem SeesAt.looking {g : Option Token → Parse β} (hj : j = 0 ∨ j < c.rest.length)
    (h : SeesAt outer c (g c.rest[j]?)) : SeesAt outer c (Parse.look j >>= g) := by
  obtain ⟨b, hb, hb'⟩ := h
  refine ⟨b, (bind_of_ok (look_apply j c)).trans hb, fun hne => ?_⟩
  rw [bind_of_ok (look_apply j _), getElem?_before outer hj hne]
  exact hb' hne

/-- A look whose outcome does not matter. -/
theorem SeesAt.regardless {g : Option Token → Parse β} {b : β} (h : ∀ o, g o = Pure.pure b) :
    SeesAt outer c (Parse.look j >>= g) :=
  ⟨b, by rw [bind_of_ok (look_apply j c), h]; rfl,
    fun _ => by rw [bind_of_ok (look_apply j _), h]; rfl⟩

theorem SeesAt.lookNext {g : Option Token → Parse β} (hnil : SeesAt outer c (g none))
    (hcons : ∀ t us, c.rest = t :: us → SeesAt outer c (g (some t))) :
    SeesAt outer c (Parse.look 0 >>= g) := by
  refine .looking (.inl rfl) ?_
  cases hr : c.rest with
  | nil => exact hnil
  | cons t us => exact hcons t us hr

theorem LocalAt.seeing (hp : SeesAt outer c p) (h : ∀ a, LocalAt outer c (f a) (f' a)) :
    LocalAt outer c (p >>= f) (p >>= f') := by
  obtain ⟨a, ha, ha'⟩ := hp
  exact .peek ha ha' (h a)

theorem Local.looking (hp : ∀ {c : Cursor}, SeesAt outer c p) (h : ∀ a, Local G outer k (f a)) :
    Local G outer k (p >>= f) where
  run c hs hk := .seeing hp fun a => (h a).run c hs hk

/-- The same for a reader that looks further, where the group is known to go on. -/
theorem Local.lookingAhead
    (hp : ∀ c : Cursor, c.rest <:+ G.tokens → k ≤ c.rest.length → SeesAt outer c p)
    (h : ∀ a, Local G outer k (f a)) : Local G outer k (p >>= f) where
  run c hs hk := .seeing (hp c hs hk) fun a => (h a).run c hs hk

/-- The same for a yes or no. -/
theorem Local.whether {x : Parse Bool} (hx : ∀ {c : Cursor}, SeesAt outer c x)
    (hp : Local G outer k p) (hq : Local G outer k q) :
    Local G outer k (do if ← x then p else q) :=
  .looking hx fun _ => .ite (fun _ => hp) fun _ => hq

/-- A reader that begins with a look at the next token, which there may be or not. -/
theorem LocalAt.lookNext {g : Option Token → Parse β} (hnil : LocalAt outer c (g none) (g none))
    (hcons : ∀ t us, c.rest = t :: us → LocalAt outer c (g (some t)) (g (some t))) :
    LocalAt outer c (look 0 >>= g) (look 0 >>= g) := by
  refine .peek (look_apply 0 c)
    (fun hne => by rw [look_apply, getElem?_before outer (.inl rfl) hne]) ?_
  cases hr : c.rest with
  | nil => exact hnil
  | cons t us => exact hcons t us hr

theorem Local.lookNext {g : Option Token → Parse β} (hnil : Local G outer 0 (g none))
    (hcons : ∀ t, Local G outer 1 (g (some t))) : Local G outer k (look 0 >>= g) where
  run c hs _ := .lookNext (hnil.run c hs (Nat.zero_le _)) fun t us hr =>
    (hcons t).run c hs (by simp [hr])

/-- A reader that goes on by whether the next token is `v`, with this token at hand. -/
theorem Local.onNext {v : String}
    (hp : ∀ t us last, t :: us <:+ G.tokens → t.is v = true → LocalAt outer ⟨t :: us, last⟩ p p)
    (hq : Local G outer k q) : Local G outer k (do if ← nextIs v then p else q) where
  run c hs hk := by
    refine .peek (looksAt_apply 0 v c)
      (fun hne => by rw [nextIs, looksAt_apply, getElem?_before outer (.inl rfl) hne]) ?_
    obtain ⟨_ | ⟨t, us⟩, last⟩ := c
    · exact hq.run _ hs hk
    cases ht : t.is v with
    | false => simpa [ht] using hq.run _ hs hk
    | true => simpa [ht] using hp t us last hs ht

/-- A reader that goes on by whether a token is `v`: if it is, there is another behind it. -/
theorem Local.whetherAt (hj : j = 0 ∨ j < k) {v : String} (hv : v ∉ [")", "]", "\x7d"])
    (hp : Local G outer (j + 2) p) (hq : Local G outer k q) :
    Local G outer k (do if ← looksAt j v then p else q) where
  run c hs hk := by
    have hl : j = 0 ∨ j < c.rest.length := hj.imp_right fun h => Nat.lt_of_lt_of_le h hk
    refine .peek (looksAt_apply j v c)
      (fun hne => by rw [looksAt_apply, getElem?_before outer hl hne]) ?_
    cases ht : c.rest[j]?.any (·.is v) with
    | false => exact hq.run c hs hk
    | true => exact hp.run c hs (goes_on_of_any hs (fun _ => Token.closes?_of_is hv) ht)

section Ahead

variable {x y : Parse Bool} {F : Bool → Bool → Parse β} {P : Token → Bool}
  {see : Option Token → Bool}

/-- Two looks, the second of which matters only if the first has found a token that closes no group:
they come to the same with more tokens behind. -/
theorem ahead_apply (outer : List Token) (hs : c.rest <:+ G.tokens) (hj : j = 0 ∨ j < c.rest.length)
    (hP : ∀ t, P t = true → t.closes? = none) (hx : ∀ c : Cursor, x c = .ok (c.rest[j]?.any P, c))
    (hy : ∀ c : Cursor, y c = .ok (see c.rest[j + 1]?, c)) (hF : ∀ b, F false b = F false false) :
    ∃ a b, (x >>= fun a => y >>= F a) c = F a b c ∧ (c.rest ≠ [] →
      (x >>= fun a => y >>= F a) (c.before outer) = F a b (c.before outer)) := by
  refine ⟨c.rest[j]?.any P, see c.rest[j + 1]?, ?_, fun hne => ?_⟩
  · rw [bind_of_ok (hx c), bind_of_ok (hy c)]
  rw [bind_of_ok (hx _), bind_of_ok (hy _), getElem?_before outer hj hne]
  cases h : c.rest[j]?.any P with
  | false => rw [hF, hF (see c.rest[j + 1]?)]
  | true => rw [getElem?_before outer (.inr (goes_on_of_any hs hP h)) hne]

theorem SeesAt.ahead (hs : c.rest <:+ G.tokens) (hj : j = 0 ∨ j < c.rest.length)
    (hP : ∀ t, P t = true → t.closes? = none) (hx : ∀ c : Cursor, x c = .ok (c.rest[j]?.any P, c))
    (hy : ∀ c : Cursor, y c = .ok (see c.rest[j + 1]?, c)) (hF : ∀ b, F false b = F false false)
    (h : ∀ a b, SeesAt outer c (F a b)) : SeesAt outer c (x >>= fun a => y >>= F a) := by
  obtain ⟨a, b, hc, hc'⟩ := ahead_apply outer hs hj hP hx hy hF
  obtain ⟨v, hv, hv'⟩ := h a b
  exact ⟨v, hc.trans hv, fun hne => (hc' hne).trans (hv' hne)⟩

theorem Local.aheadOf (hj : j = 0 ∨ j < k) (hP : ∀ t, P t = true → t.closes? = none)
    (hx : ∀ c : Cursor, x c = .ok (c.rest[j]?.any P, c))
    (hy : ∀ c : Cursor, y c = .ok (see c.rest[j + 1]?, c)) (hF : ∀ b, F false b = F false false)
    (h : ∀ a b, Local G outer k (F a b)) : Local G outer k (x >>= fun a => y >>= F a) where
  run c hs hk := by
    have hl : j = 0 ∨ j < c.rest.length := hj.imp_right fun h => Nat.lt_of_lt_of_le h hk
    obtain ⟨a, b, hc, hc'⟩ := ahead_apply outer hs hl hP hx hy hF
    rcases (h a b).run c hs hk with h | ⟨hne, h⟩
    · exact .inl (by rwa [hc])
    · exact .inr ⟨hne, by rwa [hc, hc' hne]⟩

/-- Readers that go on by whether a token is `v` and by the one behind it. -/
theorem Local.ahead (hj : j = 0 ∨ j < k) {v : String} (hv : v ∉ [")", "]", "\x7d"])
    (hy : ∀ c : Cursor, y c = .ok (see c.rest[j + 1]?, c)) (hp : Local G outer k p)
    (hq : Local G outer k q) : Local G outer k (do if (← looksAt j v) && (← y) then p else q) :=
  .aheadOf hj (fun _ => Token.closes?_of_is hv) (looksAt_apply j v) hy (fun _ => rfl) fun _ _ =>
    .ite (fun _ => hp) fun _ => hq

end Ahead

/-- Where a reader is rejected another begins at the same place. It must not be rejected for want of
tokens: behind the group there may be such as it asks for. -/
theorem LocalAt.orElse (h : ∀ e, p c = .error e → ¬ e.AtEnd) (hp : LocalAt outer c p p')
    (hq : LocalAt outer c q q') : LocalAt outer c (orElse p q) (orElse p' q') := by
  cases hr : p c with
  | ok x =>
    obtain ⟨a, c₁⟩ := x
    have hor : Parse.orElse p q c = .ok (a, c₁) := by rw [Parse.orElse, hr]
    by_cases hne : c₁.rest = []
    · refine .inl ?_
      rw [hor]
      exact hne
    · have hc : c.rest ≠ [] := fun hc => hne (List.suffix_nil.1 (hc ▸ hp.suffix hr))
      exact .ok hc hor (by rw [Parse.orElse, hp.extends hr hne]) (hp.suffix hr)
  | error e =>
    have he := h e hr
    cases e with
    | rejected e =>
      have hr' := hp.fails hr he (by simp)
      simpa only [LocalAt, Parse.orElse, hr, hr'] using hq
    | cutStatement => exact absurd trivial he
    | endless =>
      refine .inl ?_
      rw [Parse.orElse, hr]
      exact .inr rfl

/-! ### Single tokens -/

theorem Local.next : Local G outer k next where
  run c _ _ := by
    obtain ⟨_ | ⟨t, us⟩, last⟩ := c
    · exact .inl (.inl rfl)
    · exact .ok (a := t) (List.cons_ne_nil t us) rfl rfl (List.suffix_cons t us)

theorem Local.skip (n : Nat) : Local G outer k (skip n) := by
  induction n generalizing k with
  | zero => exact .pure
  | succ n ih => exact .bind .next fun _ => ih

theorem Local.accept (v : String) : Local G outer k (accept v) :=
  .whether (.nextIs v) (.bind .next fun _ => .pure) .pure

theorem Local.acceptKind (kind : TokenKind) : Local G outer k (acceptKind kind) :=
  .whether (.looksAtKind (.inl rfl) kind) (.bind .next fun _ => .pure) .pure

theorem Local.expect (v : String) : Local G outer k (expect v) :=
  .lookNext (.rejectEnd _) fun _ => .ite (fun _ => .next) fun _ => .reject _ _

theorem Local.expectName : Local G outer k expectName :=
  .lookNext (.rejectEnd _) fun _ =>
    .ite (fun _ => .bind .next fun _ => .pure) fun _ => .reject _ _

/-! ### Loops -/

/-- With more tokens behind, a loop has more turns at its disposal; it does not need them. -/
theorem Local.collect {turn : Parse (Turn α β)} (h : Local G outer 0 turn) :
    Local G outer k (collect turn) := by
  suffices hfuel : ∀ fuel fuel' (c : Cursor), fuel ≤ fuel' → c.rest <:+ G.tokens →
      LocalAt outer c (collectFrom turn fuel) (collectFrom turn fuel') from
    ⟨fun c hs _ => hfuel (c.rest.length + 1) ((c.rest ++ outer).length + 1) c (by simp) hs⟩
  intro fuel
  induction fuel with
  | zero => intro fuel' c _ _; exact .endless
  | succ fuel ih =>
    rintro (_ | fuel') c hle hs
    · exact absurd hle (Nat.not_succ_le_zero _)
    refine (h.run c hs (Nat.zero_le _)).bind fun t c₁ _ hs₁ => ?_
    have hgo := ih fuel' c₁ (Nat.le_of_succ_le_succ hle) (hs₁.trans hs)
    cases t with
    | skip => exact hgo
    | one a => exact hgo.bind fun _ _ _ _ => .pure
    | last a b => exact .pure
    | stop b => exact .pure

theorem Local.iterate {step : σ → Parse (σ ⊕ β)} (h : ∀ s, Local G outer 0 (step s)) (s : σ) :
    Local G outer k (iterate step s) := by
  suffices hfuel : ∀ fuel fuel' s (c : Cursor), fuel ≤ fuel' → c.rest <:+ G.tokens →
      LocalAt outer c (iterateFrom step fuel s) (iterateFrom step fuel' s) from
    ⟨fun c hs _ => hfuel (c.rest.length + 1) ((c.rest ++ outer).length + 1) s c (by simp) hs⟩
  intro fuel
  induction fuel with
  | zero => intro fuel' s c _ _; exact .endless
  | succ fuel ih =>
    rintro (_ | fuel') s c hle hs
    · exact absurd hle (Nat.not_succ_le_zero _)
    refine ((h s).run c hs (Nat.zero_le _)).bind fun y c₁ _ hs₁ => ?_
    cases y with
    | inl s' => exact ih fuel' s' c₁ (Nat.le_of_succ_le_succ hle) (hs₁.trans hs)
    | inr b => exact .pure

theorem Local.commaList (close : String) (h : Local G outer 0 p) :
    Local G outer k (commaList close p) := by
  refine .collect (.whether (.nextIs close) .pure (.bind h fun _ => ?_))
  exact .bind (.accept ",") fun _ => .ite (fun _ => .pure) fun _ => .pure

/-! ### Tokens that are passed over -/

variable {ts : List Token} {last : Int}

/-- Whether tokens were passed over to their end. -/
def SweepsOut : Except SyntaxError Cursor → Prop
  | .ok c => c.rest = []
  | .error e => e.line = 0

theorem closeGroups_local (outer : List Token) (ds : List Delimiter) (last : Int) (ts : List Token) :
    SweepsOut (closeGroups ds last ts) ∨ ts ≠ [] ∧
      closeGroups ds last (ts ++ outer) = (closeGroups ds last ts).map (·.before outer) := by
  induction ts generalizing ds last with
  | nil =>
    refine .inl ?_
    cases ds <;> rfl
  | cons t ts ih =>
    have hgo (ds : List Delimiter) := (ih ds t.hi).imp_right And.right
    cases ds with
    | nil => exact .inr ⟨List.cons_ne_nil t ts, rfl⟩
    | cons d ds =>
      simp only [List.cons_append, closeGroups, ne_eq, reduceCtorEq, not_false_eq_true, true_and]
      split
      · exact hgo _
      · split
        · split
          · exact hgo _
          · exact .inr rfl
        · exact hgo _

theorem sweepFrom_local (outer : List Token) (judge : σ → Token → Verdict σ)
    (ended : Option Unfinished) (ds : List Delimiter) (x : σ) (last : Int) (ts : List Token) :
    SweepsOut (sweepFrom judge ended ds x last ts) ∨ ts ≠ [] ∧
      sweepFrom judge ended ds x last (ts ++ outer) =
        (sweepFrom judge ended ds x last ts).map (·.before outer) := by
  induction ts generalizing ds x last with
  | nil =>
    refine .inl ?_
    cases ds with
    | nil => cases ended <;> rfl
    | cons d ds => rfl
  | cons t ts ih =>
    have hgo (ds : List Delimiter) (x : σ) := (ih ds x t.hi).imp_right And.right
    cases ds with
    | nil =>
      simp only [List.cons_append, sweepFrom, ne_eq, reduceCtorEq, not_false_eq_true, true_and]
      split
      · exact .inr rfl
      · exact .inr rfl
      · exact hgo _ _
    | cons d ds =>
      simp only [List.cons_append, sweepFrom, ne_eq, reduceCtorEq, not_false_eq_true, true_and]
      split
      · exact hgo _ _
      · split
        · split
          · exact hgo _ _
          · exact .inr rfl
        · exact hgo _ _

/-- A reader that leaves the cursor where a function of it says. -/
theorem Local.moving (run : Cursor → Except SyntaxError Cursor)
    (hs : ∀ c c', run c = .ok c' → c'.rest <:+ c.rest)
    (h : ∀ c : Cursor, SweepsOut (run c) ∨ c.rest ≠ [] ∧
      run (c.before outer) = (run c).map (·.before outer)) :
    Local G outer k (do
      match run (← get) with
      | .ok c' => set c'
      | .error e => MonadExcept.throw (Failure.rejected e) : Parse Unit) where
  run c _ _ := by
    refine .standing ?_
    rcases h c with h | ⟨hne, h⟩
    · refine .inl ?_
      cases hr : run c with
      | ok c' => rwa [hr] at h
      | error e =>
        rw [hr] at h
        exact .inl h
    · rw [h]
      cases hr : run c with
      | ok c' => exact .ok hne rfl rfl (hs c c' hr)
      | error e => exact .error hne rfl rfl

theorem Local.skipGroup : Local G outer k skipGroup where
  run c hs _ := by
    obtain ⟨_ | ⟨t, us⟩, last⟩ := c
    · exact .inl (.inl rfl)
    cases ho : t.opens? with
    | none =>
      -- The token may be the last of the group, so that there is nothing left to be rejected at.
      have hreject (ts : List Token) : Parse.skipGroup ⟨t :: ts, last⟩ =
          rejectAt t (.expected "delimiter" t.value) ⟨ts, t.hi⟩ := by
        rw [skipGroup_eq, bind_of_ok (a := t) rfl, ho]
      exact .error (List.cons_ne_nil t us) (hreject us) (hreject (us ++ outer))
    | some d =>
      rw [skipGroup_eq]
      refine (Local.next.run _ hs (Nat.zero_le _)).bind fun a c₁ ha hs₁ => ?_
      obtain ⟨rfl, -⟩ := Prod.mk.inj (Except.ok.inj ha)
      simp only [ho]
      refine (Local.moving (fun c => closeGroups [d] c.last c.rest) (fun _ _ => closeGroups_suffix)
        fun c => closeGroups_local outer [d] c.last c.rest).run c₁ (hs₁.trans hs) (Nat.zero_le _)

theorem Local.sweep (judge : σ → Token → Verdict σ) (ended : Option Unfinished) (x : σ) :
    Local G outer k (sweep judge ended x) :=
  .moving (fun c => sweepFrom judge ended [] x c.last c.rest) (fun _ _ => sweepFrom_suffix)
    fun c => sweepFrom_local outer judge ended [] x c.last c.rest

theorem Local.skipTo (stops : List String) : Local G outer k (skipTo stops) := .sweep _ _ _

theorem Local.skipItemRest : Local G outer k skipItemRest := by
  refine .bind (.sweep _ _ _) fun _ => .bind (.accept ";") fun _ => .ite (fun _ => .pure) fun _ => ?_
  exact .bind .skipGroup fun _ => .bind (.accept ";") fun _ => .pure

theorem Local.skipGenerics : Local G outer k skipGenerics :=
  .bind (.expect "<") fun _ => .bind (.sweep _ _ _) fun _ => .bind .next fun _ => .pure

theorem attributeTurn_local : Local G outer 0 attributeTurn := by
  have hgo (n : Nat) {k : Nat} : Local G outer k
      (do Parse.skip n; Parse.skipGroup; return .inl () : Parse (Unit ⊕ Unit)) :=
    .bind (.skip n) fun _ => .bind .skipGroup fun _ => .pure
  refine .whetherAt (.inl rfl) (by decide) ?_ .pure
  refine .whetherAt (.inr (by decide)) (by decide) (hgo 1) ?_
  exact .ahead (.inr (by decide)) (by decide) (fun _ => rfl) (hgo 2) .pure

theorem Local.skipAttributes : Local G outer k skipAttributes :=
  .iterate (fun _ => attributeTurn_local) ()

end Parse

end BuilderMigration
