import BuilderMigration.Proofs.Grammar.Yields
import BuilderMigration.Proofs.Likeness.Relabeling
import BuilderMigration.Proofs.Token.Stands
import BuilderMigration.Proofs.Tree.Named

/-! A logic of readers that run side by side, one over the tokens of a text and one over tokens that are
like them: of the same kinds in the same order, with other names and at other places. Where no name
becomes a word that the grammar asks for, or was one, the readers end alike: what one reads is what the
other reads, relabeled, or they fail in the same way. Along the way it is kept that every name which is
read is one of the text. -/

namespace BuilderMigration

/-! ### Tokens that are like others -/

/-- The words that productions ask for. -/
def Grammar.words : List String :=
  ["as", "async", "await", "break", "const", "continue", "dyn", "else", "enum", "extern", "false",
   "fn", "for", "if", "impl", "in", "let", "loop", "match", "mod", "move", "mut", "pub", "return",
   "self", "static", "struct", "trait", "true", "type", "unsafe", "use", "while", "yield",
   "macro_rules", "Fn", "FnMut", "FnOnce", "_"]

/-- What a token may be compared with: one of these words, or what is no word. -/
def Asked (v : String) : Prop := ¬ IsWord v ∨ v ∈ Grammar.words

instance (v : String) : Decidable (Asked v) := inferInstanceAs (Decidable (_ ∨ _))

/-- How the tokens of one text go with those of another. Names are relabeled in such a way that none
becomes or ceases to be a word that is asked for, and places are kept in order. -/
structure Likeness extends Relabeling where
  /-- What is known of the names. -/
  Named : String → Prop
  /-- Whether tokens are the same in all but their places. -/
  same : Prop
  name_eq_iff {v : String} (hv : Asked v) (u : String) : name u = v ↔ u = v
  place_le {p q : Int} (h : p ≤ q) : place p ≤ place q

/-- A word that is asked for is looked up with the same result. -/
theorem Likeness.contains_name (M : Likeness) {vs : List String} (hvs : ∀ v ∈ vs, Asked v)
    (u : String) : vs.contains (M.name u) = vs.contains u := by
  rw [Bool.eq_iff_iff, List.contains_iff_mem, List.contains_iff_mem]
  exact ⟨fun hmem => by rwa [(M.name_eq_iff (hvs _ hmem) u).1 rfl],
    fun hmem => by rwa [(M.name_eq_iff (hvs _ hmem) u).2 rfl]⟩

structure Token.Like (M : Likeness) (t t' : Token) : Prop where
  kind : t'.kind = t.kind
  name (h : t.kind = .ident) : t'.value = M.name t.value
  value (h : t.kind ≠ .ident) : t'.value = t.value
  lo : t'.lo = M.place t.lo
  hi : t'.hi = M.place t.hi
  named (h : t.kind = .ident) : M.Named t.value
  same (h : M.same) : t'.value = t.value ∧ t'.line = t.line ∧ t'.column = t.column

theorem Token.isKeyword_iff {t : Token} {v : String} :
    t.isKeyword v = true ↔ t.kind = .ident ∧ t.value = v := by
  rw [isKeyword, Bool.and_eq_true, beq_iff_eq, beq_iff_eq]

variable {M : Likeness}

namespace Token.Like

variable {t t' : Token} {v : String} {vs : List String}

theorem value_eq_iff (h : t.Like M t') (hv : Asked v) : t'.value = v ↔ t.value = v := by
  by_cases hk : t.kind = .ident
  · rw [h.name hk, M.name_eq_iff hv]
  · rw [h.value hk]

theorem beq (h : t.Like M t') (hv : Asked v) : (t'.value == v) = (t.value == v) := by
  rw [Bool.eq_iff_iff, beq_iff_eq, beq_iff_eq, h.value_eq_iff hv]

theorem isPunct (h : t.Like M t') (v : String) : t'.isPunct v = t.isPunct v := by
  simp only [Token.isPunct, h.kind]
  cases hk : t.kind with
  | punct => rw [h.value (by simp [hk])]
  | _ => rfl

theorem isKeyword (h : t.Like M t') (hv : Asked v) : t'.isKeyword v = t.isKeyword v := by
  rw [Token.isKeyword, Token.isKeyword, h.kind, h.beq hv]

/-- A keyword that is asked for is left as it is. -/
theorem value_of_isKeyword (h : t.Like M t') (hv : Asked v) (hk : t.isKeyword v = true) :
    t'.value = t.value := by
  obtain ⟨-, rfl⟩ := Token.isKeyword_iff.1 hk
  exact (h.value_eq_iff hv).2 rfl

theorem is (h : t.Like M t') (hv : Asked v) : t'.is v = t.is v := by
  rw [Token.is, Token.is, h.kind, h.beq hv]

theorem contains (h : t.Like M t') (hvs : ∀ v ∈ vs, Asked v) :
    vs.contains t'.value = vs.contains t.value := by
  by_cases hk : t.kind = .ident
  · rw [h.name hk, M.contains_name hvs]
  · rw [h.value hk]

theorem isOneOf (h : t.Like M t') (hvs : ∀ v ∈ vs, Asked v) : t'.isOneOf vs = t.isOneOf vs := by
  rw [Token.isOneOf, Token.isOneOf, h.kind, h.contains hvs]

theorem lookup {α : Type} (h : t.Like M t') {entries : List (String × α)}
    (hvs : ∀ p ∈ entries, Asked p.1) : entries.lookup t'.value = entries.lookup t.value := by
  induction entries with
  | nil => rfl
  | cons p entries ih =>
    rw [List.lookup_cons, List.lookup_cons, h.beq (hvs p List.mem_cons_self),
      ih fun q hq => hvs q (List.mem_cons_of_mem _ hq)]

theorem opens? (h : t.Like M t') : t'.opens? = t.opens? := by
  simp only [Token.opens?, h.isPunct]

theorem closes? (h : t.Like M t') : t'.closes? = t.closes? := by
  simp only [Token.closes?, h.isPunct]

end Token.Like

/-- Tokens that are like others one by one. Where a token touches the next one, that was so before. -/
inductive Together (M : Likeness) : List Token → List Token → Prop
  | nil : Together M [] []
  | cons {t t' : Token} {ts ts' : List Token} (ht : t.Like M t')
      (hjoin : ∀ u ∈ ts.head?, M.place t.hi = M.place u.lo → t.hi = u.lo)
      (h : Together M ts ts') : Together M (t :: ts) (t' :: ts')

namespace Together

variable {ts ts' : List Token}

theorem length_eq (h : Together M ts ts') : ts'.length = ts.length := by
  induction h with
  | nil => rfl
  | cons _ _ _ ih => rw [List.length_cons, List.length_cons, ih]

/-- Two tokens touch just if the two that are like them do. -/
theorem touches {t t' u u' : Token} (h : Together M (t :: u :: ts) (t' :: u' :: ts')) :
    t'.touches u' = t.touches u := by
  cases h with
  | cons ht hjoin h =>
    cases h with
    | cons hu _ _ =>
      rw [Bool.eq_iff_iff]
      simp only [Token.touches, beq_iff_eq, ht.hi, hu.lo]
      exact ⟨hjoin u rfl, congrArg M.place⟩

theorem getElem? (h : Together M ts ts') (n : Nat) :
    ts[n]? = none ∧ ts'[n]? = none ∨ ∃ t t', ts[n]? = some t ∧ ts'[n]? = some t' ∧ t.Like M t' := by
  induction h generalizing n with
  | nil => exact .inl ⟨rfl, rfl⟩
  | cons ht _ _ ih =>
    cases n with
    | zero => exact .inr ⟨_, _, rfl, rfl, ht⟩
    | succ n => exact ih n

theorem take (h : Together M ts ts') (n : Nat) : Together M (ts.take n) (ts'.take n) := by
  induction h generalizing n with
  | nil => simpa using Together.nil
  | cons ht hjoin _ ih =>
    cases n with
    | zero => exact .nil
    | succ n =>
      refine .cons ht (fun u hu => hjoin u ?_) (ih n)
      cases n with
      | zero => cases hu
      | succ n => rwa [List.head?_take, if_neg (Nat.succ_ne_zero n)] at hu

/-- The first token begins where the one like it does. -/
theorem lo_head? (h : Together M ts ts') (hne : ts ≠ []) :
    (ts'.head?.map (·.lo)).getD 0 = M.place ((ts.head?.map (·.lo)).getD 0) := by
  cases h with
  | nil => exact absurd rfl hne
  | cons ht _ _ => exact ht.lo

/-- The last token ends where the one like it does. -/
theorem hi_getLast? (h : Together M ts ts') (hne : ts ≠ []) :
    (ts'.getLast?.map (·.hi)).getD 0 = M.place ((ts.getLast?.map (·.hi)).getD 0) := by
  induction h with
  | nil => exact absurd rfl hne
  | cons ht _ h ih =>
    cases h with
    | nil => exact ht.hi
    | cons hu hjoin h =>
      rw [List.getLast?_cons_cons, List.getLast?_cons_cons]
      exact ih (List.cons_ne_nil _ _)

end Together

/-- A cursor in some tokens, and one at the same place among tokens like them. The end of the last token
read is that of one like it only behind a first token: before it there is no token, and `moved` says
whether that place is past. -/
structure Cursor.Beside (M : Likeness) (moved : Prop) (c c' : Cursor) : Prop where
  rest : Together M c.rest c'.rest
  last : moved → c'.last = M.place c.last

/-- Failures alike: rejections, or the same. -/
inductive Failure.Like (M : Likeness) : Failure → Failure → Prop
  | refl (f : Failure) : Failure.Like M f f
  | rejected {e e' : SyntaxError} (h : M.same → e' = e) : Failure.Like M (.rejected e) (.rejected e')

namespace Parse

variable {α β σ : Type} {b b₀ b₁ b' : Prop}

/-- A value and the one it becomes under `f`; the value has a property. -/
def Mapped (f : α → α) (P : α → Prop) (a a' : α) : Prop := f a = a' ∧ P a

/-- Two ends that are alike. -/
inductive Ends (M : Likeness) (moved : Prop) (Q : α → α → Prop) :
    Except Failure (α × Cursor) → Except Failure (α × Cursor) → Prop where
  | ok {a a' : α} {c c' : Cursor} (hq : Q a a') (hc : c.Beside M moved c') :
    Ends M moved Q (.ok (a, c)) (.ok (a', c'))
  | error {f f' : Failure} (h : f.Like M f') : Ends M moved Q (.error f) (.error f')

/-- Readers that end alike from cursors beside each other. `moved` and `moved'` say of the places
before and behind them whether a first token has been read. -/
def Alike (M : Likeness) (moved moved' : Prop) (p p' : Parse α)
    (Q : α → α → Prop) : Prop :=
  ∀ c c', c.Beside M moved c' → Ends M moved' Q (p c) (p' c')

variable {p p' q q' : Parse α} {f f' : α → Parse β} {Q R : α → α → Prop} {S : β → β → Prop}

theorem Alike.imp (h : Alike M b b' p p' Q) (hq : ∀ a a', Q a a' → R a a') :
    Alike M b b' p p' R := by
  intro c c' hc
  have h := h c c' hc
  generalize p c = r at h ⊢
  generalize p' c' = r' at h ⊢
  cases h with
  | ok hQ hd => exact .ok (hq _ _ hQ) hd
  | error hf => exact .error hf

/-- Whoever has read a token has also read at least as much as before. -/
theorem Alike.keep (h : Alike M b b₁ p p' Q) (hb : b' → b₁) : Alike M b b' p p' Q := by
  intro c c' hc
  have h := h c c' hc
  generalize p c = r at h ⊢
  generalize p' c' = r' at h ⊢
  cases h with
  | ok hQ hd => exact .ok hQ ⟨hd.rest, fun h => hd.last (hb h)⟩
  | error hf => exact .error hf

theorem Alike.pure {a a' : α} (h : Q a a') : Alike M b b (pure a) (pure a') Q :=
  fun _ _ hc => .ok h hc

theorem Alike.throw (f : Failure) : Alike M b b' (throw f : Parse α) (throw f) Q :=
  fun _ _ _ => .error (.refl f)

theorem Alike.bind (hp : Alike M b b₁ p p' Q)
    (hf : ∀ a a', Q a a' → Alike M b₁ b' (f a) (f' a') S) :
    Alike M b b' (p >>= f) (p' >>= f') S := by
  intro c c' hc
  have h := hp c c' hc
  rw [bind_apply, bind_apply]
  generalize p c = r at h ⊢
  generalize p' c' = r' at h ⊢
  cases h with
  | ok hq hd => exact hf _ _ hq _ _ hd
  | error hf => exact .error hf

/-- One reader behind another that has read a token, which need not be known further on. -/
theorem Alike.past (hp : Alike M b True p p' Q)
    (hf : ∀ a a', Q a a' → Alike M b b' (f a) (f' a') S) :
    Alike M b b' (p >>= f) (p' >>= f') S :=
  .bind (hp.keep fun _ => trivial) hf

/-- Readers that go on by what is known to hold or not. -/
theorem Alike.cond {x : Prop} [Decidable x] (hp : x → Alike M b b' p p' Q)
    (hq : ¬ x → Alike M b b' q q' Q) :
    Alike M b b' (if x then p else q) (if x then p' else q') Q := by
  by_cases h : x
  · simpa [h] using hp h
  · simpa [h] using hq h

/-- Readers that go on by what holds of one text just if it holds of the other. -/
theorem Alike.asking {x x' : Prop} [Decidable x] [Decidable x'] (hx : x' ↔ x)
    (hp : Alike M b b' p p' Q) (hq : Alike M b b' q q' Q) :
    Alike M b b' (if x then p else q) (if x' then p' else q') Q := by
  by_cases h : x
  · simpa [h, hx.2 h] using hp
  · simpa [h, mt hx.1 h] using hq

theorem Alike.ite {x : Prop} [Decidable x] (hp : Alike M b b' p p' Q)
    (hq : Alike M b b' q q' Q) :
    Alike M b b' (if x then p else q) (if x then p' else q') Q :=
  .cond (fun _ => hp) fun _ => hq

/-- Tokens that are like each other are rejected for the same cause. -/
theorem Alike.reject {t t' : Token} (ht : t.Like M t') (cause : String → SyntaxError.Cause) :
    Alike M b b' (rejectAt t (cause t.value) : Parse α) (rejectAt t' (cause t'.value)) Q := by
  refine fun _ _ _ => .error (.rejected fun hsame => ?_)
  obtain ⟨hvalue, hline, hcolumn⟩ := ht.same hsame
  rw [hvalue, hline, hcolumn]

theorem Alike.rejectEnd (during : Unfinished) :
    Alike M b b' (Parse.rejectEnd during : Parse α) (Parse.rejectEnd during) Q :=
  fun _ _ _ => .error (.refl _)

/-! ### Looking ahead -/

/-- From two cursors readers only look, and see the same. -/
def SeesFrom (c c' : Cursor) (p p' : Parse α) : Prop := ∃ a, p c = .ok (a, c) ∧ p' c' = .ok (a, c')

/-- Readers that only look, and see the same. -/
def Sees (M : Likeness) (p p' : Parse α) : Prop :=
  ∀ c c' : Cursor, Together M c.rest c'.rest → SeesFrom c c' p p'

theorem SeesFrom.pure (c c' : Cursor) (a : α) : SeesFrom c c' (pure a) (pure a) := ⟨a, rfl, rfl⟩

theorem SeesFrom.cond {c c' : Cursor} {x : Prop} [Decidable x] (hp : x → SeesFrom c c' p p')
    (hq : ¬ x → SeesFrom c c' q q') : SeesFrom c c' (if x then p else q) (if x then p' else q') := by
  by_cases h : x
  · simpa [h] using hp h
  · simpa [h] using hq h

theorem SeesFrom.ite {c c' : Cursor} {x : Prop} [Decidable x] (hp : SeesFrom c c' p p')
    (hq : SeesFrom c c' q q') : SeesFrom c c' (if x then p else q) (if x then p' else q') :=
  .cond (fun _ => hp) fun _ => hq

theorem SeesFrom.look {c c' : Cursor} {g g' : Option Token → Parse β} (n : Nat)
    (h : SeesFrom c c' (g c.rest[n]?) (g' c'.rest[n]?)) :
    SeesFrom c c' (look n >>= g) (look n >>= g') := h

theorem Sees.pure (a : α) : Sees M (pure a) (pure a) := fun c c' _ => .pure c c' a

theorem Sees.bind (hp : Sees M p p') (hf : ∀ a, Sees M (f a) (f' a)) :
    Sees M (p >>= f) (p' >>= f') := by
  intro c c' hc
  obtain ⟨a, ha, ha'⟩ := hp c c' hc
  obtain ⟨d, hd, hd'⟩ := hf a c c' hc
  exact ⟨d, by rw [bind_apply, ha]; exact hd, by rw [bind_apply, ha']; exact hd'⟩

theorem Sees.ite {x : Prop} [Decidable x] (hp : Sees M p p') (hq : Sees M q q') :
    Sees M (if x then p else q) (if x then p' else q') :=
  fun c c' hc => .ite (hp c c' hc) (hq c c' hc)

/-- A look at a token, which there may be or not. -/
theorem Sees.look {g g' : Option Token → Parse β} (n : Nat) (hnone : Sees M (g none) (g' none))
    (hsome : ∀ t t', t.Like M t' → Sees M (g (some t)) (g' (some t'))) :
    Sees M (look n >>= g) (look n >>= g') := by
  intro c c' hc
  apply SeesFrom.look n
  rcases hc.getElem? n with ⟨h, h'⟩ | ⟨t, t', h, h', ht⟩
  · rw [h, h']
    exact hnone c c' hc
  · rw [h, h']
    exact hsome t t' ht c c' hc

theorem Sees.looksAt (n : Nat) {v : String} (hv : Asked v) :
    Sees M (looksAt n v) (looksAt n v) := by
  refine .look n (.pure _) fun t t' ht => ?_
  simp only [Option.any_some, ht.is hv]
  exact .pure _

theorem Sees.nextIs {v : String} (hv : Asked v) : Sees M (nextIs v) (nextIs v) := .looksAt 0 hv

theorem Sees.looksAtOneOf (n : Nat) {vs : List String} (hvs : ∀ v ∈ vs, Asked v) :
    Sees M (looksAtOneOf n vs) (looksAtOneOf n vs) := by
  refine .look n (.pure _) fun t t' ht => ?_
  simp only [Option.any_some, ht.isOneOf hvs]
  exact .pure _

theorem Sees.looksAtKind (n : Nat) (kind : TokenKind) :
    Sees M (looksAtKind n kind) (looksAtKind n kind) := by
  refine .look n (.pure _) fun t t' ht => ?_
  simp only [Option.any_some, ht.kind]
  exact .pure _

/-- Readers that go on by what is seen. -/
theorem Alike.seeing (hp : Sees M p p') (h : ∀ a, Alike M b b' (f a) (f' a) S) :
    Alike M b b' (p >>= f) (p' >>= f') S := by
  intro c c' hc
  obtain ⟨a, ha, ha'⟩ := hp c c' hc.rest
  rw [bind_apply, bind_apply, ha, ha']
  exact h a c c' hc

/-- A look at a token, which there may be or not. -/
theorem Alike.look {g g' : Option Token → Parse β} (n : Nat)
    (hnone : Alike M b b' (g none) (g' none) S)
    (hsome : ∀ t t', t.Like M t' → Alike M b b' (g (some t)) (g' (some t')) S) :
    Alike M b b' (Parse.look n >>= g) (Parse.look n >>= g') S := by
  intro c c' hc
  change Ends M b' S (g c.rest[n]? c) (g' c'.rest[n]? c')
  rcases hc.rest.getElem? n with ⟨h, h'⟩ | ⟨t, t', h, h', ht⟩
  · rw [h, h']
    exact hnone c c' hc
  · rw [h, h']
    exact hsome t t' ht c c' hc

/-- A look at the next token by readers that fail where there is none. -/
theorem Alike.lookHead {g g' : Option Token → Parse β}
    (hnil : ∀ last last', ∃ e, g none ⟨[], last⟩ = .error e ∧ g' none ⟨[], last'⟩ = .error e)
    (hcons : ∀ t t', t.Like M t' → Alike M b b' (g (some t)) (g' (some t')) S) :
    Alike M b b' (Parse.look 0 >>= g) (Parse.look 0 >>= g') S := by
  rintro ⟨ts, last⟩ ⟨ts', last'⟩ ⟨hrest, hlast⟩
  cases hrest with
  | nil =>
    obtain ⟨e, he, he'⟩ := hnil last last'
    change Ends M b' S (g none ⟨[], last⟩) (g' none ⟨[], last'⟩)
    rw [he, he']
    exact .error (.refl e)
  | cons ht hjoin h => exact hcons _ _ ht _ _ ⟨.cons ht hjoin h, hlast⟩

/-- Readers that go on by the cursors themselves. -/
theorem Alike.get {g g' : Cursor → Parse β}
    (h : ∀ c c', c.Beside M b c' → Alike M b b' (g c) (g' c') S) :
    Alike M b b' (get >>= g) (get >>= g') S :=
  fun c c' hc => h c c' hc c c' hc

/-! ### Single tokens -/

theorem Alike.next : Alike M b True next next (Token.Like M) := by
  rintro ⟨ts, last⟩ ⟨ts', last'⟩ ⟨hrest, -⟩
  cases hrest with
  | nil => exact .error (.refl _)
  | cons ht _ h => exact .ok ht ⟨h, fun _ => ht.hi⟩

theorem Alike.skip (n : Nat) : Alike M b b (skip n) (skip n) fun _ _ => True := by
  induction n with
  | zero => exact .pure trivial
  | succ n ih =>
    apply Alike.past .next
    intro _ _ _
    exact ih

theorem Alike.skip_succ (n : Nat) :
    Alike M b True (Parse.skip (n + 1)) (Parse.skip (n + 1)) fun _ _ => True :=
  .bind .next fun _ _ _ => .skip n

theorem Alike.accept {v : String} (hv : Asked v) :
    Alike M b b (accept v) (accept v) (· = ·) := by
  apply Alike.seeing (.nextIs hv)
  intro found
  apply Alike.ite
  · exact .past .next fun _ _ _ => .pure rfl
  · exact .pure rfl

/-- Reading on behind the token that may be next, with what it says that it was there. -/
theorem Alike.accepting {g g' : Bool → Parse β} {v : String} (hv : Asked v)
    (htrue : Alike M True b' (g true) (g' true) S)
    (hfalse : Alike M b b' (g false) (g' false) S) :
    Alike M b b' (Parse.accept v >>= g) (Parse.accept v >>= g') S := by
  simp only [Parse.accept, bind_assoc]
  apply Alike.seeing (.nextIs hv)
  intro found
  cases found with
  | true =>
    simp only [if_true, bind_assoc, pure_bind]
    exact .bind .next fun _ _ _ => htrue
  | false => simpa using hfalse

theorem Alike.acceptKind (kind : TokenKind) :
    Alike M b b (acceptKind kind) (acceptKind kind) (· = ·) := by
  apply Alike.seeing (.looksAtKind 0 kind)
  intro found
  apply Alike.ite
  · exact .past .next fun _ _ _ => .pure rfl
  · exact .pure rfl

theorem Alike.expect {v : String} (hv : Asked v) :
    Alike M b True (expect v) (expect v) (Token.Like M) := by
  refine .look 0 (.rejectEnd _) fun t t' ht => ?_
  simp only [ht.is hv]
  exact .ite .next (.reject ht (.expected _))

/-- A name is that of an identifier. -/
theorem Alike.expectName : Alike M b True expectName expectName (Mapped M.name M.Named) := by
  refine .look 0 (.rejectEnd _) fun t t' ht => ?_
  by_cases hk : t.kind = .ident
  · have hk' : t'.kind = .ident := ht.kind.trans hk
    simp only [hk, hk', if_true]
    exact .bind .next fun _ _ _ => .pure ⟨(ht.name hk).symm, ht.named hk⟩
  · have hk' : ¬ t'.kind = .ident := fun h => hk (ht.kind.symm.trans h)
    simp only [hk, hk', if_false]
    exact .reject ht (.expected _)

/-- The span up to the last token read. -/
theorem Alike.spanFrom (lo : Int) :
    Alike M True True (spanFrom lo) (spanFrom (M.place lo)) fun s s' => s' = M.span s := by
  intro c c' hc
  refine .ok ?_ hc
  rw [hc.last trivial]
  rfl

/-- Where a reader is rejected another begins from the same place. -/
theorem Alike.orElse (hp : Alike M b b' p p' Q) (hq : Alike M b b' q q' Q) :
    Alike M b b' (orElse p q) (orElse p' q') Q := by
  intro c c' hc
  have h := hp c c' hc
  simp only [Parse.orElse]
  generalize p c = r at h ⊢
  generalize p' c' = r' at h ⊢
  cases h with
  | ok hQ hd => exact .ok hQ hd
  | @error f _ hf =>
    cases hf with
    | rejected _ => exact hq c c' hc
    | refl =>
      cases f with
      | rejected e => exact hq c c' hc
      | cutStatement => exact .error (.refl _)
      | endless => exact .error (.refl _)

/-! ### Loops -/

/-- Turns that are alike. -/
inductive Turn.Like (F : α → α → Prop) (R : β → β → Prop) : Turn α β → Turn α β → Prop where
  | skip : Turn.Like F R .skip .skip
  | one {a a' : α} (h : F a a') : Turn.Like F R (.one a) (.one a')
  | last {a a' : α} {d d' : β} (h : F a a') (hd : R d d') : Turn.Like F R (.last a d) (.last a' d')
  | stop {d d' : β} (hd : R d d') : Turn.Like F R (.stop d) (.stop d')

/-- What is collected is mapped item by item. -/
def Gathered (m : α → α) (P : α → Prop) (R : β → β → Prop) (r r' : List α × β) : Prop :=
  Mapped (List.map m) (∀ a ∈ ·, P a) r.1 r'.1 ∧ R r.2 r'.2

variable {turn turn' : Parse (Turn α β)} {m : α → α} {P : α → Prop}

theorem Gathered.cons {a a' : α} {r r' : List α × β} (ha : Mapped m P a a')
    (hr : Gathered m P S r r') : Gathered m P S (a :: r.1, r.2) (a' :: r'.1, r'.2) := by
  obtain ⟨⟨has, hP⟩, hd⟩ := hr
  refine ⟨⟨?_, ?_⟩, hd⟩
  · show (a :: r.1).map m = a' :: r'.1
    rw [List.map_cons, has, ha.1]
  · simpa using ⟨ha.2, hP⟩

theorem Gathered.nil {d d' : β} (hd : S d d') : Gathered m P S ([], d) ([], d') :=
  ⟨⟨rfl, nofun⟩, hd⟩

/-- The first turn may begin where no token has been read. -/
theorem Alike.collectFrom (h₀ : Alike M b b' turn turn' (Turn.Like (Mapped m P) S))
    (h : Alike M b' b' turn turn' (Turn.Like (Mapped m P) S)) (fuel : Nat) :
    Alike M b b' (collectFrom turn fuel) (collectFrom turn' fuel) (Gathered m P S) := by
  induction fuel generalizing b with
  | zero => exact .throw _
  | succ fuel ih =>
    apply Alike.bind h₀
    intro r r' hr
    cases hr with
    | skip => exact ih h
    | one ha => exact .bind (ih h) fun _ _ hr => .pure (.cons ha hr)
    | last ha hd => exact .pure (.cons ha (.nil hd))
    | stop hd => exact .pure (.nil hd)

theorem Alike.collect_of (h₀ : Alike M b b' turn turn' (Turn.Like (Mapped m P) S))
    (h : Alike M b' b' turn turn' (Turn.Like (Mapped m P) S)) :
    Alike M b b' (Parse.collect turn) (Parse.collect turn') (Gathered m P S) := by
  intro c c' hc
  have hlen : c'.rest.length = c.rest.length := hc.rest.length_eq
  simp only [Parse.collect, hlen]
  exact Alike.collectFrom h₀ h _ c c' hc

theorem Alike.collect (h : Alike M b b turn turn' (Turn.Like (Mapped m P) S)) :
    Alike M b b (Parse.collect turn) (Parse.collect turn') (Gathered m P S) :=
  .collect_of h h

/-- Steps that are alike. -/
inductive StepLike (I : σ → σ → Prop) (R : β → β → Prop) : σ ⊕ β → σ ⊕ β → Prop where
  | inl {s s' : σ} (h : I s s') : StepLike I R (.inl s) (.inl s')
  | inr {d d' : β} (h : R d d') : StepLike I R (.inr d) (.inr d')

theorem Alike.iterate {step step' : σ → Parse (σ ⊕ β)} {I : σ → σ → Prop} {s s' : σ} (hs : I s s')
    (h : ∀ s s', I s s' → Alike M b b (step s) (step' s') (StepLike I S)) :
    Alike M b b (iterate step s) (iterate step' s') S := by
  have hfuel (fuel : Nat) : ∀ s s', I s s' →
      Alike M b b (iterateFrom step fuel s) (iterateFrom step' fuel s') S := by
    induction fuel with
    | zero => exact fun _ _ _ => .throw _
    | succ fuel ih =>
      intro s s' hs
      apply Alike.bind (h s s' hs)
      intro r r' hr
      cases hr with
      | inl hs => exact ih _ _ hs
      | inr hd => exact .pure hd
  intro c c' hc
  have hlen : c'.rest.length = c.rest.length := hc.rest.length_eq
  simp only [Parse.iterate, hlen]
  exact hfuel _ s s' hs c c' hc

/-- A loop without a state. -/
theorem Alike.repeat {step step' : Parse (Unit ⊕ Unit)}
    (h : Alike M b b step step' (· = ·)) :
    Alike M b b (Parse.iterate (fun _ => step) ()) (Parse.iterate (fun _ => step') ())
      fun _ _ => True := by
  apply Alike.iterate (I := fun _ _ => True) trivial
  intro _ _ _
  refine h.imp ?_
  rintro r _ rfl
  cases r with
  | inl _ => exact .inl trivial
  | inr _ => exact .inr trivial

/-- Items between commas. -/
theorem Alike.commaList {item item' : Parse α} {close : String} (hclose : Asked close)
    (h : Alike M b b item item' (Mapped m P)) :
    Alike M b b (commaList close item) (commaList close item') (Gathered m P (· = ·)) := by
  apply Alike.collect
  apply Alike.seeing (.nextIs hclose)
  intro found
  apply Alike.ite (.pure (.stop rfl))
  apply Alike.bind h
  intro a a' ha
  apply Alike.bind (.accept (by decide))
  rintro found _ rfl
  exact .ite (.pure (.one ha)) (.pure (.last ha rfl))

end Parse

end BuilderMigration
