import BuilderMigration.Proofs.Grammar.Reading

/-! A logic of results: where a reader ends in one, what it has read has a property. Failures are left
aside, so that nothing has to be known of how deep the grammar goes. -/

namespace BuilderMigration

namespace Cursor

/-- Reading some tokens, which takes a cursor to another. -/
structure Reads (c : Cursor) (us : List Token) (c' : Cursor) : Prop where
  rest : c.rest = us ++ c'.rest
  last : c'.last = endFrom c.last us

variable {ts us vs : List Token} {c c' c'' : Cursor}

theorem Reads.nil (c : Cursor) : c.Reads [] c := ⟨rfl, rfl⟩

theorem Reads.trans (h : c.Reads us c') (h' : c'.Reads vs c'') : c.Reads (us ++ vs) c'' :=
  ⟨by rw [h.rest, h'.rest, List.append_assoc], by rw [h'.last, h.last, endFrom_append]⟩

/-- What a cursor has read when it comes to another. -/
theorem Moves.exists_reads (hc : c.On ts) (h : c.Moves ts c') : ∃ us, c.Reads us c' := by
  obtain ⟨read, hread, hlast⟩ := hc.reached
  obtain ⟨read', hread', hlast'⟩ := h.on.reached
  have hlen : read.length ≤ read'.length := by
    have h₁ := congrArg List.length hread
    have h₂ := congrArg List.length hread'
    have := h.fewer
    simp only [List.length_append] at h₁ h₂
    omega
  obtain ⟨us, rfl⟩ :=
    List.prefix_of_prefix_length_le ⟨c.rest, hread.symm⟩ ⟨c'.rest, hread'.symm⟩ hlen
  refine ⟨us, ?_, by rw [hlast', endFrom_append, ← hlast]⟩
  rw [hread, List.append_assoc] at hread'
  exact List.append_cancel_left hread'

/-- What a cursor has read is not nothing where it has gone past a token. -/
theorem Passes.exists_reads (hc : c.On ts) (h : c.Passes ts c') : ∃ t us, c.Reads (t :: us) c' := by
  obtain ⟨us, hus⟩ := h.moves.exists_reads hc
  cases us with
  | nil =>
    have := h.fewer
    rw [hus.rest, List.nil_append] at this
    exact absurd this (Nat.lt_irrefl _)
  | cons t us => exact ⟨t, us, hus⟩

end Cursor

namespace Parse

variable {α β σ : Type} {ts : List Token} {c : Cursor}

theorem Takes.reads {t : Token} {c' : Cursor} (h : Takes ts t c c') : c.Reads [t] c' :=
  ⟨h.rest, h.last⟩

/-- If `p` ends in a result from `c`, it has the property `Q`. -/
def Makes (p : Parse α) (c : Cursor) (Q : α → Cursor → Prop) : Prop :=
  ∀ a c', p c = .ok (a, c') → Q a c'

variable {p q : Parse α} {f : α → Parse β} {Q R : α → Cursor → Prop} {S : β → Cursor → Prop}

theorem Yields.makes {p' : Parse α} (h : Yields ts p p' c Q) : Makes p c Q := by
  intro a c' hp
  have hq := h.2
  rwa [hp] at hq

namespace Makes

theorem imp (h : Makes p c Q) (hq : ∀ a c', Q a c' → R a c') : Makes p c R :=
  fun a c' hp => hq a c' (h a c' hp)

theorem and (h : Makes p c Q) (h' : Makes p c R) : Makes p c fun a c' => Q a c' ∧ R a c' :=
  fun a c' hp => ⟨h a c' hp, h' a c' hp⟩

theorem any : Makes p c fun _ _ => True := fun _ _ _ => trivial

theorem pure {a : α} (h : Q a c) : Makes (Pure.pure a) c Q := by
  intro a' c' hp
  obtain ⟨rfl, rfl⟩ := Prod.mk.inj (Except.ok.inj (hp : Except.ok (a, c) = _))
  exact h

theorem throw (e : Failure) : Makes (throw e : Parse α) c Q :=
  fun _ _ hp => nomatch (hp : Except.error e = _)

theorem rejectAt (t : Token) (cause : SyntaxError.Cause) : Makes (Parse.rejectAt t cause) c Q :=
  throw _

theorem rejectEnd (during : Unfinished) : Makes (Parse.rejectEnd during) c Q := throw _

/-- One reader behind another. -/
theorem bind (hp : Makes p c Q) (hf : ∀ a c', Q a c' → Makes (f a) c' S) : Makes (p >>= f) c S := by
  intro b c'' h
  rw [bind_apply] at h
  cases hr : p c with
  | error e =>
    rw [hr] at h
    cases h
  | ok r =>
    rw [hr] at h
    exact hf r.1 r.2 (hp r.1 r.2 hr) b c'' h

theorem ite {b : Prop} [Decidable b] (hp : b → Makes p c Q) (hq : ¬ b → Makes q c Q) :
    Makes (if b then p else q) c Q := by
  by_cases h : b
  · rw [if_pos h]
    exact hp h
  · rw [if_neg h]
    exact hq h

/-! ### Looking ahead -/

/-- A reader that only looks hands on what it sees. -/
theorem peek {a : α} (hp : p c = .ok (a, c)) (h : Makes (f a) c S) : Makes (p >>= f) c S := by
  intro b c' hb
  rw [bind_of_ok hp] at hb
  exact h b c' hb

theorem lookAhead {g : Option Token → Parse β} (k : Nat) (h : Makes (g c.rest[k]?) c S) :
    Makes (look k >>= g) c S := peek rfl h

/-- A look at the next token, which there may be or not. -/
theorem lookNext {g : Option Token → Parse β} (hnil : c.rest = [] → Makes (g none) c S)
    (hcons : ∀ t us, c.rest = t :: us → Makes (g (some t)) c S) : Makes (look 0 >>= g) c S := by
  refine lookAhead 0 ?_
  cases hr : c.rest with
  | nil => exact hnil hr
  | cons t us => exact hcons t us hr

variable {b : Bool → Parse β}

theorem looksAt (k : Nat) (v : String) (h : Makes (b (c.rest[k]?.any (·.is v))) c S) :
    Makes (looksAt k v >>= b) c S := peek rfl h

theorem looksAtOneOf (k : Nat) (vs : List String)
    (h : Makes (b (c.rest[k]?.any (·.isOneOf vs))) c S) : Makes (looksAtOneOf k vs >>= b) c S :=
  peek rfl h

theorem looksAtKind (k : Nat) (kind : TokenKind)
    (h : Makes (b (c.rest[k]?.any (·.kind == kind))) c S) : Makes (looksAtKind k kind >>= b) c S :=
  peek rfl h

/-- A look at whether the next token is `v`. -/
theorem nextIs (v : String)
    (htrue : ∀ t us, c.rest = t :: us → t.is v = true → Makes (b true) c S)
    (hfalse : (∀ t us, c.rest = t :: us → t.is v = false) → Makes (b false) c S) :
    Makes (nextIs v >>= b) c S := by
  refine looksAt 0 v ?_
  cases hr : c.rest with
  | nil => exact hfalse (by simp [hr])
  | cons t us =>
    rw [List.getElem?_cons_zero, Option.any_some]
    cases ht : t.is v with
    | true => exact htrue t us hr ht
    | false => exact hfalse (by simp [hr, ht])

theorem looking {P : α → Prop} (hp : Looks p P) (h : ∀ a, P a → Makes (f a) c S) :
    Makes (p >>= f) c S := by
  obtain ⟨a, ha, hP⟩ := hp c
  exact peek ha (h a hP)

theorem spanFrom {g : Span → Parse β} (lo : Int) (h : Makes (g ⟨lo, c.last, 0⟩) c S) :
    Makes (spanFrom lo >>= g) c S := peek rfl h

/-! ### Single tokens -/

theorem expect (hc : c.On ts) (v : String) :
    Makes (expect v) c fun t c' => Takes ts t c c' ∧ t.is v = true := by
  refine (Yields.expect hc v).makes.and (lookNext (fun _ => rejectEnd _) fun t us hr => ?_)
  refine ite (fun ht => ?_) fun _ => rejectAt _ _
  refine (Yields.next hc).makes.imp fun t' c' h => ?_
  obtain ⟨rfl, -⟩ := List.cons.inj (hr.symm.trans h.rest)
  exact ht

/-- The name that is read is the text of a token. -/
theorem expectName (hc : c.On ts) : Makes expectName c fun name c' =>
    ∃ t, Takes ts t c c' ∧ t.kind = .ident ∧ t.value = name := by
  refine lookNext (fun _ => rejectEnd _) fun t us hr => ite (fun hk => ?_) fun _ => rejectAt _ _
  refine bind (Yields.next hc).makes fun t' c' h => pure ?_
  obtain ⟨rfl, -⟩ := List.cons.inj (hr.symm.trans h.rest)
  exact ⟨t, h, hk, rfl⟩

theorem accept (hc : c.On ts) (v : String) : Makes (accept v) c fun found c' =>
    Accepts ts found c c' ∧ (found = true → ∃ t, t.is v = true ∧ c.Reads [t] c') := by
  refine (Yields.accept hc v).makes.and (nextIs v (fun t us hr ht => ?_) fun _ => pure nofun)
  refine bind (Yields.next hc).makes fun t' c' h => pure fun _ => ?_
  obtain ⟨rfl, -⟩ := List.cons.inj (hr.symm.trans h.rest)
  exact ⟨t, ht, h.reads⟩

/-! ### Readers one after the other -/

/-- Where a reader is rejected another begins from the same place. -/
theorem orElse (hp : Makes p c Q) (hq : Makes q c Q) : Makes (orElse p q) c Q := by
  intro a c' h
  unfold Parse.orElse at h
  cases hr : p c with
  | ok r =>
    rw [hr] at h
    exact hp a c' (hr.trans h)
  | error e =>
    rw [hr] at h
    cases e with
    | rejected e => exact hq a c' h
    | cutStatement => cases h
    | endless => cases h

theorem collect {turn : Parse (Turn α β)} {Q : Cursor → List α → β → Cursor → Prop} (hc : c.On ts)
    (h : ∀ c₁, c.Moves ts c₁ → Makes turn c₁ (Turn.Leads ts Q c₁)) :
    Makes (collect turn) c fun r c' => Q c r.1 r.2 c' := by
  suffices hfuel : ∀ fuel c₁, c.Moves ts c₁ →
      Makes (collectFrom turn fuel) c₁ fun r c' => Q c₁ r.1 r.2 c' from hfuel _ c hc.stays
  intro fuel
  induction fuel with
  | zero => exact fun _ _ => throw _
  | succ fuel ih =>
    refine fun c₁ h₁ => bind (h c₁ h₁) fun r c₂ h₂ => ?_
    cases r with
    | skip => exact (ih c₂ (h₁.trans h₂.1.moves)).imp fun r c' hr => h₂.2 r.1 r.2 c' hr
    | one a => exact bind (ih c₂ (h₁.trans h₂.1.moves)) fun r c₃ h₃ => pure (h₂.2 r.1 r.2 c₃ h₃)
    | last a b => exact pure h₂
    | stop b => exact pure h₂

theorem iterate {step : σ → Parse (σ ⊕ β)} {I : σ → Cursor → Prop} {s : σ} (hc : c.On ts) (hs : I s c)
    (h : ∀ s c₁, c.Moves ts c₁ → I s c₁ → Makes (step s) c₁ (StepLeads ts I S c₁)) :
    Makes (iterate step s) c S := by
  suffices hfuel : ∀ fuel s c₁, c.Moves ts c₁ → I s c₁ → Makes (iterateFrom step fuel s) c₁ S from
    hfuel _ s c hc.stays hs
  intro fuel
  induction fuel with
  | zero => exact fun _ _ _ _ => throw _
  | succ fuel ih =>
    refine fun s c₁ h₁ hi => bind (h s c₁ h₁ hi) fun r c₂ h₂ => ?_
    cases r with
    | inl s' => exact ih s' c₂ (h₁.trans h₂.1.moves) h₂.2
    | inr b => exact pure h₂

/-- Items between commas that all have a property. -/
theorem commaList {item : Parse α} {P : α → Prop} (hc : c.On ts) (close : String)
    (h : ∀ c₁, c.Moves ts c₁ → Makes item c₁ fun a c₂ => c₁.Passes ts c₂ ∧ P a) :
    Makes (commaList close item) c fun r _ => ∀ a ∈ r.1, P a := by
  refine collect (Q := fun _ as _ _ => ∀ a ∈ as, P a) hc fun c₁ h₁ => ?_
  refine nextIs close (fun _ _ _ _ => pure (List.forall_mem_nil P)) fun _ => ?_
  refine bind (h c₁ h₁) fun a c₂ ⟨hp, ha⟩ => bind (Yields.accept hp.on ",").makes fun found c₃ h₃ => ?_
  refine ite (fun _ => pure ⟨hp.trans h₃.moves, fun as _ _ has => ?_⟩) fun _ => pure ?_
  · exact List.forall_mem_cons.2 ⟨ha, has⟩
  · exact List.forall_mem_singleton.2 ha

end Makes

end Parse

end BuilderMigration
