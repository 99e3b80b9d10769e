import BuilderMigration.Proofs.Migration.Report

/-! Which texts have an outcome. One that is rejected comes back as it is with one error. A migration
has no outcome only where the reading of the text is cut off or never ends, and what it takes for
that stands in the tokens: the text ends in an expression, or an attribute's mark begins none. -/

namespace BuilderMigration

variable {ts : List Token} {code path : String} {settings : Settings} {rules : Rules}
  {failure : Failure} {e : SyntaxError} {r : Migrated}

/-- A reading that fails alike however deep the grammar is made. -/
def FailsAtEveryDepth (ts : List Token) (failure : Failure) : Prop :=
  ∀ depth, ts.length < depth →
    (·.1) <$> Grammar.items (Grammar.ofDepth depth).item false ⟨ts, 0⟩ = .error failure

theorem readItems_eq_error_iff (h : Ordered 0 ts) :
    readItems ts = .error failure ↔ FailsAtEveryDepth ts failure :=
  ⟨fun hr _ hd => readItems_deeper h hd ▸ hr, fun hf => hf (ts.length + 1) (Nat.lt_succ_self _)⟩

theorem tokensOf_ordered (h : tokensOf code 1 = .ok ts) : Ordered 0 ts := by
  rw [tokensOf_eq_ok h]
  exact (tokenize_ordered code 1).mono (by omega)

/-- A file fails to be read without being rejected just where the reading of its tokens does, and
then the tokens have what it takes. -/
theorem readModule_eq_error_iff (hr : ∀ e, failure ≠ .rejected e) :
    readModule code 1 path = .error failure ↔
      ∃ ts, tokensOf code 1 = .ok ts ∧ FailsAtEveryDepth ts failure ∧ failure.Excused ts := by
  rw [readModule]
  cases ht : tokensOf code 1 with
  | error f =>
    have hf : ∃ e, f = .rejected e := by
      simp only [tokensOf] at ht
      split at ht
      · cases ht
      · exact ⟨_, (Except.error.inj ht).symm⟩
    obtain ⟨e, rfl⟩ := hf
    refine ⟨fun h => absurd (Except.error.inj h).symm (hr e), ?_⟩
    rintro ⟨ts, h, -⟩
    cases h
  | ok ts =>
    have hord := tokensOf_ordered ht
    have hy := readItems_yields hord
    constructor
    · intro h
      cases hi : readItems ts with
      | ok is => simp [hi, bind, Except.bind, pure, Except.pure] at h
      | error f =>
        obtain rfl : f = failure := by simpa [hi, bind, Except.bind] using h
        rw [hi] at hy
        exact ⟨ts, rfl, (readItems_eq_error_iff hord).1 hi, hy⟩
    · rintro ⟨ts', hts, hf, -⟩
      obtain rfl := Except.ok.inj hts
      simp [(readItems_eq_error_iff hord).2 hf, bind, Except.bind]

/-- A migration fails as the reading of its text does, unless that is a rejection. -/
theorem migrate_eq_error_iff : migrate settings rules path code = .error failure ↔
    readModule code 1 path = .error failure ∧ ∀ e, failure ≠ .rejected e := by
  rw [migrate_eq_match]
  cases readModule code 1 path with
  | ok m => exact ⟨nofun, nofun⟩
  | error f =>
    rw [Except.error.injEq]
    constructor
    · intro h
      cases f with
      | rejected e => cases h
      | cutStatement => cases h; exact ⟨rfl, nofun⟩
      | endless => cases h; exact ⟨rfl, nofun⟩
    · rintro ⟨rfl, hr⟩
      cases f with
      | rejected e => exact absurd rfl (hr e)
      | cutStatement => rfl
      | endless => rfl

/-- A text with the outcome that it ought to have: it is migrated, or it is rejected and comes back as
it is with one error. -/
def Answered (settings : Settings) (rules : Rules) (path code : String) : Prop :=
  ∃ r, migrate settings rules path code = .ok r ∧
    ((∃ m, readModule code 1 path = .ok m) ∧ r.result.success = true ∧ r.result.errors = [] ∨
      ∃ e, readModule code 1 path = .error (.rejected e) ∧
        r.result = { code, diagnostics := [], errors := [path ++ ": " ++ e.message],
                     success := false })

/-- Every outcome is the one that the text ought to have. -/
theorem answered_of_ok (h : migrate settings rules path code = .ok r) :
    Answered settings rules path code := by
  rw [migrate_eq_match] at h
  cases hm : readModule code 1 path with
  | ok m => exact ⟨_, Module.migrate_eq hm settings rules, .inl ⟨⟨m, hm⟩, rfl, rfl⟩⟩
  | error f =>
    rw [hm] at h
    cases f with
    | rejected e =>
      exact ⟨_, by rw [migrate_eq_match, hm], .inr ⟨e, hm, rfl⟩⟩
    | cutStatement => cases h
    | endless => cases h

/-- A text has the outcome that it ought to have unless it is cut off behind an expression, or has a
stray mark, and the reading fails for that however deep the grammar is. -/
theorem answered_iff (settings : Settings) (rules : Rules) (path code : String) :
    Answered settings rules path code ↔
      ¬ ∃ ts, tokensOf code 1 = .ok ts ∧
        (EndsInExpression ts ∧ FailsAtEveryDepth ts .cutStatement ∨
          HasStrayMark ts ∧ FailsAtEveryDepth ts .endless) := by
  have hcut : ∀ e, Failure.cutStatement ≠ .rejected e := nofun
  have hendless : ∀ e, Failure.endless ≠ .rejected e := nofun
  constructor
  · rintro ⟨r, hr, -⟩ ⟨ts, ht, ⟨hx, hf⟩ | ⟨hx, hf⟩⟩
    · have hread : readModule code 1 path = .error .cutStatement :=
        (readModule_eq_error_iff hcut).2 ⟨ts, ht, hf, hx⟩
      rw [migrate_eq_error_iff.2 ⟨hread, hcut⟩] at hr
      cases hr
    · have hread : readModule code 1 path = .error .endless :=
        (readModule_eq_error_iff hendless).2 ⟨ts, ht, hf, hx⟩
      rw [migrate_eq_error_iff.2 ⟨hread, hendless⟩] at hr
      cases hr
  · intro h
    cases hr : migrate settings rules path code with
    | ok r => exact answered_of_ok hr
    | error failure =>
      obtain ⟨hread, hne⟩ := migrate_eq_error_iff.1 hr
      obtain ⟨ts, ht, hf, hx⟩ := (readModule_eq_error_iff hne).1 hread
      refine absurd ⟨ts, ht, ?_⟩ h
      cases failure with
      | rejected e => exact absurd rfl (hne e)
      | cutStatement => exact .inl ⟨hx, hf⟩
      | endless => exact .inr ⟨hx, hf⟩

/-- Both kinds of texts without an outcome exist. -/
theorem not_answered :
    ¬ Answered {} {} noFile "fn f() \x7b a" ∧ ¬ Answered {} {} noFile "fn f() \x7b # \x7d" := by
  have hnone {code : String} (h : (migrate {} {} noFile code).toOption.isNone = true) :
      ¬ Answered {} {} noFile code := by
    rintro ⟨r, hr, -⟩
    rw [hr] at h
    cases h
  exact ⟨hnone (by decide +kernel), hnone (by decide +kernel)⟩

end BuilderMigration
