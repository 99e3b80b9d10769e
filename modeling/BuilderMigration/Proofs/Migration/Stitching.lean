import BuilderMigration.Migration.Run
import BuilderMigration.Proofs.Rewrite.Anchored
import BuilderMigration.Tree.Respan

/-! The context that copied text is seen from. Each closure is rewritten in its own context, and what is
copied into its text is walked out to that; but where a rule takes the calls of a closure into the text
of the one around it, what stands in the calls is walked out to the context of that one. -/

namespace BuilderMigration

/-- The text for a closure is put together from the texts that stand at certain places, or from
placeholders where none stands: each argument and each statement is walked out to the context of the
closure that it stands in, those of a closure that a call among `merges` is given to the context of the
closure around. -/
def Workshop.Stitches (w : Workshop) (rules : Rules) (c : BuilderClosure)
    (merges : String → String → Bool) : Prop :=
  ∀ d, (w.rewriteClosure rules c d).1.mapError (·.reason) =
    (w.rooted.rewriteClosure rules (c.anchored w merges) d).1.mapError (·.reason)

/-- Each argument and statement is walked out to the context of the innermost closure around it. -/
abbrev Workshop.StitchesOwn (w : Workshop) (rules : Rules) (c : BuilderClosure) : Prop :=
  w.Stitches rules c fun _ _ => false

namespace Workshop

variable {w : Workshop} {rules : Rules} {c : BuilderClosure}

theorem Stitches.of_follows {merges : String → String → Bool}
    (h : ∀ k, Rewrite.Follows (seenFrom k) Eq (w.rewriteClosure rules c)
      (w.rooted.rewriteClosure rules (c.anchored w merges))) : w.Stitches rules c merges := by
  intro d
  have hbeside : d.Beside (seenFrom d.ctxt) d := by
    refine ⟨rfl, List.forall₂_same.2 fun n _ => ⟨rfl, ?_⟩, rfl⟩
    cases n.span with
    | none => exact .none
    | some s => exact .some trivial
  obtain ⟨⟨⟩, -⟩ | ⟨halike, -⟩ := (h d.ctxt).alike d d hbeside
  generalize (w.rewriteClosure rules c d).1 = r at halike ⊢
  generalize (w.rooted.rewriteClosure rules (c.anchored w merges) d).1 = r' at halike ⊢
  cases halike with
  | value h => rw [h]
  | violation h => exact congrArg Except.error h.reason

/-- A closure is put together from the texts of its arguments and statements, each walked out to the
context of the closure that it stands in, or of the closure around if a rule takes it in; and from the
texts walked out to the context of the innermost closure wherever, of the closures that are taken in,
all arguments have the same text seen from the closure or from the one around it. -/
theorem stitches (w : Workshop) (rules : Rules) (c : BuilderClosure) :
    (∀ s k j, w.rooted.resolve? (w.anchor s k) j = w.resolve? s k) ∧
    w.Stitches rules c rules.merges ∧
    ((∀ p ∈ c.taken rules.merges, w.TakenAlike p) → w.StitchesOwn rules c) :=
  ⟨w.resolve?_anchor, .of_follows (follows_anchored rules true c (.inl rfl)),
    fun h => .of_follows (follows_anchored rules false c (.inr h))⟩

end Workshop

/-! ### A row of components from an expansion -/

/-- The closures that are recognised in a file. -/
def Module.closures (settings : Settings) (m : Module) : List BuilderClosure :=
  (m.resolved settings).tree.preorder.filterMap fun n =>
    match n with
    | .expr e => builderClosure? settings e
    | _ => none

/-- The user's own components, with a row that stands between positions 100 and 119, and a macro call
between 123 and 130. -/
def rowText : String :=
  "use serenity::builder::CreateComponents; fn f() \x7b " ++
    "g(|c: &mut CreateComponents| c.create_action_row(|r| r.add_button(b))); row!(b); \x7d"

/-- The text at the start of a run, with an expansion of the macro call. -/
def rowWorkshop : Workshop :=
  ⟨{ (SourceMap.read {} noFile rowText).2 with expansions := ⟨[⟨⟨123, 130, 0⟩, false⟩]⟩ }, {}⟩

/-- The outermost closure of the text, where the nodes at some spans come from the expansion. -/
def rowClosure? (expanded : Span → Bool) : Option BuilderClosure := do
  let m ← (readModule rowText 1 noFile).toOption
  ((m.mapSpans fun s => if expanded s then ⟨s.lo, s.hi, 1⟩ else s).closures {}).head?

/-- A row that came from the expansion around an argument that the user wrote. -/
theorem Workshop.stitchesOwn_row : ∃ c, rowClosure? (· = ⟨100, 119, 0⟩) = some c ∧
    (c.taken (Rules.merges {})).map (fun p => (p.1, p.2.span)) = [(0, ⟨100, 119, 1⟩)] ∧
    (∀ p ∈ c.taken (Rules.merges {}), rowWorkshop.TakenAlike p) ∧ rowWorkshop.StitchesOwn {} c := by
  have hlook : (rowClosure? (· = ⟨100, 119, 0⟩)).map (fun c =>
      ((c.taken (Rules.merges {})).map (fun p => (p.1, p.2.span)),
        decide (∀ p ∈ c.taken (Rules.merges {}), rowWorkshop.TakenAlike p))) =
      some ([(0, ⟨100, 119, 1⟩)], true) := by
    decide +kernel
  obtain ⟨c, hc, hlook⟩ := Option.map_eq_some_iff.1 hlook
  obtain ⟨htaken, halike⟩ := Prod.mk.inj hlook
  have halike := of_decide_eq_true halike
  exact ⟨c, hc, htaken, halike, (rowWorkshop.stitches {} c).2.2 halike⟩

/-- A row that came from the expansion with all that stands in it: the program writes the macro call in
the place of the argument, though the argument is walked out no further than its own closure. -/
theorem Workshop.not_stitchesOwn : ∃ c, rowClosure? (Span.contains ⟨100, 119, 0⟩) = some c ∧
    (rowWorkshop.rewriteClosure {} c {}).1.toOption =
      some "vec![CreateActionRow::Buttons(vec![row!(b)])]" ∧
    ¬ rowWorkshop.StitchesOwn {} c := by
  have hlook : (rowClosure? (Span.contains ⟨100, 119, 0⟩)).map (fun c =>
      ((rowWorkshop.rewriteClosure {} c {}).1.toOption,
        (rowWorkshop.rooted.rewriteClosure {} (c.anchored rowWorkshop fun _ _ => false) {}).1.toOption)) =
      some (some "vec![CreateActionRow::Buttons(vec![row!(b)])]",
        some "vec![CreateActionRow::Buttons(vec![b])]") := by
    decide +kernel
  obtain ⟨c, hc, hlook⟩ := Option.map_eq_some_iff.1 hlook
  obtain ⟨hwritten, hown⟩ := Prod.mk.inj hlook
  refine ⟨c, hc, hwritten, fun h => ?_⟩
  have htexts := congrArg Except.toOption (h {})
  have hoption (r : Except Violation String) : (r.mapError (·.reason)).toOption = r.toOption := by
    cases r <;> rfl
  rw [hoption, hoption, hwritten, hown] at htexts
  simp at htexts

end BuilderMigration
