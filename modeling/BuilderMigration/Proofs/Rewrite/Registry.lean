import BuilderMigration.Rewrite.Rules
import Mathlib.Data.List.Induction

/-! The table of rules as a machine that registers, looks up, loads and clears. A look-up loads the
bundled rules when nothing was loaded since the table was cleared. That load is as much a
registration as one that was asked for: of the rules registered before it, those of bundled builders
are lost. -/

namespace BuilderMigration.Rules

variable {builder looked : String} {rule : Rule} {t : Rules}

/-! ### Steps -/

/-- What can be done with the table. -/
inductive Step where
  | register (builder : String) (rule : Rule)
  | find (builder : String)
  | load
  | clear
  deriving DecidableEq

variable {s : Step} {steps past later : List Step}

/-- The table behind a step. -/
def after (t : Rules) : Step → Rules
  | .register builder rule => t.register builder rule
  | .find _ => t.ready
  | .load => t.load
  | .clear => {}

/-- The table behind some steps, cleared at first. -/
def run (steps : List Step) : Rules := steps.foldl after {}

theorem run_append_singleton (steps : List Step) (s : Step) :
    run (steps ++ [s]) = (run steps).after s := by
  rw [run, List.foldl_append]
  rfl

/-- The bundled rule of a builder, if it has one. -/
def bundled? (builder : String) : Option Rule := Assoc.get? builder bundles.flatten

/-- The last rule that was registered for a builder since the table was cleared, where loading counts
as registering the bundled rules and looking up as nothing. The latest step comes first. -/
def registered? (builder : String) : List Step → Option Rule
  | [] => none
  | .register b rule :: past => if b = builder then some rule else registered? builder past
  | .find _ :: past => registered? builder past
  | .load :: past => (bundled? builder).or (registered? builder past)
  | .clear :: _ => none

/-- What a look-up behind some steps is to find: what was registered last, or else what is bundled. -/
def expected? (builder : String) (steps : List Step) : Option Rule :=
  (registered? builder steps.reverse).or (bundled? builder)

/-! ### The table behind a step -/

theorem get?_register (t : Rules) (b : String) (rule : Rule) (builder : String) :
    Assoc.get? builder (t.register b rule).entries =
      if b = builder then some rule else Assoc.get? builder t.entries :=
  Assoc.get?_put b rule t.entries builder

theorem entries_foldl_register (rules : List (String × Rule)) (t : Rules) :
    (rules.foldl (fun t e => t.register e.1 e.2) t).entries =
      rules.foldl (fun l e => Assoc.put e.1 e.2 l) t.entries := by
  induction rules generalizing t with
  | nil => rfl
  | cons e rules ih => exact ih _

/-- Loading puts the bundled rules in front of all others. -/
theorem get?_load (t : Rules) (builder : String) :
    Assoc.get? builder t.load.entries = (bundled? builder).or (Assoc.get? builder t.entries) := by
  have hnodup : (bundles.flatten.map (·.1)).Nodup := by decide
  rw [load, entries_foldl_register]
  exact Assoc.get?_foldl_put hnodup t.entries builder

theorem loaded_ready (t : Rules) : t.ready.loaded = true := by
  rw [ready]
  split
  · assumption
  · rfl

theorem ready_of_loaded (h : t.loaded = true) : t.ready = t := if_pos h

theorem ready_of_not_loaded (h : t.loaded = false) : t.ready = t.load :=
  if_neg (by rw [h]; exact Bool.false_ne_true)

/-! ### Rules that are registered too early -/

/-- Whether a step leaves alone what was registered for a builder before. -/
def Step.Keeps (builder : String) : Step → Prop
  | .register b _ => b ≠ builder
  | .find _ => True
  | .load | .clear => False

/-- A rule that was the last one registered for a builder, in a table into which the bundled rules had
not been loaded. -/
def Early (builder : String) (rule : Rule) (steps : List Step) : Prop :=
  ∃ past later, steps = past ++ .register builder rule :: later ∧ (run past).loaded = false ∧
    ∀ s ∈ later, s.Keeps builder

theorem early_nil : ¬ Early builder rule [] := by
  rintro ⟨past, later, h, -⟩
  exact List.append_ne_nil_of_right_ne_nil past (List.cons_ne_nil _ later) h.symm

/-- One more step: it registers the rule itself, or it keeps it. -/
theorem early_append_singleton : Early builder rule (steps ++ [s]) ↔
    s = .register builder rule ∧ (run steps).loaded = false ∨
      s.Keeps builder ∧ Early builder rule steps := by
  constructor
  · rintro ⟨past, later, h, hloaded, hkeeps⟩
    rcases List.eq_nil_or_concat later with rfl | ⟨front, last, rfl⟩
    · obtain ⟨rfl, hs⟩ := List.append_inj' h rfl
      exact .inl ⟨List.head_eq_of_cons_eq hs, hloaded⟩
    · rw [List.concat_eq_append, ← List.cons_append, ← List.append_assoc] at h
      obtain ⟨rfl, hs⟩ := List.append_inj' h rfl
      rw [List.concat_eq_append, List.forall_mem_append] at hkeeps
      obtain rfl := List.head_eq_of_cons_eq hs
      exact .inr ⟨hkeeps.2 _ List.mem_cons_self, past, front, rfl, hloaded, hkeeps.1⟩
  · rintro (⟨rfl, hloaded⟩ | ⟨hs, past, later, rfl, hloaded, hkeeps⟩)
    · exact ⟨steps, [], rfl, hloaded, nofun⟩
    · refine ⟨past, later ++ [s], by rw [List.append_assoc, List.cons_append], hloaded, ?_⟩
      rw [List.forall_mem_append]
      exact ⟨hkeeps, List.forall_mem_singleton.2 hs⟩

/-- What a table holds for a builder behind some steps: the last rule registered for it, or else the
bundled one, but for a rule that came too early, of which a load leaves nothing where another is
bundled. -/
structure Reflects (builder : String) (steps : List Step) (t : Rules) : Prop where
  last : ∀ rule, Early builder rule steps → registered? builder steps.reverse = some rule
  waiting : t.loaded = false → Assoc.get? builder t.entries = registered? builder steps.reverse ∧
    ∀ rule, registered? builder steps.reverse = some rule → Early builder rule steps
  lost : t.loaded = true → ∀ rule, Early builder rule steps →
    Assoc.get? builder t.entries = (bundled? builder).or (some rule)
  kept : t.loaded = true → (∀ rule, ¬ Early builder rule steps) →
    Assoc.get? builder t.entries = expected? builder steps

theorem reflects_nil (builder : String) : Reflects builder [] {} where
  last _ h := absurd h early_nil
  waiting _ := ⟨rfl, nofun⟩
  lost := nofun
  kept := nofun

theorem Reflects.register (h : Reflects builder steps (run steps)) (b : String) (rule : Rule) :
    Reflects builder (steps ++ [.register b rule]) ((run steps).register b rule) := by
  by_cases hb : b = builder
  · subst hb
    have hlast : registered? b (steps ++ [Step.register b rule]).reverse = some rule := by
      rw [List.reverse_concat]
      exact if_pos rfl
    have hget : Assoc.get? b ((run steps).register b rule).entries = some rule := by
      rw [get?_register, if_pos rfl]
    have hearly (r : Rule) :
        Early b r (steps ++ [.register b rule]) ↔ rule = r ∧ (run steps).loaded = false := by
      rw [early_append_singleton]
      simp [Step.Keeps]
    refine ⟨fun r hr => ?_, fun ht => ⟨hget.trans hlast.symm, fun r hr => ?_⟩, fun ht r hr => ?_,
      fun _ _ => ?_⟩
    · rw [hlast, ((hearly r).1 hr).1]
    · exact (hearly r).2 ⟨Option.some.inj (hlast.symm.trans hr), ht⟩
    · exact absurd (((hearly r).1 hr).2.symm.trans ht) Bool.false_ne_true
    · rw [hget, expected?, hlast, Option.some_or]
  · have hlast : registered? builder (steps ++ [Step.register b rule]).reverse =
        registered? builder steps.reverse := by
      rw [List.reverse_concat]
      exact if_neg hb
    have hget : Assoc.get? builder ((run steps).register b rule).entries =
        Assoc.get? builder (run steps).entries := by
      rw [get?_register, if_neg hb]
    have hearly (r : Rule) : Early builder r (steps ++ [.register b rule]) ↔ Early builder r steps := by
      rw [early_append_singleton]
      simp [Step.Keeps, hb]
    refine ⟨?_, ?_, ?_, ?_⟩ <;> simp only [hlast, hget, hearly, expected?]
    · exact h.last
    · exact h.waiting
    · exact h.lost
    · exact h.kept

theorem early_find : Early builder rule (steps ++ [.find looked]) ↔ Early builder rule steps := by
  rw [early_append_singleton]
  simp [Step.Keeps]

theorem registered?_find :
    registered? builder (steps ++ [Step.find looked]).reverse = registered? builder steps.reverse := by
  rw [List.reverse_concat]
  rfl

/-- The first look-up loads. -/
theorem Reflects.ready (h : Reflects builder steps t) (looked : String) :
    Reflects builder (steps ++ [.find looked]) t.ready := by
  have hloaded := loaded_ready t
  refine ⟨?_, fun ht => ?_, fun _ r hr => ?_, fun _ hr => ?_⟩
  · simpa only [early_find, registered?_find] using h.last
  · exact absurd (ht.symm.trans hloaded) Bool.false_ne_true
  · rw [early_find] at hr
    cases ht : t.loaded with
    | true => rw [ready_of_loaded ht, h.lost ht r hr]
    | false => rw [ready_of_not_loaded ht, get?_load, (h.waiting ht).1, h.last r hr]
  · simp only [early_find] at hr
    rw [expected?, registered?_find]
    cases ht : t.loaded with
    | true => rw [ready_of_loaded ht, h.kept ht hr, expected?]
    | false =>
      obtain ⟨hget, hearly⟩ := h.waiting ht
      have hnone : registered? builder steps.reverse = none :=
        Option.eq_none_iff_forall_ne_some.2 fun r hsome => hr r (hearly r hsome)
      rw [ready_of_not_loaded ht, get?_load, hget, hnone, Option.or_none, Option.none_or]

/-- Rules that are asked for to be loaded are registered. -/
theorem Reflects.load (h : Reflects builder steps t) : Reflects builder (steps ++ [.load]) t.load := by
  have hearly (r : Rule) : ¬ Early builder r (steps ++ [.load]) := by
    rw [early_append_singleton]
    simp [Step.Keeps]
  refine ⟨fun r hr => absurd hr (hearly r), nofun, fun _ r hr => absurd hr (hearly r), fun _ _ => ?_⟩
  rw [get?_load, expected?, List.reverse_concat, registered?]
  cases hb : bundled? builder with
  | some rule => rfl
  | none =>
    rw [Option.none_or, Option.none_or, Option.or_none]
    cases ht : t.loaded with
    | false => exact (h.waiting ht).1
    | true =>
      by_cases hr : ∃ r, Early builder r steps
      · obtain ⟨r, hr⟩ := hr
        rw [h.lost ht r hr, hb, Option.none_or, h.last r hr]
      · rw [h.kept ht (not_exists.1 hr), expected?, hb, Option.or_none]

theorem reflects_clear (builder : String) (steps : List Step) :
    Reflects builder (steps ++ [.clear]) {} := by
  have hearly (r : Rule) : ¬ Early builder r (steps ++ [.clear]) := by
    rw [early_append_singleton]
    simp [Step.Keeps]
  have hlast : registered? builder (steps ++ [Step.clear]).reverse = none := by
    rw [List.reverse_concat]
    rfl
  refine ⟨fun r hr => absurd hr (hearly r), fun _ => ⟨hlast.symm, fun r hr => ?_⟩, nofun, nofun⟩
  rw [hlast] at hr
  cases hr

theorem reflects_run (builder : String) (steps : List Step) : Reflects builder steps (run steps) := by
  induction steps using List.reverseRecOn with
  | nil => exact reflects_nil builder
  | append_singleton steps s ih =>
    rw [run_append_singleton]
    cases s with
    | register b rule => exact ih.register b rule
    | find looked => exact ih.ready looked
    | load => exact ih.load
    | clear => exact reflects_clear builder steps

/-! ### What a look-up finds -/

/-- A rule that came too early is found only where no other one is bundled. -/
theorem find?_run_of_early (h : Early builder rule steps) :
    (run steps).find? builder = (bundled? builder).or (some rule) :=
  ((reflects_run builder steps).ready builder).lost (loaded_ready _) rule (early_find.2 h)

theorem find?_run_of_not_early (h : ∀ rule, ¬ Early builder rule steps) :
    (run steps).find? builder = expected? builder steps := by
  have hkept := ((reflects_run builder steps).ready builder).kept (loaded_ready _)
  simp only [early_find, expected?, registered?_find] at hkept
  exact hkept h

/-- A look-up finds what was registered last unless that came too early and another rule is
bundled. -/
theorem find?_run_eq_iff : (run steps).find? builder = expected? builder steps ↔
    ∀ rule own, Early builder rule steps → bundled? builder = some own → rule = own := by
  by_cases hearly : ∃ rule, Early builder rule steps
  · obtain ⟨rule, hrule⟩ := hearly
    have hlast := (reflects_run builder steps).last rule hrule
    rw [find?_run_of_early hrule, expected?, hlast, Option.some_or]
    constructor
    · intro h r own hr hown
      rw [hown, Option.some_or] at h
      exact Option.some.inj (((reflects_run builder steps).last r hr).symm.trans (hlast.trans h.symm))
    · intro h
      cases hown : bundled? builder with
      | none => rfl
      | some own => rw [h rule own hrule hown, Option.some_or]
  · rw [not_exists] at hearly
    exact ⟨fun _ r _ hr => absurd hr (hearly r), fun _ => find?_run_of_not_early hearly⟩

/-! ### Look-ups in between -/

theorem registered?_append_find (later past : List Step) :
    registered? builder (later ++ .find looked :: past) = registered? builder (later ++ past) := by
  induction later with
  | nil => rfl
  | cons s later ih => cases s <;> simp only [List.cons_append, registered?, ih]

theorem expected?_append_find (looked : String) :
    expected? builder (past ++ .find looked :: later) = expected? builder (past ++ later) := by
  rw [expected?, expected?, List.reverse_append, List.reverse_cons, List.append_assoc,
    List.singleton_append, registered?_append_find, List.reverse_append]

/-- One more look-up does not keep the bundled rules from being loaded. -/
theorem loaded_run_append_find (h : (run (past ++ later)).loaded = true) :
    (run (past ++ .find looked :: later)).loaded = true := by
  induction later using List.reverseRecOn with
  | nil =>
    rw [run_append_singleton]
    exact loaded_ready _
  | append_singleton later s ih =>
    rw [← List.append_assoc, run_append_singleton] at h
    rw [← List.cons_append, ← List.append_assoc, run_append_singleton]
    cases s with
    | register b rule => exact ih h
    | find b => exact loaded_ready _
    | load => rfl
    | clear => cases h

/-- One more look-up does not bring a rule to be registered too early. -/
theorem Early.of_append_find (h : Early builder rule (past ++ .find looked :: later)) :
    Early builder rule (past ++ later) := by
  induction later using List.reverseRecOn with
  | nil => exact (List.append_nil past).symm ▸ early_find.1 h
  | append_singleton later s ih =>
    rw [← List.cons_append, ← List.append_assoc, early_append_singleton] at h
    rw [← List.append_assoc, early_append_singleton]
    refine h.imp (fun ⟨hs, hloaded⟩ => ⟨hs, ?_⟩) fun ⟨hs, hearly⟩ => ⟨hs, ih hearly⟩
    rw [Bool.eq_false_iff] at hloaded ⊢
    exact fun h => hloaded (loaded_run_append_find h)

/-! ### The last registration -/

/-- Every builder has the rule that was registered for it last, and no look-up in between would have
changed that. -/
def LastRegistrationWins (steps : List Step) : Prop :=
  (∀ builder, (run steps).find? builder = expected? builder steps) ∧
    ∀ past later looked builder, steps = past ++ later →
      (run (past ++ .find looked :: later)).find? builder = (run steps).find? builder

/-- The last registration wins just where no rule came too early for a builder that has another
bundled rule. -/
theorem lastRegistrationWins_iff (steps : List Step) : LastRegistrationWins steps ↔
    ∀ builder rule own, Early builder rule steps → bundled? builder = some own → rule = own := by
  constructor
  · rintro ⟨hlast, -⟩ builder
    exact find?_run_eq_iff.1 (hlast builder)
  · intro h
    have hlast (builder : String) : (run steps).find? builder = expected? builder steps :=
      find?_run_eq_iff.2 (h builder)
    refine ⟨hlast, ?_⟩
    rintro past later looked builder rfl
    rw [hlast, ← expected?_append_find looked, find?_run_eq_iff]
    exact fun rule own hearly => h builder rule own hearly.of_append_find

/-- A rule for buttons that is registered before anything is looked up is lost to the bundled one. -/
theorem not_lastRegistrationWins :
    ¬ LastRegistrationWins [.register "CreateButton" (.fixed "button()")] := by
  rintro ⟨hlast, -⟩
  have hfound : (run [.register "CreateButton" (.fixed "button()")]).find? "CreateButton" =
      some .button := by decide
  have hexpected : expected? "CreateButton" [.register "CreateButton" (.fixed "button()")] =
      some (.fixed "button()") := by decide
  have := hlast "CreateButton"
  rw [hfound, hexpected] at this
  cases this

end BuilderMigration.Rules
