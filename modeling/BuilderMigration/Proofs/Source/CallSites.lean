import BuilderMigration.Source.Expansion
import Mathlib.Data.List.Perm.Subperm

/-! The walk out of macro expansions, turn by turn. On every table it ends, since a turn that moves leaves
a context for the first time, and there are as many contexts to leave as expansions. A circle of call
sites is gone around at most once, so a second walk from where the first ended comes back to the same
span. Where each call site was there before its expansion there is no circle, and a walk to the root can
be made in two parts. -/

namespace BuilderMigration.Expansions

variable {t : Expansions} {target : Int} {seen seen' : List Int} {s r : Span} {es : List Expansion}
  {turns : Nat}

/-! ### Turns -/

/-- The test in front of each turn ends the walk: in the target, in the root and in a context that was
left before. -/
def Rests (target : Int) (seen : List Int) (s : Span) : Prop :=
  s.ctxt = target ∨ s.ctxt = 0 ∨ s.ctxt ∈ seen

theorem Rests.mono (h : Rests target seen' s) (hsub : seen' ⊆ seen) : Rests target seen s :=
  h.imp_right (Or.imp_right (@hsub _))

/-- No call site is known that leads out of a context: it is unregistered or generated. -/
def Shut (t : Expansions) (ctxt : Int) : Prop := t.find? ctxt = none ∨ t.isGenerated ctxt = true

instance (t : Expansions) (ctxt : Int) : Decidable (t.Shut ctxt) :=
  inferInstanceAs (Decidable (_ ∨ _))

/-- The walk from a span, where the contexts in `seen` were left before: the expansions that it goes out
of, the number of its turns and the span in which it ends. A turn that finds the context shut is the
last. -/
inductive Walks (t : Expansions) (target : Int) :
    List Int → Span → List Expansion → Nat → Span → Prop
  | rests {seen : List Int} {s : Span} (h : Rests target seen s) : Walks t target seen s [] 0 s
  | shut {seen : List Int} {s : Span} (h : ¬Rests target seen s) (hc : t.Shut s.ctxt) :
      Walks t target seen s [] 1 s
  | leaves {seen : List Int} {s r : Span} {e : Expansion} {es : List Expansion} {turns : Nat}
      (h : ¬Rests target seen s) (he : t.find? s.ctxt = some e) (hg : e.generated = false)
      (hw : Walks t target (s.ctxt :: seen) e.callSite es turns r) :
      Walks t target seen s (e :: es) (turns + 1) r

theorem isGenerated_of_find? {ctxt : Int} {e : Expansion} (h : t.find? ctxt = some e) :
    t.isGenerated ctxt = e.generated := by
  rw [isGenerated, h]

theorem not_shut {ctxt : Int} {e : Expansion} (h : t.find? ctxt = some e) (hg : e.generated = false) :
    ¬t.Shut ctxt := by
  rintro (hnone | hgenerated)
  · rw [h] at hnone
    cases hnone
  · rw [isGenerated_of_find? h, hg] at hgenerated
    cases hgenerated

theorem shut_or_leads (t : Expansions) (ctxt : Int) :
    t.Shut ctxt ∨ ∃ e, t.find? ctxt = some e ∧ e.generated = false := by
  cases hfind : t.find? ctxt with
  | none => exact .inl (.inl hfind)
  | some e =>
    cases hg : e.generated with
    | false => exact .inr ⟨e, rfl, hg⟩
    | true => exact .inl (.inr ((isGenerated_of_find? hfind).trans hg))

/-- Two walks from the same span go the same way. -/
theorem Walks.unique {es' : List Expansion} {turns' : Nat} {r' : Span}
    (h : t.Walks target seen s es turns r) (h' : t.Walks target seen s es' turns' r') :
    es = es' ∧ turns = turns' ∧ r = r' := by
  induction h generalizing es' turns' with
  | rests hrests =>
    cases h' with
    | rests => exact ⟨rfl, rfl, rfl⟩
    | shut hno => exact absurd hrests hno
    | leaves hno => exact absurd hrests hno
  | shut hno hshut =>
    cases h' with
    | rests hrests => exact absurd hrests hno
    | shut => exact ⟨rfl, rfl, rfl⟩
    | leaves _ he hg => exact absurd hshut (not_shut he hg)
  | leaves hno he hg _ ih =>
    cases h' with
    | rests hrests => exact absurd hrests hno
    | shut _ hshut => exact absurd hshut (not_shut he hg)
    | leaves _ he' _ hw' =>
      obtain rfl := Option.some.inj (he.symm.trans he')
      obtain ⟨rfl, rfl, rfl⟩ := ih hw'
      exact ⟨rfl, rfl, rfl⟩

/-- A walk ends where it begins or at the call site of an expansion that it went out of. -/
theorem Walks.ends_at (h : t.Walks target seen s es turns r) : r = s ∨ ∃ e ∈ es, r = e.callSite := by
  induction h with
  | rests | shut => exact .inl rfl
  | @leaves seen s r e es turns _ _ _ _ ih =>
    rcases ih with rfl | ⟨e', he', rfl⟩
    · exact .inr ⟨e, List.mem_cons_self, rfl⟩
    · exact .inr ⟨e', List.mem_cons_of_mem _ he', rfl⟩

/-! ### The number of turns -/

theorem walkFrom_rests (h : Rests target seen s) (steps : Nat) : t.walkFrom target steps seen s = s := by
  cases steps with
  | zero => rfl
  | succ steps => exact if_pos h

theorem walkFrom_shut (h : t.Shut s.ctxt) (steps : Nat) : t.walkFrom target steps seen s = s := by
  cases steps with
  | zero => rfl
  | succ steps =>
    rw [walkFrom]
    split
    · rfl
    · split
      · rfl
      · next e he =>
        refine if_pos (Decidable.not_not.1 fun hg => ?_)
        exact not_shut he (Bool.not_eq_true _ ▸ hg) h

theorem walkFrom_leaves {e : Expansion} (h : ¬Rests target seen s) (he : t.find? s.ctxt = some e)
    (hg : e.generated = false) (steps : Nat) :
    t.walkFrom target (steps + 1) seen s = t.walkFrom target steps (s.ctxt :: seen) e.callSite := by
  refine (if_neg h).trans ?_
  rw [he]
  dsimp only
  rw [hg, if_neg Bool.false_ne_true]

/-- There are no more registered contexts than expansions. -/
theorem length_le_of_registered (hn : seen.Nodup) (h : ∀ c ∈ seen, t.find? c ≠ none) :
    seen.length ≤ t.entries.length := by
  have hsub : seen ⊆ (List.range t.entries.length).map fun i : Nat => (i : Int) + 1 := by
    intro c hc
    have hfind := h c hc
    rw [find?] at hfind
    split at hfind
    · next hpos =>
      rw [ne_eq, List.getElem?_eq_none_iff, Nat.not_le] at hfind
      exact List.mem_map.2 ⟨(c - 1).toNat, List.mem_range.2 hfind, by omega⟩
    · exact absurd rfl hfind
  simpa using (hn.subperm hsub).length_le

/-- Where there is a step for each registered context that was not left before, the walk gets to its
end: a move out of one more context would leave more of them than there are. -/
theorem walkFrom_walks (steps : Nat) (hn : seen.Nodup) (hseen : ∀ c ∈ seen, t.find? c ≠ none)
    (hsteps : t.entries.length ≤ steps + seen.length) (s : Span) :
    ∃ es turns, t.Walks target seen s es turns (t.walkFrom target steps seen s) ∧
      turns ≤ steps + 1 := by
  induction steps generalizing seen s with
  | zero =>
    by_cases hrests : Rests target seen s
    · exact ⟨[], 0, .rests hrests, Nat.zero_le _⟩
    rcases t.shut_or_leads s.ctxt with hshut | ⟨e, he, -⟩
    · exact ⟨[], 1, .shut hrests hshut, Nat.le_refl 1⟩
    · -- no step is left, and every registered context was left before
      have hnew : (s.ctxt :: seen).Nodup :=
        List.nodup_cons.2 ⟨fun hmem => hrests (.inr (.inr hmem)), hn⟩
      have hroom := length_le_of_registered (t := t) hnew (List.forall_mem_cons.2 ⟨by simp [he], hseen⟩)
      rw [List.length_cons] at hroom
      omega
  | succ steps ih =>
    by_cases hrests : Rests target seen s
    · rw [walkFrom_rests hrests]
      exact ⟨[], 0, .rests hrests, Nat.zero_le _⟩
    rcases t.shut_or_leads s.ctxt with hshut | ⟨e, he, hg⟩
    · rw [walkFrom_shut hshut]
      exact ⟨[], 1, .shut hrests hshut, Nat.le_add_left 1 _⟩
    · have hnew : (s.ctxt :: seen).Nodup :=
        List.nodup_cons.2 ⟨fun hmem => hrests (.inr (.inr hmem)), hn⟩
      obtain ⟨es, turns, hw, hturns⟩ := ih hnew (List.forall_mem_cons.2 ⟨by simp [he], hseen⟩)
        (by rw [List.length_cons]; omega) e.callSite
      rw [walkFrom_leaves hrests he hg]
      exact ⟨e :: es, turns + 1, .leaves hrests he hg hw, Nat.succ_le_succ hturns⟩

theorem walk_walks (t : Expansions) (s : Span) (target : Int) :
    ∃ es turns, t.Walks target [] s es turns (t.walk s target) ∧ turns ≤ t.entries.length + 1 :=
  walkFrom_walks t.entries.length List.nodup_nil nofun (Nat.le_refl _) s

theorem Walks.walk_eq (h : t.Walks target [] s es turns r) : t.walk s target = r := by
  obtain ⟨_, _, hw, -⟩ := t.walk_walks s target
  exact (hw.unique h).2.2

/-! ### Walking again -/

/-- A walk that ends in none of the contexts that are forgotten goes the same way without them. -/
theorem Walks.forget (h : t.Walks target seen s es turns r) (hsub : seen' ⊆ seen)
    (hend : r.ctxt ∈ seen → r.ctxt ∈ seen') : t.Walks target seen' s es turns r := by
  induction h generalizing seen' with
  | rests h => exact .rests (h.imp_right (Or.imp_right hend))
  | shut h hc => exact .shut (fun h' => h (h'.mono hsub)) hc
  | leaves h he hg _ ih =>
    refine .leaves (fun h' => h (h'.mono hsub)) he hg (ih (List.cons_subset_cons _ hsub) fun hmem => ?_)
    rcases List.mem_cons.1 hmem with heq | hmem
    · exact List.mem_cons.2 (.inl heq)
    · exact List.mem_cons_of_mem _ (hend hmem)

/-- From where a walk ends another one comes back to the same span, unless the walk ended in a context
that was left before it began. If it ended in a context that it left itself, the other walk goes around
the circle once, by the same call sites. -/
theorem Walks.again (h : t.Walks target seen s es turns r) :
    r.ctxt ∈ seen ∨ ∃ es' turns', t.Walks target [] r es' turns' r := by
  induction h with
  | rests h =>
    rcases h with h | h | h
    · exact .inr ⟨[], 0, .rests (.inl h)⟩
    · exact .inr ⟨[], 0, .rests (.inr (.inl h))⟩
    · exact .inl h
  | shut h hc => exact .inr ⟨[], 1, .shut (fun h' => h (h'.mono (List.nil_subset _))) hc⟩
  | @leaves seen s r e es turns h he hg hw ih =>
    refine ih.elim (fun hmem => ?_) .inr
    by_cases hseen : r.ctxt ∈ seen
    · exact .inl hseen
    have hctxt : r.ctxt = s.ctxt := (List.mem_cons.1 hmem).resolve_right hseen
    have hround : t.Walks target [r.ctxt] e.callSite es turns r :=
      hw.forget (by simp [hctxt]) fun _ => List.mem_singleton_self _
    have hgoes : ¬Rests target [] r := by
      intro h'
      rw [Rests, hctxt] at h'
      exact h (Rests.mono h' (List.nil_subset _))
    exact .inr ⟨e :: es, turns + 1, .leaves hgoes (hctxt ▸ he) hg hround⟩

/-- A walk from where a walk ended changes nothing. -/
theorem walk_walk (t : Expansions) (s : Span) (target : Int) :
    t.walk (t.walk s target) target = t.walk s target := by
  obtain ⟨_, _, hw, -⟩ := t.walk_walks s target
  obtain ⟨_, _, hagain⟩ := hw.again.resolve_left List.not_mem_nil
  exact hagain.walk_eq

/-- Two expansions with call sites in each other: a walk that enters the circle in one of them goes around
it and ends at the call site that stands there, so where it ends depends on where it began. -/
example : (⟨[⟨⟨1, 2, 2⟩, false⟩, ⟨⟨3, 4, 1⟩, false⟩]⟩ : Expansions).walk ⟨5, 6, 1⟩ 0 = ⟨3, 4, 1⟩ ∧
    (⟨[⟨⟨1, 2, 2⟩, false⟩, ⟨⟨3, 4, 1⟩, false⟩]⟩ : Expansions).walk ⟨5, 6, 2⟩ 0 = ⟨1, 2, 2⟩ := by decide

/-! ### Tables without circles -/

/-- Tables in which each call site stands in the root or in a context that was registered before. -/
inductive InOrder : Expansions → Prop
  | empty : InOrder {}
  | expand {t : Expansions} {e : Expansion} (h : InOrder t) (hc : e.callSite.ctxt ≤ t.entries.length) :
      InOrder (t.register e).2

theorem InOrder.callSite_lt (h : t.InOrder) {c : Int} {e : Expansion} (he : t.find? c = some e) :
    e.callSite.ctxt < c := by
  induction h with
  | empty => simp [find?] at he
  | @expand t e' h hc ih =>
    rw [find?, register] at he
    split at he
    · next hpos =>
      rw [List.getElem?_append] at he
      split at he
      · exact ih ((if_pos hpos).trans he)
      · next hlength =>
        obtain ⟨-, rfl⟩ : (c - 1).toNat - t.entries.length = 0 ∧ e' = e := by
          simpa [List.getElem?_singleton] using he
        omega
    · cases he

/-- All contexts that a walk left before are larger than the one that it has come to. -/
def Below (seen : List Int) (s : Span) : Prop := ∀ c ∈ seen, s.ctxt < c

theorem Below.nil (s : Span) : Below [] s := nofun

theorem Below.rests_iff (h : Below seen s) : Rests target seen s ↔ s.ctxt = target ∨ s.ctxt = 0 := by
  have hmet : s.ctxt ∉ seen := fun hmem => absurd (h _ hmem) (Int.lt_irrefl _)
  rw [Rests, or_iff_left hmet]

theorem Below.callSite (h : Below seen s) (ht : t.InOrder) {e : Expansion}
    (he : t.find? s.ctxt = some e) : Below (s.ctxt :: seen) e.callSite := by
  have hlt := ht.callSite_lt he
  exact List.forall_mem_cons.2 ⟨hlt, fun c hc => Int.lt_trans hlt (h c hc)⟩

/-- No context is met again, so a walk ends in the target, in the root or in a context that is shut. -/
theorem Walks.ends_in (h : t.Walks target seen s es turns r) (ht : t.InOrder) (hb : Below seen s) :
    r.ctxt = target ∨ r.ctxt = 0 ∨ t.Shut r.ctxt := by
  induction h with
  | rests h => exact (hb.rests_iff.1 h).imp_right .inl
  | shut _ hc => exact .inr (.inr hc)
  | leaves _ he _ _ ih => exact ih (hb.callSite ht he)

/-- A walk goes the same way whatever larger contexts were left before. -/
theorem Walks.unseen (h : t.Walks target seen s es turns r) (ht : t.InOrder) (hb : Below seen s)
    (hb' : Below seen' s) : t.Walks target seen' s es turns r := by
  induction h generalizing seen' with
  | rests h => exact .rests (hb'.rests_iff.2 (hb.rests_iff.1 h))
  | shut h hc => exact .shut (fun h' => h (hb.rests_iff.2 (hb'.rests_iff.1 h'))) hc
  | leaves h he hg _ ih =>
    exact .leaves (fun h' => h (hb.rests_iff.2 (hb'.rests_iff.1 h'))) he hg
      (ih (hb.callSite ht he) (hb'.callSite ht he))

/-- A walk to some context and a walk from its end to the root make one walk to the root. -/
theorem Walks.through {mid : Int} {es' : List Expansion} {turns' : Nat} {r' : Span}
    (h : t.Walks mid seen s es turns r) (ht : t.InOrder) (hb : Below seen s)
    (h' : t.Walks 0 [] r es' turns' r') : ∃ es'' turns'', t.Walks 0 seen s es'' turns'' r' := by
  induction h with
  | rests | shut => exact ⟨es', turns', h'.unseen ht (.nil _) hb⟩
  | @leaves seen s r e es turns h he hg _ ih =>
    obtain ⟨es'', turns'', hw⟩ := ih (hb.callSite ht he) h'
    refine ⟨e :: es'', turns'' + 1, .leaves (fun hrests => h (.inr ?_)) he hg hw⟩
    exact hrests.elim .inl id

/-- On every table a walk ends, where it began or at the call site of an expansion that it went out of,
after at most one turn more than there are expansions, and from there it goes no further. If each call
site was there before its expansion, it ends in the target, in the root or where no call site is known,
and on the way to the root it may stop in any context. -/
theorem walk_ends (t : Expansions) (s : Span) (target : Int) :
    (∃ es turns, t.Walks target [] s es turns (t.walk s target) ∧ turns ≤ t.entries.length + 1 ∧
        (t.walk s target = s ∨ ∃ e ∈ es, t.walk s target = e.callSite)) ∧
      t.walk (t.walk s target) target = t.walk s target ∧
      (t.InOrder →
        ((t.walk s target).ctxt = target ∨ (t.walk s target).ctxt = 0 ∨ t.Shut (t.walk s target).ctxt) ∧
          ∀ mid, t.walk (t.walk s mid) 0 = t.walk s 0) := by
  obtain ⟨es, turns, hw, hturns⟩ := t.walk_walks s target
  refine ⟨⟨es, turns, hw, hturns, hw.ends_at⟩, t.walk_walk s target, fun ht => ?_⟩
  refine ⟨hw.ends_in ht (.nil s), fun mid => ?_⟩
  obtain ⟨_, _, hmid, -⟩ := t.walk_walks s mid
  obtain ⟨_, _, hroot, -⟩ := t.walk_walks (t.walk s mid) 0
  obtain ⟨_, _, hthrough⟩ := hmid.through ht (.nil s) hroot
  exact hthrough.walk_eq.symm

/-- An expansion, one within it and a generated one within that. -/
def nestedCalls : Expansions := ⟨[⟨⟨10, 30, 0⟩, false⟩, ⟨⟨12, 20, 1⟩, false⟩, ⟨⟨14, 16, 2⟩, true⟩]⟩

/-- Out of two expansions a span is walked to the outer call, and out of the generated one not at all. -/
theorem walk_ends_nested : nestedCalls.InOrder ∧
    nestedCalls.walk (nestedCalls.walk ⟨15, 16, 2⟩ 1) 0 = ⟨10, 30, 0⟩ ∧
      nestedCalls.Shut (nestedCalls.walk ⟨15, 16, 3⟩ 0).ctxt := by
  have h : nestedCalls.InOrder := .expand (.expand (.expand .empty (by decide)) (by decide)) (by decide)
  obtain ⟨-, -, htwo⟩ := walk_ends nestedCalls ⟨15, 16, 2⟩ 0
  obtain ⟨-, -, hshut⟩ := walk_ends nestedCalls ⟨15, 16, 3⟩ 0
  refine ⟨h, (htwo h).2 1, ?_⟩
  exact ((hshut h).1.resolve_left (by decide)).resolve_left (by decide)

end BuilderMigration.Expansions
