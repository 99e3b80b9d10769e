import BuilderMigration.Proofs.Rewrite.Total
import Mathlib.Data.List.Forall2

/-! Two rewrites side by side, each among its own spans and contexts. What the one comes to, the other
comes to as well, up to a relation; only where texts are allowed to differ (`lax`) may the two part,
and then the first takes a note. -/

namespace BuilderMigration

/-- How what surrounds two rewrites is related: the spans that are noted, and the contexts that text
is seen from. -/
structure Frame where
  span : Span → Span → Prop
  ctxt : Int → Int → Prop
  lax : Prop
  exists_span : ∀ s, ∃ t, span s t

/-- The same spans elsewhere, from other contexts. -/
abbrev Frame.from (F : Frame) (ctxt : Int → Int → Prop) : Frame := { F with ctxt }

variable {F : Frame}

structure Note.Beside (spans : Span → Span → Prop) (n n' : Note) : Prop where
  message : n.message = n'.message
  span : Option.Rel spans n.span n'.span

structure Violation.Beside (spans : Span → Span → Prop) (v v' : Violation) : Prop where
  reason : v.reason = v'.reason
  span : Option.Rel spans v.span v'.span

structure Draft.Beside (F : Frame) (d d' : Draft) : Prop where
  ctxt : F.ctxt d.ctxt d'.ctxt
  notes : List.Forall₂ (Note.Beside F.span) d.notes d'.notes
  consulted : d.consulted = d'.consulted

theorem Violation.exists_beside (F : Frame) (v : Violation) : ∃ v', v.Beside F.span v' := by
  obtain ⟨reason, _ | s⟩ := v
  · exact ⟨⟨reason, none⟩, rfl, .none⟩
  · obtain ⟨t, ht⟩ := F.exists_span s
    exact ⟨⟨reason, some t⟩, rfl, .some ht⟩

theorem Violation.Beside.span_getD {spans : Span → Span → Prop} {v v' : Violation}
    (h : v.Beside spans v') {s s' : Span} (hs : spans s s') :
    spans (v.span.getD s) (v'.span.getD s') := by
  obtain ⟨-, h⟩ := h
  generalize v.span = t at h ⊢
  generalize v'.span = t' at h ⊢
  cases h with
  | none => exact hs
  | some h => exact h

namespace Rewrite

variable {α β γ δ : Type} {R : α → β → Prop} {S : γ → δ → Prop}

/-- Results alike: values in a relation, or violations for the same reason. -/
inductive Alike (spans : Span → Span → Prop) (R : α → β → Prop) :
    Except Violation α → Except Violation β → Prop
  | value {a : α} {b : β} (h : R a b) : Alike spans R (.ok a) (.ok b)
  | violation {v v' : Violation} (h : v.Beside spans v') : Alike spans R (.error v) (.error v')

/-- A run that stays in its context and takes no note back, with a partner for its value. -/
structure Steady (R : α → β → Prop) (d : Draft) (run : Except Violation α × Draft) : Prop where
  ctxt : run.2.ctxt = d.ctxt
  grows : d.notes.length ≤ run.2.notes.length
  partner : ∀ a, run.1 = .ok a → ∃ b, R a b

/-- The second rewrite follows the first: beside a draft of the first it has a result like the one of
the first and comes to a draft beside it, unless texts are lax and the first takes a note. -/
structure Follows (F : Frame) (R : α → β → Prop) (x : Rewrite α) (y : Rewrite β) : Prop where
  steady : ∀ d k, F.ctxt d.ctxt k → Steady R d (x d)
  alike : ∀ d d', d.Beside F d' → F.lax ∧ d.notes.length < (x d).2.notes.length ∨
    Alike F.span R (x d).1 (y d').1 ∧ (x d).2.Beside F (y d').2

theorem bind_of_error {x : Rewrite α} {k : α → Rewrite γ} {v : Violation} {d d' : Draft}
    (h : x d = (.error v, d')) : (x >>= k) d = (.error v, d') := by
  simp only [bind, ExceptT.bind, ExceptT.mk, StateT.bind, h]
  rfl

namespace Follows

variable {x x' : Rewrite α} {y y' : Rewrite β} {k : α → Rewrite γ} {l : β → Rewrite δ}

theorem imp {R' : α → β → Prop} (hx : Follows F R x y) (h : ∀ a b, R a b → R' a b) :
    Follows F R' x y where
  steady d k hk :=
    have hd := hx.steady d k hk
    ⟨hd.ctxt, hd.grows, fun a ha => (hd.partner a ha).imp fun b => h a b⟩
  alike d d' hd := (hx.alike d d' hd).imp_right fun ⟨ha, he⟩ => by
    refine ⟨?_, he⟩
    generalize (x d).1 = r at ha ⊢
    generalize (y d').1 = s at ha ⊢
    cases ha with
    | value hab => exact .value (h _ _ hab)
    | violation hv => exact .violation hv

theorem pure {a : α} {b : β} (h : R a b) : Follows F R (pure a) (pure b) where
  steady _ _ _ := ⟨rfl, Nat.le_refl _, fun _ ha => ⟨b, Except.ok.inj ha ▸ h⟩⟩
  alike _ _ hd := .inr ⟨.value h, hd⟩

theorem refuse (reason : String) {s t : Span} (h : F.span s t) :
    Follows F R (Rewrite.refuse reason (some s)) (Rewrite.refuse reason (some t)) where
  steady _ _ _ := ⟨rfl, Nat.le_refl _, nofun⟩
  alike _ _ hd := .inr ⟨.violation ⟨rfl, .some h⟩, hd⟩

/-- Each sees its own context. -/
theorem get : Follows F (fun d d' : Draft => F.ctxt d.ctxt d'.ctxt) get get where
  steady _ k hk := ⟨rfl, Nat.le_refl _, fun _ ha => ⟨{ ctxt := k }, Except.ok.inj ha ▸ hk⟩⟩
  alike _ _ hd := .inr ⟨.value hd.ctxt, hd⟩

theorem consult : Follows F (fun _ _ => True) consult consult where
  steady _ _ _ := ⟨rfl, Nat.le_refl _, fun _ _ => ⟨(), trivial⟩⟩
  alike _ _ hd := .inr ⟨.value trivial, hd.ctxt, hd.notes, rfl⟩

theorem length_note (message : String) (span : Option Span) (d : Draft) :
    (Rewrite.note message span d).2.notes.length = d.notes.length + 1 :=
  List.length_append

theorem note (message : String) {s t : Span} (h : F.span s t) :
    Follows F (fun _ _ => True) (Rewrite.note message (some s)) (Rewrite.note message (some t)) where
  steady d _ _ := by
    have := length_note message (some s) d
    exact ⟨rfl, by omega, fun _ _ => ⟨(), trivial⟩⟩
  alike _ _ hd :=
    .inr ⟨.value trivial, hd.ctxt, List.rel_append hd.notes (.cons ⟨rfl, .some h⟩ .nil), hd.consulted⟩

theorem bind (hx : Follows F R x y) (hk : ∀ a b, R a b → Follows F S (k a) (l b)) :
    Follows F S (x >>= k) (y >>= l) where
  steady d c hc := by
    have hd := hx.steady d c hc
    rcases hr : x d with ⟨v | a, d'⟩
    · rw [hr] at hd
      rw [bind_of_error hr]
      exact ⟨hd.ctxt, hd.grows, nofun⟩
    · rw [hr] at hd
      rw [bind_of_ok hr]
      obtain ⟨b, hb⟩ := hd.partner a rfl
      have hd' := (hk a b hb).steady d' c (hd.ctxt ▸ hc)
      exact ⟨hd'.ctxt.trans hd.ctxt, Nat.le_trans hd.grows hd'.grows, hd'.partner⟩
  alike d e hde := by
    have hd := hx.steady d e.ctxt hde.ctxt
    have hxy := hx.alike d e hde
    rcases hr : x d with ⟨v | a, d'⟩
    · rw [hr] at hxy
      rw [bind_of_error hr]
      refine hxy.imp_right ?_
      rcases hs : y e with ⟨r, e'⟩
      rintro ⟨hv, he⟩
      cases hv with
      | violation hv =>
        rw [bind_of_error hs]
        exact ⟨.violation hv, he⟩
    · rw [hr] at hxy hd
      rw [bind_of_ok hr]
      obtain ⟨b, hb⟩ := hd.partner a rfl
      have hd' := (hk a b hb).steady d' e.ctxt (hd.ctxt ▸ hde.ctxt)
      obtain ⟨hlax, hlt⟩ | ⟨hxy, he⟩ := hxy
      · exact .inl ⟨hlax, Nat.lt_of_lt_of_le hlt hd'.grows⟩
      · rcases hs : y e with ⟨r, e'⟩
        rw [hs] at hxy he
        cases hxy with
        | value hab =>
          rw [bind_of_ok hs]
          exact ((hk a _ hab).alike d' e' he).imp_left fun ⟨hl, hlt⟩ =>
            ⟨hl, Nat.lt_of_le_of_lt hd.grows hlt⟩

theorem ite {b : Prop} [Decidable b] (hx : Follows F R x y) (hy : Follows F R x' y') :
    Follows F R (if b then x else x') (if b then y else y') := by
  by_cases h : b
  · simpa [h] using hx
  · simpa [h] using hy

/-- Other contexts for a while. -/
theorem within {K : Int → Int → Prop} {k k' : Int} (hk : K k k') (hx : Follows (F.from K) R x y) :
    Follows F R (Rewrite.within k x) (Rewrite.within k' y) where
  steady d _ _ :=
    have hd := hx.steady { d with ctxt := k } k' hk
    ⟨rfl, hd.grows, hd.partner⟩
  alike d d' hd := by
    have hfrom : Draft.Beside (F.from K) { d with ctxt := k } { d' with ctxt := k' } :=
      ⟨hk, hd.notes, hd.consulted⟩
    exact (hx.alike _ _ hfrom).imp_right fun ⟨h, he⟩ => ⟨h, hd.ctxt, he.notes, he.consulted⟩

theorem tryCatch {h : Violation → Rewrite α} {h' : Violation → Rewrite β} (hx : Follows F R x y)
    (hh : ∀ v v', v.Beside F.span v' → Follows F R (h v) (h' v')) :
    Follows F R (tryCatch x h) (tryCatch y h') where
  steady d c hc := by
    have hd := hx.steady d c hc
    rcases hr : x d with ⟨v | a, d'⟩
    · rw [hr] at hd
      rw [tryCatch_of_error hr]
      obtain ⟨v', hv⟩ := v.exists_beside F
      have hd' := (hh v v' hv).steady d' c (hd.ctxt ▸ hc)
      exact ⟨hd'.ctxt.trans hd.ctxt, Nat.le_trans hd.grows hd'.grows, hd'.partner⟩
    · rw [hr] at hd
      rwa [tryCatch_of_ok hr]
  alike d e hde := by
    have hd := hx.steady d e.ctxt hde.ctxt
    have hxy := hx.alike d e hde
    rcases hr : x d with ⟨v | a, d'⟩
    · rw [hr] at hxy hd
      rw [tryCatch_of_error hr]
      obtain ⟨v', hv⟩ := v.exists_beside F
      have hd' := (hh v v' hv).steady d' e.ctxt (hd.ctxt ▸ hde.ctxt)
      obtain ⟨hlax, hlt⟩ | ⟨hxy, he⟩ := hxy
      · exact .inl ⟨hlax, Nat.lt_of_lt_of_le hlt hd'.grows⟩
      · rcases hs : y e with ⟨r, e'⟩
        rw [hs] at hxy he
        cases hxy with
        | violation hv =>
          rw [tryCatch_of_error hs]
          exact ((hh v _ hv).alike d' e' he).imp_left fun ⟨hl, hlt⟩ =>
            ⟨hl, Nat.lt_of_le_of_lt hd.grows hlt⟩
    · rw [hr] at hxy
      rw [tryCatch_of_ok hr]
      refine hxy.imp_right ?_
      rcases hs : y e with ⟨r, e'⟩
      rintro ⟨hab, he⟩
      cases hab with
      | value hab =>
        rw [tryCatch_of_ok hs]
        exact ⟨.value hab, he⟩

/-- Behind a note the texts are free to differ where they may be lax. -/
theorem noted (hlax : F.lax) {message : String} (s : Option Span)
    (hx : ∀ d k, F.ctxt d.ctxt k → Steady R d (x d)) :
    Follows F R (Rewrite.note message s >>= fun _ => x) y where
  steady d k hk := by
    have hd := hx (Rewrite.note message s d).2 k hk
    have hlength := length_note message s d
    refine ⟨hd.ctxt, ?_, hd.partner⟩
    exact Nat.le_trans (by omega) hd.grows
  alike d d' hde := by
    have hd := hx (Rewrite.note message s d).2 d'.ctxt hde.ctxt
    have hlength := length_note message s d
    exact .inl ⟨hlax, Nat.lt_of_lt_of_le (by omega) hd.grows⟩

theorem mapM {as : List α} {bs : List β} (h : List.Forall₂ R as bs)
    (hk : ∀ a b, R a b → Follows F S (k a) (l b)) :
    Follows F (List.Forall₂ S) (as.mapM k) (bs.mapM l) := by
  induction h with
  | nil => exact pure .nil
  | cons hab _ ih =>
    rw [List.mapM_cons, List.mapM_cons]
    exact (hk _ _ hab).bind fun _ _ hc => ih.bind fun _ _ hcs => pure (.cons hc hcs)

theorem foldlM {as : List α} {bs : List β} {step : γ → α → Rewrite γ} {step' : δ → β → Rewrite δ}
    (h : List.Forall₂ R as bs)
    (hk : ∀ s t a b, S s t → R a b → Follows F S (step s a) (step' t b)) {s : γ} {t : δ}
    (hst : S s t) : Follows F S (as.foldlM step s) (bs.foldlM step' t) := by
  induction h generalizing s t with
  | nil => exact pure hst
  | cons hab _ ih =>
    rw [List.foldlM_cons, List.foldlM_cons]
    exact (hk _ _ _ _ hst hab).bind fun _ _ h => ih h

end Follows

end Rewrite

end BuilderMigration
