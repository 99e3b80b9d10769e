import BuilderMigration.Proofs.Rewrite.Parallel

/-! Replacement text over other sources. Closures whose spans are moved, and whose copied texts are
the same at the new places, are rewritten to the same text; what is not copied has no say in it. -/

namespace BuilderMigration

open Rewrite

/-- The same settings over other sources. -/
abbrev Workshop.over (w : Workshop) (sources : SourceMap) : Workshop := { w with sources }

/-- The text behind a span and the text behind its image are one, whatever they are seen from. -/
def Workshop.SameText (w : Workshop) (sources : SourceMap) (f : Span → Span) (s : Span) : Prop :=
  ∀ ctxt, (w.over sources).resolve? (f s) ctxt = w.resolve? s ctxt

theorem eq_of_forall₂ {as bs : List String} (h : List.Forall₂ Eq as bs) : as = bs := by
  rwa [List.forall₂_eq_eq_eq] at h

/-- Over other sources the same texts are put together to the same text. -/
def Workshop.same (w : Workshop) (sources : SourceMap) : Parallel w (w.over sources) where
  Name _ := True
  Arg := Eq
  Setters := Eq
  Value := Eq
  required := rfl
  name _ _ := trivial
  value h := h
  list h := by rw [eq_of_forall₂ h]
  setter _ h := by rw [h]
  setters h := by rw [eq_of_forall₂ h]
  chain _ h := by rw [eq_of_forall₂ h]
  construct _ h := by rw [eq_of_forall₂ h]
  set h hs := by rw [h, hs]
  block _ h hl hs := by rw [h, eq_of_forall₂ hl, hs]
  vector h := by rw [eq_of_forall₂ h]; rfl
  wrap _ h := by rw [h]
  menuKind h := by rw [h]
  variant _ := rfl
  response _ h hs := by rw [h, hs]

/-- The same text is shown of text that is the same. -/
theorem Workshop.shown_of_eq {w : Workshop} {sources : SourceMap} {a b : Option String} (h : a = b) :
    (w.same sources).Shown a b := by
  subst h
  cases a with
  | some text => exact .text rfl
  | none => exact .missing rfl rfl

/-! ### Moved spans -/

variable {f : Span → Span} {lax : Prop}

def Note.mapSpan (f : Span → Span) (n : Note) : Note := { n with span := n.span.map f }

def Violation.mapSpan (f : Span → Span) (v : Violation) : Violation :=
  { v with span := v.span.map f }

def Draft.mapSpans (f : Span → Span) (d : Draft) : Draft :=
  { d with notes := d.notes.map (·.mapSpan f) }

theorem Note.mapSpan_id (n : Note) : n.mapSpan id = n := by
  rw [mapSpan, Option.map_id, id]

theorem Violation.mapSpan_id (v : Violation) : v.mapSpan id = v := by
  rw [mapSpan, Option.map_id, id]

theorem Draft.mapSpans_id (d : Draft) : d.mapSpans id = d := by
  rw [mapSpans, List.map_congr_left fun n _ => n.mapSpan_id, List.map_id']

/-- The same spans elsewhere, seen from the same contexts. -/
def Frame.moved (f : Span → Span) (lax : Prop) : Frame where
  span s t := f s = t
  ctxt := Eq
  lax := lax
  exists_span s := ⟨f s, rfl⟩

theorem rel_map_iff {s t : Option Span} : Option.Rel (fun s t => f s = t) s t ↔ s.map f = t := by
  constructor
  · rintro (⟨h⟩ | _)
    · exact congrArg some h
    · rfl
  · rintro rfl
    cases s with
    | none => exact .none
    | some s => exact .some rfl

theorem Note.beside_moved_iff {n n' : Note} :
    n.Beside (Frame.moved f lax).span n' ↔ n.mapSpan f = n' := by
  obtain ⟨message, span⟩ := n
  obtain ⟨message', span'⟩ := n'
  constructor
  · rintro ⟨h, hs⟩
    exact congr (congrArg Note.mk h) (rel_map_iff.1 hs)
  · rintro ⟨⟩
    exact ⟨rfl, rel_map_iff.2 rfl⟩

theorem Violation.beside_moved_iff {v v' : Violation} :
    v.Beside (Frame.moved f lax).span v' ↔ v.mapSpan f = v' := by
  obtain ⟨reason, span⟩ := v
  obtain ⟨reason', span'⟩ := v'
  constructor
  · rintro ⟨h, hs⟩
    exact congr (congrArg Violation.mk h) (rel_map_iff.1 hs)
  · rintro ⟨⟩
    exact ⟨rfl, rel_map_iff.2 rfl⟩

theorem Draft.beside_moved_iff {d d' : Draft} : d.Beside (.moved f lax) d' ↔ d.mapSpans f = d' := by
  obtain ⟨ctxt, notes, consulted⟩ := d
  obtain ⟨ctxt', notes', consulted'⟩ := d'
  have hnotes : List.Forall₂ (Note.Beside (Frame.moved f lax).span) notes notes' ↔
      notes.map (·.mapSpan f) = notes' := by
    have hbeside : Note.Beside (Frame.moved f lax).span = fun n n' => n.mapSpan f = n' := by
      funext n n'
      exact propext Note.beside_moved_iff
    rw [hbeside, ← List.forall₂_map_left_iff, List.forall₂_eq_eq_eq]
  constructor
  · rintro ⟨rfl, h, rfl⟩
    exact congrArg (Draft.mk _ · _) (hnotes.1 h)
  · rintro ⟨⟩
    exact ⟨rfl, hnotes.2 rfl, rfl⟩

/-- What follows a rewrite elsewhere is the rewrite with its spans moved, unless texts are lax and the
rewrite takes a note. -/
theorem Rewrite.Follows.moved {α : Type} {x y : Rewrite α} (h : Follows (.moved f lax) Eq x y)
    (d : Draft) : lax ∧ d.notes.length < (x d).2.notes.length ∨
      y (d.mapSpans f) = ((x d).1.mapError (·.mapSpan f), (x d).2.mapSpans f) := by
  refine (h.alike d _ (Draft.beside_moved_iff.2 rfl)).imp_right ?_
  rcases x d with ⟨r, e⟩
  rcases y (d.mapSpans f) with ⟨r', e'⟩
  rintro ⟨halike, he⟩
  obtain rfl := Draft.beside_moved_iff.1 he
  cases halike with
  | value h => rw [h]; rfl
  | violation h => rw [← Violation.beside_moved_iff.1 h]; rfl

end BuilderMigration
