import BuilderMigration.Proofs.Tree.Laminar

/-! Trees that are read between two cursors. A node made of what was read lies over it, however the
production puts its span together. -/

namespace BuilderMigration

/-- A tree read from one cursor to another, not in front of the token that the first one has
ahead. -/
structure Grown (ts : List Token) (c : Cursor) (t : Rose Node) (c' : Cursor) : Prop where
  passes : c.Passes ts c'
  laid : Laid ts c.ahead [t] c'.last

/-- Trees read one behind the other from one cursor to another. -/
structure AllGrown (ts : List Token) (c : Cursor) (trees : List (Rose Node)) (c' : Cursor) :
    Prop where
  moves : c.Moves ts c'
  laid : Laid ts c.last trees c'.last

variable {ts : List Token} {s c c₁ c₂ c' : Cursor} {n : Node} {t u : Rose Node}
  {kids trees more : List (Rose Node)} {v : Token} {us : List Token}

namespace Grown

theorem before (hs : s.On ts) (h : s.Moves ts c) (hg : Grown ts c t c') : Grown ts s t c' :=
  ⟨h.trans_passes hg.passes, hg.laid.mono (h.ahead_le hs) (Int.le_refl _)⟩

theorem behind (hg : Grown ts c t c₁) (h : c₁.Moves ts c') : Grown ts c t c' :=
  ⟨hg.passes.trans h, hg.laid.mono (Int.le_refl _) h.later⟩

theorem proper (hg : Grown ts c t c') : t.span.Proper ts :=
  (Laid.singleton_iff.1 hg.laid).2.1.proper

/-- A tree begins behind every cursor that another one has gone past. -/
theorem le_lo (hg : Grown ts c t c') : c.ahead ≤ t.span.lo :=
  (Laid.singleton_iff.1 hg.laid).1

theorem hi_le (hg : Grown ts c t c') : t.span.hi ≤ c'.last :=
  (Laid.singleton_iff.1 hg.laid).2.2

end Grown

namespace AllGrown

theorem nil (h : c.Moves ts c') : AllGrown ts c [] c' := ⟨h, Laid.nil_iff.2 h.later⟩

theorem before (h : s.Moves ts c) (hg : AllGrown ts c trees c') : AllGrown ts s trees c' :=
  ⟨h.trans hg.moves, hg.laid.mono h.later (Int.le_refl _)⟩

theorem behind (hg : AllGrown ts c trees c₁) (h : c₁.Moves ts c') : AllGrown ts c trees c' :=
  ⟨hg.moves.trans h, hg.laid.mono (Int.le_refl _) h.later⟩

theorem append (hg : AllGrown ts c trees c₁) (hg' : AllGrown ts c₁ more c') :
    AllGrown ts c (trees ++ more) c' :=
  ⟨hg.moves.trans hg'.moves, hg.laid.append hg'.laid⟩

end AllGrown

namespace Grown

theorem all (hc : c.On ts) (hg : Grown ts c t c') : AllGrown ts c [t] c' :=
  ⟨hg.passes.moves, hg.laid.mono hc.last_le_ahead (Int.le_refl _)⟩

theorem cons (hc : c.On ts) (hg : Grown ts c t c₁) (hk : AllGrown ts c₁ kids c') :
    AllGrown ts c (t :: kids) c' := (hg.all hc).append hk

/-- A node over everything from one cursor to another, whose children are read behind its first
token. -/
theorem node (hs : s.On ts) (h : s.Passes ts c) (hk : AllGrown ts c kids c')
    (hn : n.span = ⟨s.ahead, c'.last, 0⟩) : Grown ts s (.node n kids) c' := by
  have hp := h.trans hk.moves
  exact ⟨hp, .read hs hp hn (hk.laid.mono (Int.le_of_lt (h.ahead_lt hs)) (Int.le_refl _))⟩

/-- A node over everything from one cursor to another, with what was read first below it. -/
theorem whole (hs : s.On ts) (hg : Grown ts s t c) (h : c.Moves ts c')
    (hn : n.span = ⟨s.ahead, c'.last, 0⟩) : Grown ts s (.node n [t]) c' :=
  ⟨hg.passes.trans h, .read hs (hg.passes.trans h) hn (hg.laid.mono (Int.le_refl _) h.later)⟩

/-- A node that stands where its only child does. -/
theorem wrap (hg : Grown ts s t c) (hn : n.span = t.span) : Grown ts s (.node n [t]) c := by
  obtain ⟨h₁, h₂, h₃⟩ := Laid.singleton_iff.1 hg.laid
  have hk := Laid.singleton_iff.2 ⟨Int.le_refl t.span.lo, h₂, Int.le_refl t.span.hi⟩
  rw [← hn] at h₁ h₃ hk
  exact ⟨hg.passes, .node (hn ▸ hg.proper) hk h₁ h₃⟩

/-- A node of a single token. -/
theorem token (hc : c.On ts) (hr : c.rest = v :: us) (h : c.Passes ts c')
    (hn : n.span = ⟨v.lo, v.hi, 0⟩) : Grown ts c (.node n []) c' := by
  have hv := hc.passes hr
  refine (Grown.node hc hv (.nil hv.on.stays) ?_).behind (h.behind hc hr)
  rw [hn, Cursor.ahead_of_rest hr]

/-- A node that ends where its only child does. -/
theorem prefixed (hs : s.On ts) (h : s.Passes ts c) (hg : Grown ts c t c')
    (hn : n.span = ⟨s.ahead, t.span.hi, 0⟩) : Grown ts s (.node n [t]) c' := by
  obtain ⟨h₁, h₂, h₃⟩ := Laid.singleton_iff.1 hg.laid
  have hlt := h.ahead_lt hs
  have hlo : s.ahead ≤ t.span.lo := Int.le_trans (h.moves.ahead_le hs) h₁
  have hp := h.trans hg.passes.moves
  have := h₂.proper.lt
  refine ⟨hp, .node ?_ ?_ (Int.le_of_eq (by rw [hn])) (by rw [hn]; exact h₃)⟩
  · rw [hn]
    exact ⟨rfl, by dsimp only; omega, hp.exists_lo hs, h₂.proper.exists_hi⟩
  · rw [hn]
    exact Laid.singleton_iff.2 ⟨hlo, h₂, Int.le_refl _⟩

/-- A node that begins with a tree and has all that is read behind it. -/
theorem extend (hs : s.On ts) (hg : Grown ts s t c) (hk : AllGrown ts c kids c')
    (hn : n.span = ⟨t.span.lo, c'.last, 0⟩) : Grown ts s (.node n (t :: kids)) c' := by
  have hp := hg.passes.trans hk.moves
  refine ⟨hp, hg.laid.extend ?_ (by rw [hn]) (by rw [hn]) ?_ (Int.le_of_eq (by rw [hn]))⟩
  · rw [hn]
    exact hk.laid
  · rw [hn]
    exact hp.exists_hi hs

/-- A node that begins with a tree and ends with a token. -/
theorem extendToken (hs : s.On ts) (hg : Grown ts s t c) (h : c.Moves ts c₁)
    (hr : c₁.rest = v :: us) (h' : c₁.Passes ts c') (hn : n.span = ⟨t.span.lo, v.hi, 0⟩) :
    Grown ts s (.node n [t]) c' :=
  (hg.extend hs (.nil (h.trans (h.on.passes hr).moves)) hn).behind (h'.behind h.on hr)

/-- A node that goes from the start of one tree to the end of another. -/
theorem join (hg : Grown ts s t c) (h : c.Moves ts c₁) (hg' : Grown ts c₁ u c')
    (hn : n.span = t.span.through u.span) : Grown ts s (.node n [t, u]) c' := by
  obtain ⟨-, hu, hhi⟩ := Laid.singleton_iff.1 hg'.laid
  have hle := hg.hi_le
  have hlater := h.later
  have hlast := h.on.last_le_ahead
  have hlo := hg'.le_lo
  have hlt := hu.proper.lt
  have he : n.span = ⟨t.span.lo, u.span.hi, 0⟩ := by
    rw [hn, Span.through, hg.proper.written, Int.max_eq_right (by omega)]
  refine ⟨hg.passes.trans (h.trans hg'.passes.moves), hg.laid.extend ?_ ?_ ?_ ?_ ?_⟩
  · rw [he]
    exact Laid.singleton_iff.2 ⟨by omega, hu, Int.le_refl _⟩
  all_goals rw [he]
  · exact hu.proper.exists_hi
  · exact hhi

end Grown

namespace Cursor

/-- Where a production that reads a token begins, as productions look it up. -/
theorem Passes.begin (h : c.Passes ts c') : ((c.rest[0]?).map (·.lo)).getD 0 = c.ahead := by
  obtain ⟨t, us, hr⟩ := List.exists_cons_of_length_pos (Nat.zero_lt_of_lt h.fewer)
  simp [ahead, hr]

end Cursor

end BuilderMigration
