import BuilderMigration.Grammar.Parse

/-! Token lists in the order of their positions, and cursors on them. A cursor on a list is fixed by
the number of tokens left, so that positions behind it follow from counting tokens. -/

namespace BuilderMigration

/-- Tokens with text, one behind the other, from a position on. -/
def Ordered (lo : Int) : List Token → Prop
  | [] => True
  | t :: ts => lo ≤ t.lo ∧ t.lo < t.hi ∧ Ordered t.hi ts

/-- The end of the last of some tokens, `lo` if there is none. -/
def endFrom (lo : Int) : List Token → Int
  | [] => lo
  | t :: ts => endFrom t.hi ts

theorem endFrom_append (lo : Int) (ts us : List Token) :
    endFrom lo (ts ++ us) = endFrom (endFrom lo ts) us := by
  induction ts generalizing lo with
  | nil => rfl
  | cons t ts ih => exact ih t.hi

theorem ordered_append {lo : Int} {ts us : List Token} :
    Ordered lo (ts ++ us) ↔ Ordered lo ts ∧ Ordered (endFrom lo ts) us := by
  induction ts generalizing lo with
  | nil => simp [Ordered, endFrom]
  | cons t ts ih => simp only [List.cons_append, Ordered, endFrom, ih, and_assoc]

theorem Ordered.le_endFrom {lo : Int} {ts : List Token} (h : Ordered lo ts) :
    lo ≤ endFrom lo ts := by
  induction ts generalizing lo with
  | nil => exact Int.le_refl lo
  | cons t ts ih =>
    obtain ⟨h₁, h₂, h₃⟩ := h
    have := ih h₃
    simp only [endFrom]
    omega

theorem Ordered.mono {lo lo' : Int} {ts : List Token} (h : Ordered lo ts) (hl : lo' ≤ lo) :
    Ordered lo' ts := by
  cases ts with
  | nil => trivial
  | cons t ts => exact ⟨Int.le_trans hl h.1, h.2⟩

/-- The end of some tokens is the end of one of them. -/
theorem exists_hi_eq_endFrom (lo : Int) {ts : List Token} (h : ts ≠ []) :
    ∃ t ∈ ts, t.hi = endFrom lo ts := by
  induction ts generalizing lo with
  | nil => exact absurd rfl h
  | cons t ts ih =>
    by_cases ht : ts = []
    · subst ht
      exact ⟨t, by simp, rfl⟩
    · obtain ⟨u, hu, he⟩ := ih t.hi ht
      exact ⟨u, List.mem_cons_of_mem _ hu, he⟩

theorem getLast?_hi (lo : Int) (t : Token) (ts : List Token) :
    (t :: ts).getLast?.map (·.hi) = some (endFrom lo (t :: ts)) := by
  induction ts generalizing lo t with
  | nil => rfl
  | cons u ts ih => exact ih t.hi u

theorem Ordered.bounds {lo : Int} {ts : List Token} (h : Ordered lo ts) :
    ∀ t ∈ ts, lo ≤ t.lo ∧ t.lo < t.hi ∧ t.hi ≤ endFrom lo ts := by
  induction ts generalizing lo with
  | nil => exact nofun
  | cons t ts ih =>
    obtain ⟨h₁, h₂, h₃⟩ := h
    refine List.forall_mem_cons.2 ⟨⟨h₁, h₂, h₃.le_endFrom⟩, fun u hu => ?_⟩
    have := ih h₃ u hu
    simp only [endFrom]
    omega

namespace Cursor

/-- A cursor within an ordered list of tokens: what it has read is the beginning of the list. -/
structure On (ts : List Token) (c : Cursor) : Prop where
  ordered : Ordered 0 ts
  reached : ∃ read, ts = read ++ c.rest ∧ c.last = endFrom 0 read

variable {ts us : List Token} {t : Token} {c c' : Cursor}

theorem On.start (h : Ordered 0 ts) : On ts ⟨ts, 0⟩ := ⟨h, [], rfl, rfl⟩

theorem On.suffix (h : c.On ts) : c.rest <:+ ts := by
  obtain ⟨read, hr, -⟩ := h.reached
  exact ⟨read, hr.symm⟩

theorem On.length_le (h : c.On ts) : c.rest.length ≤ ts.length := h.suffix.length_le

/-- The cursor behind one more token. -/
theorem On.next (h : c.On ts) (hr : c.rest = t :: us) : On ts ⟨us, t.hi⟩ := by
  obtain ⟨read, hts, -⟩ := h.reached
  exact ⟨h.ordered, read ++ [t], by simp [hts, hr], by simp [endFrom_append, endFrom]⟩

theorem On.head (h : c.On ts) (hr : c.rest = t :: us) : c.last ≤ t.lo ∧ t.lo < t.hi ∧ t ∈ ts := by
  obtain ⟨read, hts, hl⟩ := h.reached
  have ho := h.ordered
  rw [hts, ordered_append, ← hl, hr] at ho
  exact ⟨ho.2.1, ho.2.2.1, h.suffix.mem (by simp [hr])⟩

/-- A cursor with no more tokens left stands no further in front. -/
theorem On.last_le (h : c.On ts) (h' : c'.On ts) (hl : c'.rest.length ≤ c.rest.length) :
    c.last ≤ c'.last := by
  obtain ⟨read, hts, he⟩ := h.reached
  obtain ⟨read', hts', he'⟩ := h'.reached
  have hlen : read.length ≤ read'.length := by
    have h₁ := congrArg List.length hts
    have h₂ := congrArg List.length hts'
    simp only [List.length_append] at h₁ h₂
    omega
  obtain ⟨more, hmore⟩ :=
    List.prefix_of_prefix_length_le ⟨c.rest, hts.symm⟩ ⟨c'.rest, hts'.symm⟩ hlen
  have ho := h.ordered
  rw [hts', ← hmore, ordered_append, ordered_append, ← he] at ho
  rw [he', ← hmore, endFrom_append, ← he]
  exact ho.1.2.le_endFrom

/-- A cursor with fewer tokens left has read the first token of one with more. -/
theorem On.hi_le (h : c.On ts) (hr : c.rest = t :: us) (h' : c'.On ts)
    (hl : c'.rest.length < c.rest.length) : t.hi ≤ c'.last := by
  refine (h.next hr).last_le h' ?_
  rw [hr, List.length_cons] at hl
  exact Nat.le_of_lt_succ hl

/-- Behind the first token a cursor stands at the end of a token. -/
theorem On.exists_hi (h : c.On ts) (hl : c.rest.length < ts.length) : ∃ t ∈ ts, t.hi = c.last := by
  obtain ⟨read, hts, he⟩ := h.reached
  have hne : read ≠ [] := by
    rintro rfl
    simp [hts] at hl
  obtain ⟨t, ht, hh⟩ := exists_hi_eq_endFrom 0 hne
  exact ⟨t, by simp [hts, ht], hh.trans he.symm⟩

/-- From one cursor on a list to another that has read at least as much. -/
structure Moves (ts : List Token) (c c' : Cursor) : Prop where
  on : c'.On ts
  fewer : c'.rest.length ≤ c.rest.length
  later : c.last ≤ c'.last

/-- From one cursor on a list to another that has read more. -/
structure Passes (ts : List Token) (c c' : Cursor) : Prop where
  on : c'.On ts
  fewer : c'.rest.length < c.rest.length
  later : c.last < c'.last

theorem Moves.of (h : c.On ts) (h' : c'.On ts) (hl : c'.rest.length ≤ c.rest.length) :
    c.Moves ts c' := ⟨h', hl, h.last_le h' hl⟩

theorem Passes.of (h : c.On ts) (h' : c'.On ts) (hl : c'.rest.length < c.rest.length) :
    c.Passes ts c' := by
  refine ⟨h', hl, ?_⟩
  obtain ⟨t, us, hr⟩ := List.exists_cons_of_length_pos (Nat.zero_lt_of_lt hl)
  have := h.head hr
  have := h.hi_le hr h' hl
  omega

theorem Passes.moves (h : c.Passes ts c') : c.Moves ts c' :=
  ⟨h.on, Nat.le_of_lt h.fewer, Int.le_of_lt h.later⟩

theorem On.stays (h : c.On ts) : c.Moves ts c := ⟨h, Nat.le_refl _, Int.le_refl _⟩

variable {c'' : Cursor}

theorem Moves.trans (h : c.Moves ts c') (h' : c'.Moves ts c'') : c.Moves ts c'' :=
  ⟨h'.on, Nat.le_trans h'.fewer h.fewer, Int.le_trans h.later h'.later⟩

theorem Passes.trans (h : c.Passes ts c') (h' : c'.Moves ts c'') : c.Passes ts c'' :=
  ⟨h'.on, Nat.lt_of_le_of_lt h'.fewer h.fewer, Int.lt_of_lt_of_le h.later h'.later⟩

theorem Moves.trans_passes (h : c.Moves ts c') (h' : c'.Passes ts c'') : c.Passes ts c'' :=
  ⟨h'.on, Nat.lt_of_lt_of_le h'.fewer h.fewer, Int.lt_of_le_of_lt h.later h'.later⟩

theorem Moves.le {n : Nat} (h : c.Moves ts c') (hl : c.rest.length ≤ n) : c'.rest.length ≤ n :=
  Nat.le_trans h.fewer hl

theorem Moves.lt {n : Nat} (h : c.Moves ts c') (hl : c.rest.length < n) : c'.rest.length < n :=
  Nat.lt_of_le_of_lt h.fewer hl

theorem Passes.lt {n : Nat} (h : c.Passes ts c') (hl : c.rest.length ≤ n) : c'.rest.length < n :=
  Nat.lt_of_lt_of_le h.fewer hl

/-- Reading the next token. -/
theorem On.passes (h : c.On ts) (hr : c.rest = t :: us) : c.Passes ts ⟨us, t.hi⟩ :=
  .of h (h.next hr) (by simp [hr])

/-- Whoever reads on comes to the end of the next token first. -/
theorem Passes.behind (h : c.On ts) (hr : c.rest = t :: us) (h' : c.Passes ts c') :
    Moves ts ⟨us, t.hi⟩ c' := by
  refine .of (h.next hr) h'.on ?_
  have := h'.fewer
  rw [hr, List.length_cons] at this
  exact Nat.le_of_lt_succ this

/-- Where the next token begins, at the end of the text where the last one ended. -/
def ahead (c : Cursor) : Int := (c.rest.head?.map (·.lo)).getD c.last

theorem ahead_of_rest (hr : c.rest = t :: us) : c.ahead = t.lo := by simp [ahead, hr]

theorem On.last_le_ahead (h : c.On ts) : c.last ≤ c.ahead := by
  cases hr : c.rest with
  | nil => simp [ahead, hr]
  | cons t us => exact ahead_of_rest hr ▸ (h.head hr).1

/-- A cursor behind the next token stands behind where it begins. -/
theorem Passes.ahead_lt (h : c.On ts) (h' : c.Passes ts c') : c.ahead < c'.last := by
  obtain ⟨t, us, hr⟩ := List.exists_cons_of_length_pos (Nat.zero_lt_of_lt h'.fewer)
  have := h.head hr
  have := h.hi_le hr h'.on h'.fewer
  rw [ahead_of_rest hr]
  omega

theorem Moves.ahead_le (h : c.On ts) (h' : c.Moves ts c') : c.ahead ≤ c'.ahead := by
  rcases Nat.lt_or_eq_of_le h'.fewer with hl | he
  · have := Passes.ahead_lt h (.of h h'.on hl)
    have := h'.on.last_le_ahead
    omega
  · have hr : c'.rest = c.rest :=
      (List.suffix_of_suffix_length_le h'.on.suffix h.suffix h'.fewer).eq_of_length he
    have hl : c'.last = c.last :=
      Int.le_antisymm (h'.on.last_le h (Nat.le_of_eq he.symm)) h'.later
    simp [ahead, hr, hl]

/-- Where a cursor has a token ahead, that token begins there. -/
theorem Passes.exists_lo (h : c.On ts) (h' : c.Passes ts c') : ∃ t ∈ ts, t.lo = c.ahead := by
  obtain ⟨t, us, hr⟩ := List.exists_cons_of_length_pos (Nat.zero_lt_of_lt h'.fewer)
  exact ⟨t, (h.head hr).2.2, (ahead_of_rest hr).symm⟩

/-- Behind a token a cursor stands at the end of a token. -/
theorem Passes.exists_hi (h : c.On ts) (h' : c.Passes ts c') : ∃ t ∈ ts, t.hi = c'.last :=
  h'.on.exists_hi (Nat.lt_of_lt_of_le h'.fewer h.length_le)

end Cursor

end BuilderMigration
