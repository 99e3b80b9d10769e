/-! Tables kept as lists of pairs in the order in which their keys were first given. -/

namespace BuilderMigration.Assoc

variable {κ α : Type} [DecidableEq κ]

/-- Gives a key a value: a key that is there keeps its place, a new one comes last. -/
def put (key : κ) (value : α) : List (κ × α) → List (κ × α)
  | [] => [(key, value)]
  | (k, v) :: rest => if k = key then (k, value) :: rest else (k, v) :: put key value rest

/-- The value of a key. -/
def get? (key : κ) : List (κ × α) → Option α
  | [] => none
  | (k, v) :: rest => if k = key then some v else get? key rest

variable {key : κ} {value : α} {l : List (κ × α)}

theorem mem_of_get? (h : get? key l = some value) : (key, value) ∈ l := by
  induction l with
  | nil => cases h
  | cons e l ih =>
    obtain ⟨k, v⟩ := e
    rw [get?] at h
    split at h
    · next hk =>
      obtain rfl := Option.some.inj h
      exact hk ▸ List.mem_cons_self
    · exact List.mem_cons_of_mem _ (ih h)

theorem get?_eq_none (h : key ∉ l.map (·.1)) : get? key l = none := by
  induction l with
  | nil => rfl
  | cons e l ih =>
    rw [List.map_cons, List.mem_cons, not_or] at h
    rw [get?, if_neg (Ne.symm h.1), ih h.2]

theorem get?_put (k : κ) (value : α) (l : List (κ × α)) (key : κ) :
    get? key (put k value l) = if k = key then some value else get? key l := by
  induction l with
  | nil => rfl
  | cons e l ih =>
    obtain ⟨k', v⟩ := e
    rw [put]
    split
    · next hk =>
      subst hk
      rw [get?, get?]
      split <;> rfl
    · next hk =>
      rw [get?, get?, ih]
      split
      · next hk' => rw [if_neg (hk' ▸ Ne.symm hk)]
      · rfl

theorem mem_put {e : κ × α} (h : e ∈ put key value l) : e = (key, value) ∨ e ∈ l := by
  induction l with
  | nil => exact .inl (List.mem_singleton.1 h)
  | cons e' l ih =>
    obtain ⟨k, v⟩ := e'
    rw [put] at h
    split at h
    · next hk => exact (List.mem_cons.1 h).imp (fun he => hk ▸ he) (List.mem_cons_of_mem _)
    · obtain rfl | h := List.mem_cons.1 h
      · exact .inr List.mem_cons_self
      · exact (ih h).imp_right (List.mem_cons_of_mem _)

/-- A table with one more entry holds the values that it had, and the new one. -/
theorem forall_put {P : α → Prop} (h : ∀ e ∈ l, P e.2) (hv : P value) :
    ∀ e ∈ put key value l, P e.2 := by
  intro e he
  rcases mem_put he with rfl | he
  · exact hv
  · exact h e he

theorem put_of_notMem (h : key ∉ l.map (·.1)) : put key value l = l ++ [(key, value)] := by
  induction l with
  | nil => rfl
  | cons e l ih =>
    rw [List.map_cons, List.mem_cons, not_or] at h
    rw [put, if_neg (Ne.symm h.1), ih h.2, List.cons_append]

theorem keys_put_of_mem (h : key ∈ l.map (·.1)) : (put key value l).map (·.1) = l.map (·.1) := by
  induction l with
  | nil => cases h
  | cons e l ih =>
    rw [put]
    split
    · rfl
    · next hk =>
      rw [List.map_cons, List.map_cons, ih ((List.mem_cons.1 h).resolve_left (Ne.symm hk))]

theorem nodup_put (h : (l.map (·.1)).Nodup) : ((put key value l).map (·.1)).Nodup := by
  by_cases hmem : key ∈ l.map (·.1)
  · rwa [keys_put_of_mem hmem]
  · rw [put_of_notMem hmem, List.map_append, List.nodup_append]
    refine ⟨h, List.pairwise_singleton .., fun k hk k' hk' heq => hmem ?_⟩
    obtain rfl := List.mem_singleton.1 hk'
    exact heq ▸ hk

theorem get?_append (key : κ) (l more : List (κ × α)) :
    get? key (l ++ more) = (get? key l).or (get? key more) := by
  induction l with
  | nil => rfl
  | cons e l ih =>
    rw [List.cons_append, get?, get?, ih]
    split <;> rfl

theorem get?_reverse (h : (l.map (·.1)).Nodup) (key : κ) : get? key l.reverse = get? key l := by
  induction l with
  | nil => rfl
  | cons e l ih =>
    rw [List.map_cons, List.nodup_cons] at h
    rw [List.reverse_cons, get?_append, ih h.2, get?, get?, get?]
    split
    · next hk => rw [get?_eq_none (hk ▸ h.1), Option.none_or]
    · exact Option.or_none

/-! ### Tables made of entries -/

/-- The table that entries make which are put into it one after another. -/
def ofEntries (entries : List (κ × α)) : List (κ × α) :=
  entries.foldl (fun l e => put e.1 e.2 l) []

theorem nodup_foldl_put (entries : List (κ × α)) (h : (l.map (·.1)).Nodup) :
    ((entries.foldl (fun l e => put e.1 e.2 l) l).map (·.1)).Nodup := by
  induction entries generalizing l with
  | nil => exact h
  | cons e entries ih => exact ih (nodup_put h)

theorem mem_foldl_put {entries : List (κ × α)} {e : κ × α}
    (h : e ∈ entries.foldl (fun l e => put e.1 e.2 l) l) : e ∈ entries ∨ e ∈ l := by
  induction entries generalizing l with
  | nil => exact .inr h
  | cons e' entries ih =>
    rcases ih h with h | h
    · exact .inl (List.mem_cons_of_mem _ h)
    · exact (mem_put h).imp_left fun he => List.mem_cons.2 (.inl he)

/-- Entries with new keys of their own are appended. -/
theorem foldl_put_eq_append {more : List (κ × α)} (h : ((l ++ more).map (·.1)).Nodup) :
    more.foldl (fun l e => put e.1 e.2 l) l = l ++ more := by
  induction more generalizing l with
  | nil => exact (List.append_nil l).symm
  | cons e more ih =>
    rw [List.append_cons] at h
    have hnew : e.1 ∉ l.map (·.1) := by
      rw [List.map_append, List.map_append, List.nodup_append, List.nodup_append] at h
      exact fun hmem => h.1.2.2 _ hmem _ (by simp) rfl
    rw [List.foldl_cons, put_of_notMem hnew, ih h, ← List.append_cons]

/-- The last entry with a key counts. -/
theorem get?_foldl_put_last (entries l : List (κ × α)) (key : κ) :
    get? key (entries.foldl (fun l e => put e.1 e.2 l) l) =
      (get? key entries.reverse).or (get? key l) := by
  induction entries generalizing l with
  | nil => rfl
  | cons e entries ih =>
    rw [List.foldl_cons, ih, List.reverse_cons, get?_append, get?_put, get?, get?, Option.or_assoc]
    split <;> rfl

/-- Of entries with keys of their own that are put into a table, each counts in place of what was
there. -/
theorem get?_foldl_put {more : List (κ × α)} (h : (more.map (·.1)).Nodup) (l : List (κ × α))
    (key : κ) :
    get? key (more.foldl (fun l e => put e.1 e.2 l) l) = (get? key more).or (get? key l) := by
  rw [get?_foldl_put_last, get?_reverse h]

theorem nodup_ofEntries (entries : List (κ × α)) : ((ofEntries entries).map (·.1)).Nodup :=
  nodup_foldl_put entries List.nodup_nil

theorem mem_of_mem_ofEntries {entries : List (κ × α)} {e : κ × α} (h : e ∈ ofEntries entries) :
    e ∈ entries :=
  (mem_foldl_put h).resolve_right List.not_mem_nil

/-- A table is what its entries make. -/
theorem ofEntries_eq_self (h : (l.map (·.1)).Nodup) : ofEntries l = l := foldl_put_eq_append h

theorem get?_ofEntries (entries : List (κ × α)) (key : κ) :
    get? key (ofEntries entries) = get? key entries.reverse :=
  (get?_foldl_put_last entries [] key).trans Option.or_none

/-! ### Other keys -/

variable {μ : Type} [DecidableEq μ] {f : κ → μ}

theorem map_put (hf : ∀ k k', f k = f k' → k = k') (key : κ) (value : α) (l : List (κ × α)) :
    (put key value l).map (fun e => (f e.1, e.2)) =
      put (f key) value (l.map fun e => (f e.1, e.2)) := by
  induction l with
  | nil => rfl
  | cons e l ih =>
    rw [put, List.map_cons, put]
    split
    · next hk => rw [if_pos (congrArg f hk), List.map_cons]
    · next hk => rw [if_neg (fun heq => hk (hf _ _ heq)), List.map_cons, ih]

/-- Keys that are told apart as before make the same table. -/
theorem map_ofEntries (hf : ∀ k k', f k = f k' → k = k') (entries : List (κ × α)) :
    (ofEntries entries).map (fun e => (f e.1, e.2)) =
      ofEntries (entries.map fun e => (f e.1, e.2)) := by
  have hfold (l : List (κ × α)) :
      (entries.foldl (fun l e => put e.1 e.2 l) l).map (fun e => (f e.1, e.2)) =
        (entries.map fun e => (f e.1, e.2)).foldl (fun l e => put e.1 e.2 l)
          (l.map fun e => (f e.1, e.2)) := by
    induction entries generalizing l with
    | nil => rfl
    | cons e entries ih => rw [List.foldl_cons, List.map_cons, List.foldl_cons, ← map_put hf, ih]
  exact hfold []

end BuilderMigration.Assoc
