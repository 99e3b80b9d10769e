import BuilderMigration.Tree.Node
import Mathlib.Data.List.Forall2

/-! The outermost matches in a tree: every node that matches and has no match above it. -/

namespace BuilderMigration.Rose

variable {α β : Type}

mutual

/-- The values of a tree in preorder, each with those above it. -/
def lineages (above : List α) : Rose α → List (List α × α)
  | .node a ts => (above, a) :: lineagesAll (a :: above) ts

def lineagesAll (above : List α) : List (Rose α) → List (List α × α)
  | [] => []
  | t :: ts => t.lineages above ++ lineagesAll above ts

end

/-- What a value matches, unless one above it matches already. -/
def first? (f : α → Option β) (x : List α × α) : Option β :=
  if x.1.any fun a => (f a).isSome then none else f x.2

/-- The matches of a tree that lie below no other, in preorder. -/
def outermost (f : α → Option β) (t : Rose α) : List β := (t.lineages []).filterMap (first? f)

/-- The outermost matches of several trees. -/
def outermostAll (f : α → Option β) (ts : List (Rose α)) : List β := ts.flatMap (outermost f)

variable {f : α → Option β}

mutual

/-- Below a match there is no outermost one. -/
theorem lineages_below (above : List α) (h : above.any (fun a => (f a).isSome) = true) :
    ∀ t : Rose α, (t.lineages above).filterMap (first? f) = []
  | .node a ts => by
    have h' : (a :: above).any (fun a => (f a).isSome) = true := by simp [h]
    rw [lineages, List.filterMap_cons, lineagesAll_below _ h' ts]
    simp [first?, h]

theorem lineagesAll_below (above : List α) (h : above.any (fun a => (f a).isSome) = true) :
    ∀ ts : List (Rose α), (lineagesAll above ts).filterMap (first? f) = []
  | [] => rfl
  | t :: ts => by
    rw [lineagesAll, List.filterMap_append, lineages_below above h t, lineagesAll_below above h ts,
      List.append_nil]

end

mutual

/-- Values above that do not match change nothing. -/
theorem lineages_free (above : List α) (h : above.any (fun a => (f a).isSome) = false) :
    ∀ t : Rose α, (t.lineages above).filterMap (first? f) = outermost f t
  | .node a ts => by
    rw [outermost, lineages, lineages, List.filterMap_cons, List.filterMap_cons]
    have hself : first? f (above, a) = f a := by simp [first?, h]
    have hroot : first? f ([], a) = f a := by simp [first?]
    rw [hself, hroot]
    cases hf : f a with
    | some b => rw [lineagesAll_below _ (by simp [hf]) ts, lineagesAll_below _ (by simp [hf]) ts]
    | none => rw [lineagesAll_free _ (by simp [hf, h]) ts, lineagesAll_free _ (by simp [hf]) ts]

theorem lineagesAll_free (above : List α) (h : above.any (fun a => (f a).isSome) = false) :
    ∀ ts : List (Rose α), (lineagesAll above ts).filterMap (first? f) = outermostAll f ts
  | [] => rfl
  | t :: ts => by
    rw [lineagesAll, List.filterMap_append, lineages_free above h t, lineagesAll_free above h ts,
      outermostAll, outermostAll, List.flatMap_cons]

end

/-- A match is the only outermost one of its tree. -/
theorem outermost_of_some {a : α} {b : β} (h : f a = some b) (ts : List (Rose α)) :
    outermost f (.node a ts) = [b] := by
  rw [outermost, lineages, List.filterMap_cons, lineagesAll_below _ (by simp [h]) ts]
  simp [first?, h]

/-- Below a value that does not match the outermost ones are those of the trees below. -/
theorem outermost_of_none {a : α} (h : f a = none) (ts : List (Rose α)) :
    outermost f (.node a ts) = outermostAll f ts := by
  rw [outermost, lineages, List.filterMap_cons, lineagesAll_free _ (by simp [h]) ts]
  simp [first?, h]

theorem outermostAll_cons (f : α → Option β) (t : Rose α) (ts : List (Rose α)) :
    outermostAll f (t :: ts) = outermost f t ++ outermostAll f ts := by
  rw [outermostAll, List.flatMap_cons, outermostAll]

theorem exists_of_mem_outermost {b : β} {t : Rose α} (h : b ∈ outermost f t) : ∃ a, f a = some b := by
  obtain ⟨x, -, hx⟩ := List.mem_filterMap.1 h
  unfold first? at hx
  split at hx
  · cases hx
  · exact ⟨x.2, hx⟩

mutual

theorem mem_preorder_of_mem_lineages (above : List α) : ∀ (t : Rose α) {x : List α × α},
    x ∈ t.lineages above → x.2 ∈ t.preorder
  | .node a ts, x, h => by
    rw [lineages] at h
    rw [preorder]
    rcases List.mem_cons.1 h with rfl | h
    · exact List.mem_cons_self ..
    · exact List.mem_cons_of_mem _ (mem_preorders_of_mem_lineagesAll (a :: above) ts h)

theorem mem_preorders_of_mem_lineagesAll (above : List α) : ∀ (ts : List (Rose α)) {x : List α × α},
    x ∈ lineagesAll above ts → x.2 ∈ preorders ts
  | [], _, h => nomatch h
  | t :: ts, x, h => by
    rw [lineagesAll] at h
    rw [preorders]
    rcases List.mem_append.1 h with h | h
    · exact List.mem_append_left _ (mem_preorder_of_mem_lineages above t h)
    · exact List.mem_append_right _ (mem_preorders_of_mem_lineagesAll above ts h)

end

/-- An outermost match is the match of a value of the tree. -/
theorem exists_mem_of_mem_outermost {b : β} {t : Rose α} (h : b ∈ outermost f t) :
    ∃ a ∈ t.preorder, f a = some b := by
  obtain ⟨x, hmem, hx⟩ := List.mem_filterMap.1 h
  unfold first? at hx
  split at hx
  · cases hx
  · exact ⟨x.2, mem_preorder_of_mem_lineages [] t hmem, hx⟩

/-- What is made of matches changes nothing about which ones are outermost. -/
theorem outermost_map {γ : Type} (f : α → Option β) (g : β → γ) (t : Rose α) :
    outermost (fun a => (f a).map g) t = (outermost f t).map g := by
  have hfirst (x : List α × α) : first? (fun a => (f a).map g) x = (first? f x).map g := by
    unfold first?
    simp only [Option.isSome_map]
    split <;> rfl
  rw [outermost, outermost, List.map_filterMap]
  exact congrArg (List.filterMap · _) (funext hfirst)

/-! ### Matches in parallel -/

variable {γ : Type} {g : α → Option γ} {R : β → γ → Prop}

mutual

/-- Where values have related matches or none on either side, the outermost matches are related one by
one. -/
theorem forall₂_outermost : ∀ t : Rose α, (∀ a ∈ t.preorder, Option.Rel R (f a) (g a)) →
    List.Forall₂ R (outermost f t) (outermost g t)
  | .node a ts, h => by
    rw [preorder, List.forall_mem_cons] at h
    obtain ⟨ha, hts⟩ := h
    generalize hf : f a = b at ha
    generalize hg : g a = c at ha
    cases ha with
    | none =>
      rw [outermost_of_none hf, outermost_of_none hg]
      exact forall₂_outermostAll ts hts
    | some hr =>
      rw [outermost_of_some hf, outermost_of_some hg]
      exact .cons hr .nil

theorem forall₂_outermostAll : ∀ ts : List (Rose α), (∀ a ∈ preorders ts, Option.Rel R (f a) (g a)) →
    List.Forall₂ R (outermostAll f ts) (outermostAll g ts)
  | [], _ => .nil
  | t :: ts, h => by
    rw [preorders, List.forall_mem_append] at h
    rw [outermostAll_cons, outermostAll_cons]
    exact List.rel_append (forall₂_outermost t h.1) (forall₂_outermostAll ts h.2)

end

end BuilderMigration.Rose
