import BuilderMigration.Proofs.Source.Edit
import Mathlib.Data.List.Nodup
import Mathlib.Data.List.Perm.Subperm

/-! Edits whose ranges may overlap. They are taken from the end of the text backwards: no two of those
that are made overlap, each one that is left out overlaps one that is made, and no choice of edits that
do not overlap is larger. -/

namespace BuilderMigration

namespace Edit

variable {length : Nat} {limit : Int} {a b e : Edit} {es fs : List Edit} {code : String}

/-- The range of an edit lies in a text of `length` characters. -/
structure Within (length : Nat) (e : Edit) : Prop where
  start_nonneg : 0 ≤ e.start
  start_le : e.start ≤ e.stop
  stop_le : e.stop ≤ length

instance (length : Nat) (e : Edit) : Decidable (e.Within length) :=
  decidable_of_iff (0 ≤ e.start ∧ e.start ≤ e.stop ∧ e.stop ≤ length)
    ⟨fun ⟨h₁, h₂, h₃⟩ => ⟨h₁, h₂, h₃⟩, fun ⟨h₁, h₂, h₃⟩ => ⟨h₁, h₂, h₃⟩⟩

/-- Each of two ranges begins in front of the end of the other. An empty range overlaps those that it
stands inside of, and none that it only touches. -/
def Overlaps (a b : Edit) : Prop := a.start < b.stop ∧ b.start < a.stop

theorem Overlaps.symm (h : a.Overlaps b) : b.Overlaps a := ⟨h.2, h.1⟩

/-- Of two edits that do not overlap, the one that comes up later ends where the first begins. -/
theorem stop_le_start (hfirst : comesFirst a b = true) (ha : a.start ≤ a.stop)
    (h : ¬ a.Overlaps b) : b.stop ≤ a.start := by
  rw [comesFirst_iff] at hfirst
  rw [Overlaps, not_and_or] at h
  omega

/-- An edit that reaches beyond the start of one that came up before it overlaps that one. -/
theorem overlaps_of_lt (hfirst : comesFirst a b = true) (ha : a.start ≤ a.stop)
    (h : a.start < b.stop) : a.Overlaps b := by
  rw [comesFirst_iff] at hfirst
  refine ⟨h, ?_⟩
  omega

/-! ### Those that are made and those that are left out -/

theorem sift_perm (limit : Int) (es : List Edit) : es.Perm ((sift limit es).1 ++ (sift limit es).2) := by
  induction es generalizing limit with
  | nil => exact .nil
  | cons e es ih =>
    rw [sift]
    split
    · exact ((ih limit).cons e).trans List.perm_middle.symm
    · exact (ih e.start).cons e

theorem stop_le_of_mem_sift (h : e ∈ (sift limit es).1) : e.stop ≤ limit := by
  induction es generalizing limit with
  | nil => cases h
  | cons f es ih =>
    rw [sift] at h
    split at h
    · exact ih h
    · next hmade =>
      simp only [Bool.or_eq_true, decide_eq_true_eq, not_or, Int.not_lt] at hmade
      obtain rfl | h := List.mem_cons.1 h
      · exact hmade.1
      · have := ih h
        omega

/-- Each edit that is made ends where the one made before it begins. -/
theorem sift_pairwise (limit : Int) (es : List Edit) :
    (sift limit es).1.Pairwise fun a b => b.stop ≤ a.start := by
  induction es generalizing limit with
  | nil => exact .nil
  | cons e es ih =>
    rw [sift]
    split
    · exact ih limit
    · exact .cons (fun b hb => stop_le_of_mem_sift hb) (ih e.start)

/-- Edits that are left out reach beyond the limit or into one that is made. -/
theorem overlaps_of_mem_sift (hsorted : es.Pairwise fun a b => comesFirst a b = true)
    (hle : ∀ e ∈ es, e.start ≤ e.stop) (h : e ∈ (sift limit es).2) :
    limit < e.stop ∨ ∃ a ∈ (sift limit es).1, a.Overlaps e := by
  induction es generalizing limit with
  | nil => cases h
  | cons f es ih =>
    obtain ⟨hfirst, hsorted⟩ := List.pairwise_cons.1 hsorted
    obtain ⟨hf, hle⟩ := List.forall_mem_cons.1 hle
    rw [sift] at h ⊢
    split at h
    · next hout =>
      simp only [Bool.or_eq_true, decide_eq_true_eq] at hout
      rw [if_pos (by simpa using hout)]
      obtain rfl | h := List.mem_cons.1 h
      · exact .inl (by omega)
      · exact ih hsorted hle h
    · next hmade =>
      rw [if_neg hmade]
      refine .inr ?_
      rcases ih hsorted hle h with hlt | ⟨a, ha, hover⟩
      · have hmem : e ∈ es := (sift_perm f.start es).mem_iff.2 (List.mem_append_right _ h)
        exact ⟨f, List.mem_cons_self, overlaps_of_lt (hfirst e hmem) hf hlt⟩
      · exact ⟨a, List.mem_cons_of_mem _ ha, hover⟩

/-- Edits that do not overlap end, the first of them apart, where that one begins. -/
theorem stop_le_of_sublist (hsorted : (e :: fs).Pairwise fun a b => comesFirst a b = true)
    (happart : (e :: fs).Pairwise fun a b => ¬ a.Overlaps b) (he : e.start ≤ e.stop) :
    ∀ b ∈ fs, b.stop ≤ e.start := fun b hb =>
  stop_le_start ((List.pairwise_cons.1 hsorted).1 b hb) he ((List.pairwise_cons.1 happart).1 b hb)

/-- No choice in front of the limit is larger than the edits that are made: where it has an edit that
begins behind those still to come, it can have the first one that fits in place of it. -/
theorem length_le_sift (hsorted : es.Pairwise fun a b => comesFirst a b = true)
    (hle : ∀ e ∈ es, e.start ≤ e.stop) (hsub : fs.Sublist es)
    (happart : fs.Pairwise fun a b => ¬ a.Overlaps b) (hlimit : ∀ e ∈ fs, e.stop ≤ limit) :
    fs.length ≤ (sift limit es).1.length := by
  induction es generalizing limit fs with
  | nil =>
    obtain rfl := List.sublist_nil.1 hsub
    exact Nat.zero_le _
  | cons e es ih =>
    have hfsorted := hsorted.sublist hsub
    obtain ⟨hfirst, hsorted⟩ := List.pairwise_cons.1 hsorted
    obtain ⟨he, hle⟩ := List.forall_mem_cons.1 hle
    rw [sift]
    split
    · next hout =>
      simp only [Bool.or_eq_true, decide_eq_true_eq] at hout
      rcases List.sublist_cons_iff.1 hsub with hsub | ⟨gs, rfl, -⟩
      · exact ih hsorted hle hsub happart hlimit
      · have := hlimit e List.mem_cons_self
        omega
    · rw [List.length_cons]
      rcases List.sublist_cons_iff.1 hsub with hsub | ⟨gs, rfl, hgs⟩
      · cases fs with
        | nil => exact Nat.zero_le _
        | cons f gs =>
          have hf : f ∈ es := hsub.subset List.mem_cons_self
          have hbefore := stop_le_of_sublist hfsorted happart (hle f hf)
          have hstart : f.start ≤ e.start := by
            have := comesFirst_iff.1 (hfirst f hf)
            omega
          have hlength := ih hsorted hle ((List.sublist_cons_self f gs).trans hsub)
            (List.pairwise_cons.1 happart).2 fun b hb => Int.le_trans (hbefore b hb) hstart
          exact Nat.succ_le_succ hlength
      · have hlength := ih hsorted hle hgs (List.pairwise_cons.1 happart).2
          (stop_le_of_sublist hfsorted happart he)
        exact Nat.succ_le_succ hlength

/-! ### A text with its edits -/

theorem perm_made (code : String) (es : List Edit) : es.Perm (made code es ++ leftOut code es) :=
  (List.mergeSort_perm es comesFirst).symm.trans
    ((sift_perm _ _).trans ((List.reverse_perm _).symm.append_right _))

theorem mem_of_mem_made (h : e ∈ made code es) : e ∈ es :=
  (perm_made code es).mem_iff.2 (List.mem_append_left _ h)

/-- Edits within a text, each behind the one in front of it, are in order. -/
theorem inOrder_of_pairwise {pos : Int} (hp : pos ≤ length) (h : ∀ e ∈ es, pos ≤ e.start)
    (hw : ∀ e ∈ es, e.Within length) (hbehind : es.Pairwise fun a b => a.stop ≤ b.start) :
    InOrder length pos es := by
  induction es generalizing pos with
  | nil => exact hp
  | cons e es ih =>
    obtain ⟨hfirst, hbehind⟩ := List.pairwise_cons.1 hbehind
    obtain ⟨he, hw⟩ := List.forall_mem_cons.1 hw
    exact ⟨h e List.mem_cons_self, he.start_le, ih he.stop_le hfirst hw hbehind⟩

theorem made_pairwise (code : String) (es : List Edit) :
    (made code es).Pairwise fun a b => a.stop ≤ b.start :=
  List.pairwise_reverse.2 (sift_pairwise _ _)

/-- The order in which edits are listed does not matter where no two have one range. -/
theorem mergeSort_eq_of_perm (h : fs.Perm es)
    (hone : (es.map fun e => (e.start, e.stop)).Nodup) :
    fs.mergeSort comesFirst = es.mergeSort comesFirst := by
  have hperm := (List.mergeSort_perm fs comesFirst).trans (h.trans (List.mergeSort_perm es comesFirst).symm)
  refine hperm.eq_of_pairwise (fun a b ha hb hab hba => ?_)
    (List.pairwise_mergeSort comesFirst_trans comesFirst_total fs)
    (List.pairwise_mergeSort comesFirst_trans comesFirst_total es)
  have ha := h.subset ((List.mergeSort_perm fs _).subset ha)
  have hb := (List.mergeSort_perm es _).subset hb
  rw [comesFirst_iff] at hab hba
  refine List.inj_on_of_nodup_map hone ha hb ?_
  rw [Prod.mk.injEq]
  omega

end Edit

variable {code : String} {es : List Edit}

/-- Edits within a text are made as one substitution: no two that are made overlap, each that is left out
overlaps one that is made, no choice of edits that do not overlap is larger, the text between the ranges
stays as it is, and where no two edits have one range their order in the list does not matter. -/
theorem applyEdits_greedy (code : String) (es : List Edit) (h : ∀ e ∈ es, e.Within code.length) :
    (Edit.made code es).Pairwise (fun a b => ¬ a.Overlaps b) ∧
      es.Perm (Edit.made code es ++ Edit.leftOut code es) ∧
      (∀ e ∈ Edit.leftOut code es, ∃ a ∈ Edit.made code es, a.Overlaps e) ∧
      (∀ choice : List Edit, choice.Subperm es → choice.Pairwise (fun a b => ¬ a.Overlaps b) →
        choice.length ≤ (Edit.made code es).length) ∧
      Spliced 0 code.toList (Edit.made code es) (applyEdits code es).toList ∧
      ((es.map fun e => (e.start, e.stop)).Nodup →
        ∀ listed : List Edit, listed.Perm es → applyEdits code listed = applyEdits code es) := by
  have hsorted := List.pairwise_mergeSort Edit.comesFirst_trans Edit.comesFirst_total es
  have hperm := List.mergeSort_perm es Edit.comesFirst
  have hle (e : Edit) (he : e ∈ es.mergeSort Edit.comesFirst) : e.start ≤ e.stop :=
    (h e (hperm.mem_iff.1 he)).start_le
  have hwithin (e : Edit) (he : e ∈ Edit.made code es) : e.Within code.length :=
    h e (Edit.mem_of_mem_made he)
  refine ⟨?_, Edit.perm_made code es, fun e he => ?_, fun choice hchoice happart => ?_, ?_,
    fun hone listed hlisted => ?_⟩
  · -- each that is made begins behind the one in front of it
    refine (Edit.made_pairwise code es).imp fun hab hover => ?_
    have := hover.2
    omega
  · obtain hlt | ⟨a, ha, hover⟩ := Edit.overlaps_of_mem_sift hsorted hle he
    · have := (h e ((Edit.perm_made code es).mem_iff.2 (List.mem_append_right _ he))).stop_le
      omega
    · exact ⟨a, List.mem_reverse.2 ha, hover⟩
  · obtain ⟨sorted, hsame, hsub⟩ := List.Subperm.trans hchoice hperm.symm.subperm
    have happart := (hsame.symm.pairwise_iff fun hab hba => hab hba.symm).1 happart
    have hlimit (e : Edit) (he : e ∈ sorted) : e.stop ≤ (code.length : Int) + 1 := by
      have := (h e (hperm.mem_iff.1 (hsub.subset he))).stop_le
      omega
    rw [← hsame.length_eq, Edit.made, List.length_reverse]
    exact Edit.length_le_sift hsorted hle hsub happart hlimit
  · have hinOrder := Edit.inOrder_of_pairwise (Int.natCast_nonneg _)
      (fun e he => (hwithin e he).start_nonneg) hwithin (Edit.made_pairwise code es)
    rw [← String.length_toList] at hinOrder
    obtain ⟨out, hf, hs⟩ := hinOrder.foldr_splice (Int.le_refl 0)
    rw [toList_applyEdits, hf]
    exact hs
  · rw [applyEdits, applyEdits, Edit.mergeSort_eq_of_perm hlisted hone]

/-- Ranges that begin together, stand one inside of another or touch, and insertions at their ends. -/
def tangledEdits : List Edit :=
  [⟨2, 6, "V"⟩, ⟨2, 4, "W"⟩, ⟨3, 3, "i"⟩, ⟨4, 4, "j"⟩, ⟨4, 7, "X"⟩, ⟨0, 2, "Y"⟩, ⟨7, 8, "Z"⟩]

/-- Five of seven edits are made, whatever their order in the list. -/
theorem applyEdits_greedy_tangled :
    (∀ e ∈ tangledEdits, e.Within "abcdefgh".length) ∧
      (∀ choice : List Edit, choice.Subperm tangledEdits →
        choice.Pairwise (fun a b => ¬ a.Overlaps b) → choice.length ≤ 5) ∧
      applyEdits "abcdefgh" tangledEdits = "YcidjXZ" ∧
      applyEdits "abcdefgh" tangledEdits.reverse = "YcidjXZ" := by
  have hwithin : ∀ e ∈ tangledEdits, e.Within "abcdefgh".length := by decide +kernel
  have hsort : tangledEdits.mergeSort Edit.comesFirst = [⟨7, 8, "Z"⟩, ⟨4, 7, "X"⟩, ⟨4, 4, "j"⟩,
      ⟨3, 3, "i"⟩, ⟨2, 6, "V"⟩, ⟨2, 4, "W"⟩, ⟨0, 2, "Y"⟩] := by
    simp [tangledEdits, List.mergeSort, List.MergeSort.Internal.splitInTwo, Edit.comesFirst]
  have hmade : (Edit.made "abcdefgh" tangledEdits).length = 5 := by
    rw [Edit.made, hsort]
    decide +kernel
  have hresult : applyEdits "abcdefgh" tangledEdits = "YcidjXZ" := by
    rw [applyEdits, hsort]
    decide +kernel
  have hone : (tangledEdits.map fun e => (e.start, e.stop)).Nodup := by decide +kernel
  obtain ⟨-, -, -, hlargest, -, horder⟩ := applyEdits_greedy "abcdefgh" tangledEdits hwithin
  exact ⟨hwithin, hmade ▸ hlargest, hresult,
    (horder hone _ (List.reverse_perm _)).trans hresult⟩

end BuilderMigration
