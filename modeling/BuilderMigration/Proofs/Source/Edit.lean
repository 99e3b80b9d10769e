import BuilderMigration.Source.Edit
import Mathlib.Data.List.Forall2

/-! Edits of ranges that lie one behind the other: made from the end of the text backwards, none is
left out, and everything between their ranges stays. In a text that is made of pieces they replace some
pieces and keep the others. -/

namespace BuilderMigration

/-- Two texts, the first from offset `pos` on, that have gaps in common; between the gaps the first
has the ranges of some edits and the second their replacements. -/
inductive Spliced : Int → List Char → List Edit → List Char → Prop
  | done (pos : Int) (gap : List Char) : Spliced pos gap [] gap
  | edit {pos : Int} {gap range before after : List Char} {e : Edit} {es : List Edit}
      (hstart : e.start = pos + gap.length) (hstop : e.stop = e.start + range.length)
      (rest : Spliced e.stop before es after) :
      Spliced pos (gap ++ range ++ before) (e :: es) (gap ++ e.replacement.toList ++ after)

namespace Edit

/-- Edits of ranges with text, one behind the other, from an offset on and within a text. -/
def Apart (length : Nat) (pos : Int) : List Edit → Prop
  | [] => pos ≤ length
  | e :: es => pos ≤ e.start ∧ e.start < e.stop ∧ Apart length e.stop es

variable {length : Nat} {pos : Int} {a b c e : Edit} {es : List Edit} {cs : List Char}

theorem Apart.le (h : Apart length pos es) : pos ≤ length := by
  induction es generalizing pos with
  | nil => exact h
  | cons e es ih =>
    obtain ⟨h₁, h₂, h₃⟩ := h
    have := ih h₃
    omega

theorem Apart.le_start (h : Apart length pos es) (he : e ∈ es) : pos ≤ e.start := by
  induction es generalizing pos with
  | nil => cases he
  | cons f es ih =>
    obtain ⟨h₁, h₂, h₃⟩ := h
    obtain rfl | he := List.mem_cons.1 he
    · exact h₁
    · have := ih h₃ he
      omega

theorem apart_of_pairwise (hp : pos ≤ length)
    (h : ∀ e ∈ es, pos ≤ e.start ∧ e.start < e.stop ∧ e.stop ≤ length)
    (ha : es.Pairwise fun a b => a.stop ≤ b.start) : Apart length pos es := by
  induction es generalizing pos with
  | nil => exact hp
  | cons e es ih =>
    obtain ⟨h₁, h₂, h₃⟩ := h e List.mem_cons_self
    obtain ⟨hfirst, hrest⟩ := List.pairwise_cons.1 ha
    refine ⟨h₁, h₂, ih h₃ (fun b hb => ?_) hrest⟩
    exact ⟨hfirst b hb, (h b (List.mem_cons_of_mem _ hb)).2⟩

/-! ### The order in which edits are made -/

theorem comesFirst_iff :
    comesFirst a b = true ↔ b.start < a.start ∨ a.start = b.start ∧ b.stop ≤ a.stop := by
  simp [comesFirst]

theorem comesFirst_trans (a b c : Edit) (h : comesFirst a b = true) (h' : comesFirst b c = true) :
    comesFirst a c = true := by
  rw [comesFirst_iff] at *
  omega

theorem comesFirst_total (a b : Edit) : (comesFirst a b || comesFirst b a) = true := by
  rw [Bool.or_eq_true, comesFirst_iff, comesFirst_iff]
  omega

theorem Apart.stop_le (h : Apart length pos es) (he : e ∈ es) : e.start < e.stop ∧ e.stop ≤ length := by
  induction es generalizing pos with
  | nil => cases he
  | cons f es ih =>
    obtain ⟨-, h₂, h₃⟩ := h
    obtain rfl | he := List.mem_cons.1 he
    · exact ⟨h₂, h₃.le⟩
    · exact ih h₃ he

theorem Apart.stop_le_start (h : Apart length pos es) :
    es.Pairwise fun a b => a.stop ≤ b.start := by
  induction es generalizing pos with
  | nil => exact .nil
  | cons e es ih =>
    obtain ⟨-, -, h₃⟩ := h
    exact .cons (fun f hf => h₃.le_start hf) (ih h₃)

theorem Apart.pairwise (h : Apart length pos es) : es.Pairwise fun a b => a.start < b.start := by
  refine h.stop_le_start.imp_of_mem fun ha _ hab => ?_
  have := h.stop_le ha
  omega

theorem Apart.eq_of_start_eq (h : Apart length pos es) (ha : a ∈ es) (hb : b ∈ es)
    (hs : a.start = b.start) : a = b := by
  induction es generalizing pos with
  | nil => cases ha
  | cons e es ih =>
    obtain ⟨-, h₂, h₃⟩ := h
    obtain rfl | ha' := List.mem_cons.1 ha <;> obtain rfl | hb' := List.mem_cons.1 hb
    · rfl
    · have := h₃.le_start hb'
      omega
    · have := h₃.le_start ha'
      omega
    · exact ih h₃ ha' hb'

/-- Edits apart are made in the opposite order of their positions. -/
theorem Apart.mergeSort_eq (h : Apart length pos es) : es.mergeSort comesFirst = es.reverse := by
  have hsorted : es.reverse.Pairwise fun a b => comesFirst a b = true :=
    List.pairwise_reverse.2 (h.pairwise.imp fun hab => comesFirst_iff.2 (.inl hab))
  refine List.Perm.eq_of_pairwise (fun a b ha hb hab hba => ?_)
    (List.pairwise_mergeSort comesFirst_trans comesFirst_total es) hsorted
    ((List.mergeSort_perm es _).trans (List.reverse_perm es).symm)
  rw [comesFirst_iff] at hab hba
  exact h.eq_of_start_eq ((List.mergeSort_perm es _).subset ha) (List.mem_reverse.1 hb) (by omega)

/-! ### Making them -/

theorem clamp_of_le {i : Int} (hi : 0 ≤ i) (h : i ≤ length) : clamp length i = i.toNat := by
  rw [clamp, if_neg (by omega)]
  omega

/-- An edit made in front of everything that was changed before. -/
theorem splice_take {out : List Char} (h : 0 ≤ e.start) (hle : e.start ≤ e.stop)
    (hstop : e.stop ≤ cs.length) :
    splice (cs.take e.stop.toNat ++ out) e =
      cs.take e.start.toNat ++ (e.replacement.toList ++ out) := by
  have hlen : (cs.take e.stop.toNat).length = e.stop.toNat := List.length_take_of_le (by omega)
  have hall : e.stop ≤ (cs.take e.stop.toNat ++ out).length := by
    rw [List.length_append, hlen]
    omega
  rw [splice, clamp_of_le h (by omega), clamp_of_le (by omega) hall,
    List.take_append_of_le_length (by omega), List.take_take, Nat.min_eq_left (by omega),
    List.drop_left' hlen, List.append_assoc]

theorem drop_eq_take_append (cs : List Char) {i j n : Nat} (h : i + n = j) :
    cs.drop i = (cs.drop i).take n ++ cs.drop j := by
  rw [← h, ← List.drop_drop, List.take_append_drop]

/-- Edits one behind the other, from an offset on and within a text; their ranges may be empty. -/
def InOrder (length : Nat) (pos : Int) : List Edit → Prop
  | [] => pos ≤ length
  | e :: es => pos ≤ e.start ∧ e.start ≤ e.stop ∧ InOrder length e.stop es

theorem InOrder.le (h : InOrder length pos es) : pos ≤ length := by
  induction es generalizing pos with
  | nil => exact h
  | cons e es ih =>
    obtain ⟨h₁, h₂, h₃⟩ := h
    have := ih h₃
    omega

theorem Apart.inOrder (h : Apart length pos es) : InOrder length pos es := by
  induction es generalizing pos with
  | nil => exact h
  | cons e es ih =>
    obtain ⟨h₁, h₂, h₃⟩ := h
    exact ⟨h₁, Int.le_of_lt h₂, ih h₃⟩

/-- Made from the last to the first, edits in order replace their ranges and nothing else. -/
theorem InOrder.foldr_splice (h : InOrder cs.length pos es) (hp : 0 ≤ pos) :
    ∃ out, es.foldr (fun e out => splice out e) cs = cs.take pos.toNat ++ out ∧
      Spliced pos (cs.drop pos.toNat) es out := by
  induction es generalizing pos with
  | nil => exact ⟨cs.drop pos.toNat, (List.take_append_drop _ _).symm, .done pos _⟩
  | cons e es ih =>
    obtain ⟨h₁, h₂, h₃⟩ := h
    have hle := h₃.le
    obtain ⟨out, hf, hs⟩ := ih h₃ (by omega)
    have hstart : pos.toNat + (e.start.toNat - pos.toNat) = e.start.toNat := by omega
    have hstop : e.start.toNat + (e.stop.toNat - e.start.toNat) = e.stop.toNat := by omega
    have hgap := drop_eq_take_append cs hstart
    have hrange := drop_eq_take_append cs hstop
    generalize hg : (cs.drop pos.toNat).take (e.start.toNat - pos.toNat) = gap at hgap
    refine ⟨gap ++ e.replacement.toList ++ out, ?_, ?_⟩
    · have htake : cs.take e.start.toNat = cs.take pos.toNat ++ gap := by
        rw [← hg, ← List.take_add, hstart]
      rw [List.foldr_cons, hf, splice_take (by omega) h₂ hle, htake]
      simp only [List.append_assoc]
    · rw [hgap, hrange, ← List.append_assoc]
      refine .edit ?_ ?_ hs
      · rw [← hg, List.length_take, List.length_drop]
        omega
      · rw [List.length_take, List.length_drop]
        omega

/-! ### Which of them are made -/

/-- Of edits in the order in which they come up, those that are made and those that are left out; the
edit made last begins at `limit`. -/
def sift : Int → List Edit → List Edit × List Edit
  | _, [] => ([], [])
  | limit, e :: es =>
    if limit < e.stop || e.stop < e.start then ((sift limit es).1, e :: (sift limit es).2)
    else (e :: (sift e.start es).1, (sift e.start es).2)

/-- The edits of a text that are made, in the order of their positions. -/
def made (code : String) (es : List Edit) : List Edit :=
  (sift (code.length + 1) (es.mergeSort comesFirst)).1.reverse

/-- The edits of a text that are left out. -/
def leftOut (code : String) (es : List Edit) : List Edit :=
  (sift (code.length + 1) (es.mergeSort comesFirst)).2

/-- Those that are left out leave no trace. -/
theorem foldl_step (limit : Int) (es : List Edit) (cs : List Char) :
    (es.foldl step (cs, limit)).1 = (sift limit es).1.foldl splice cs := by
  induction es generalizing limit cs with
  | nil => rfl
  | cons e es ih =>
    rw [List.foldl_cons, step, sift]
    dsimp only
    split
    · exact ih limit cs
    · exact ih e.start _

/-- Where each begins no earlier than the next one ends, none is left out. -/
theorem sift_eq_self {limit : Int} (h : es.Pairwise fun a b => b.stop ≤ a.start)
    (hle : ∀ e ∈ es, e.start ≤ e.stop ∧ e.stop ≤ limit) : sift limit es = (es, []) := by
  induction es generalizing limit with
  | nil => rfl
  | cons e es ih =>
    obtain ⟨hfirst, hrest⟩ := List.pairwise_cons.1 h
    obtain ⟨hstart, hlimit⟩ := hle e List.mem_cons_self
    have hmade : (decide (limit < e.stop) || decide (e.stop < e.start)) = false := by
      rw [Bool.or_eq_false_iff, decide_eq_false_iff_not, decide_eq_false_iff_not]
      omega
    have hlater (b : Edit) (hb : b ∈ es) : b.start ≤ b.stop ∧ b.stop ≤ e.start :=
      ⟨(hle b (List.mem_cons_of_mem _ hb)).1, hfirst b hb⟩
    rw [sift, if_neg (by simpa using hmade), ih hrest hlater]

theorem Apart.made_eq {code : String} (h : Apart code.length 0 es) : made code es = es := by
  have hbehind : es.reverse.Pairwise fun a b => b.stop ≤ a.start :=
    List.pairwise_reverse.2 h.stop_le_start
  rw [made, h.mergeSort_eq, sift_eq_self hbehind, List.reverse_reverse]
  intro e he
  have := h.stop_le (List.mem_reverse.1 he)
  omega

end Edit

/-- The edits that are made, from the last to the first. -/
theorem toList_applyEdits (code : String) (es : List Edit) :
    (applyEdits code es).toList =
      (Edit.made code es).foldr (fun e cs => Edit.splice cs e) code.toList := by
  rw [applyEdits, String.toList_ofList, Edit.foldl_step, Edit.made, List.foldr_reverse]

/-- All edits apart are made, and nothing else changes. -/
theorem applyEdits_spliced {code : String} {es : List Edit} (h : Edit.Apart code.length 0 es) :
    Spliced 0 code.toList es (applyEdits code es).toList := by
  have hmade := h.made_eq
  rw [← String.length_toList] at h
  obtain ⟨out, hf, hs⟩ := h.inOrder.foldr_splice (Int.le_refl 0)
  rw [toList_applyEdits, hmade, hf]
  exact hs

/-! ### Texts made of pieces -/

variable {α β : Type}

/-- What becomes of a list of pieces, the first of which has offset `pos`, where some edits replace the
pieces in their ranges. -/
def Edit.patch (write : String → α) (pos : Int) : List Edit → List α → List α
  | [], pieces => pieces
  | e :: es, pieces =>
    pieces.take (e.start - pos).toNat ++ write e.replacement ::
      patch write e.stop es (pieces.drop (e.stop - pos).toNat)

/-- The pieces outside the ranges. -/
def Edit.kept (pos : Int) : List Edit → List α → List α
  | [], pieces => pieces
  | e :: es, pieces =>
    pieces.take (e.start - pos).toNat ++ kept e.stop es (pieces.drop (e.stop - pos).toNat)

namespace Edit

theorem map_patch (f : α → β) (write : String → α) (pos : Int) (es : List Edit) (pieces : List α) :
    (patch write pos es pieces).map f = patch (f ∘ write) pos es (pieces.map f) := by
  induction es generalizing pos pieces with
  | nil => rfl
  | cons e es ih =>
    rw [patch, patch, List.map_append, List.map_cons, ih, List.map_take, List.map_drop]
    rfl

theorem mem_of_mem_kept {pos : Int} {es : List Edit} {pieces : List α} {a : α}
    (h : a ∈ kept pos es pieces) : a ∈ pieces := by
  induction es generalizing pos pieces with
  | nil => exact h
  | cons e es ih =>
    rw [kept, List.mem_append] at h
    exact h.elim List.mem_of_mem_take fun h => List.mem_of_mem_drop (ih h)

theorem forall₂_patch {R : α → β → Prop} {write : String → α} {write' : String → β}
    (hw : ∀ text, R (write text) (write' text)) {pieces : List α} {pieces' : List β}
    (h : List.Forall₂ R pieces pieces') (pos : Int) (es : List Edit) :
    List.Forall₂ R (patch write pos es pieces) (patch write' pos es pieces') := by
  induction es generalizing pos pieces pieces' with
  | nil => exact h
  | cons e es ih =>
    exact List.rel_append (List.forall₂_take _ h)
      (.cons (hw e.replacement) (ih (List.forall₂_drop _ h) e.stop))

/-- A change of the pieces shows just if it changes one that is kept. -/
theorem patch_map_eq_iff (f : α → α) (write : String → α) (pos : Int) (es : List Edit)
    (pieces : List α) :
    patch write pos es (pieces.map f) = patch write pos es pieces ↔
      ∀ a ∈ kept pos es pieces, f a = a := by
  have hself (l : List α) : l.map f = l ↔ ∀ a ∈ l, f a = a := by
    simpa using List.map_inj_left (l := l) (f := f) (g := id)
  induction es generalizing pos pieces with
  | nil => exact hself pieces
  | cons e es ih =>
    have hlater := ih e.stop (pieces.drop (e.stop - pos).toNat)
    rw [patch, patch, kept, List.forall_mem_append, ← List.map_take, ← List.map_drop]
    constructor
    · intro h
      obtain ⟨hfirst, hrest⟩ := List.append_inj h (List.length_map f)
      exact ⟨(hself _).1 hfirst, hlater.1 (List.cons.inj hrest).2⟩
    · rintro ⟨hfirst, hrest⟩
      rw [(hself _).2 hfirst, hlater.2 hrest]

end Edit

/-- What a text becomes is what its characters become. -/
theorem Spliced.eq_flatten_patch {pos : Int} {cs out : List Char} {es : List Edit}
    (h : Spliced pos cs es out) :
    out = (Edit.patch String.toList pos es (cs.map fun c => [c])).flatten := by
  have hflatten (l : List Char) : (l.map fun c => [c]).flatten = l := by
    rw [← List.flatMap_def, List.flatMap_singleton']
  induction h with
  | done pos gap => exact (hflatten gap).symm
  | @edit pos gap range before after e es hstart hstop _ ih =>
    have htake : ((gap ++ range ++ before).map fun c => [c]).take (e.start - pos).toNat =
        gap.map fun c => [c] := by
      rw [List.append_assoc, List.map_append]
      refine List.take_left' ?_
      rw [List.length_map]
      omega
    have hdrop : ((gap ++ range ++ before).map fun c => [c]).drop (e.stop - pos).toNat =
        before.map fun c => [c] := by
      rw [List.map_append]
      refine List.drop_left' ?_
      rw [List.length_map, List.length_append]
      omega
    rw [Edit.patch, htake, hdrop, List.flatten_append, List.flatten_cons, hflatten, ← ih,
      List.append_assoc]

theorem length_flatten_le {as bs : List (List α)}
    (h : List.Forall₂ (fun a b => a.length ≤ b.length) as bs) :
    as.flatten.length ≤ bs.flatten.length := by
  induction h with
  | nil => exact Nat.le_refl 0
  | cons hab _ ih =>
    rw [List.flatten_cons, List.flatten_cons, List.length_append, List.length_append]
    omega

/-- Lists of pieces of which none is longer than its counterpart make the same text just if they are
the same. -/
theorem flatten_eq_flatten_iff {as bs : List (List α)}
    (h : List.Forall₂ (fun a b => a.length ≤ b.length) as bs) :
    as.flatten = bs.flatten ↔ as = bs := by
  refine ⟨fun hflatten => ?_, congrArg List.flatten⟩
  induction h with
  | nil => rfl
  | cons hab hrest ih =>
    have hle := length_flatten_le hrest
    rw [List.flatten_cons, List.flatten_cons] at hflatten
    have hlength := congrArg List.length hflatten
    rw [List.length_append, List.length_append] at hlength
    obtain ⟨rfl, hlater⟩ := List.append_inj hflatten (by omega)
    rw [ih hlater]

end BuilderMigration
