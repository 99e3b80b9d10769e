import BuilderMigration.Proofs.Likeness.Reading
import Mathlib.Data.List.Forall2

/-! What reading a text owes to its tokens: what they are, and which of them touch. Where the tokens of two
texts agree in this, but for names that the grammar does not ask for, both texts are read as the same tree,
renamed, or neither is. -/

namespace BuilderMigration

/-! ### Tokens apart from their places -/

/-- What a token is wherever it stands, and whether it stands at the end of the one before it. -/
structure Imprint where
  joined : Bool
  kind : TokenKind
  value : String
  width : Int
  deriving DecidableEq

def Token.imprint (lo : Int) (t : Token) : Imprint := ⟨t.lo == lo, t.kind, t.value, t.hi - t.lo⟩

/-- The imprints of the tokens of a text that begins at position `lo`. -/
def imprints (lo : Int) : List Token → List Imprint
  | [] => []
  | t :: ts => t.imprint lo :: imprints t.hi ts

/-- The same with another name, of whatever length. -/
structure Imprint.Renames (f : String → String) (a b : Imprint) : Prop where
  joined : b.joined = a.joined
  kind : b.kind = a.kind
  name (h : a.kind = .ident) : b.value = f a.value
  value (h : a.kind ≠ .ident) : b.value = a.value

/-- The same imprints one by one, but for names. -/
def Renamed (f : String → String) (as bs : List Imprint) : Prop :=
  List.Forall₂ (Imprint.Renames f) as bs

/-- Names may change that the grammar does not ask for. -/
def Spares (f : String → String) : Prop := ∀ v, Asked v → ∀ u, f u = v ↔ u = v

variable {f : String → String} {lo base p q : Int} {ts ts' : List Token}

theorem imprints_shift (k : Int) (ts : List Token) :
    imprints (lo + k) (ts.map (·.shift k)) = imprints lo ts := by
  induction ts generalizing lo with
  | nil => rfl
  | cons t ts ih =>
    have hjoined : (t.lo + k == lo + k) = (t.lo == lo) := by
      rw [Bool.eq_iff_iff, beq_iff_eq, beq_iff_eq, Int.add_left_inj]
    have hwidth : t.hi + k - (t.lo + k) = t.hi - t.lo := by omega
    have hhead : (t.shift k).imprint (lo + k) = t.imprint lo := by
      simp only [Token.imprint, Token.shift, hjoined, hwidth]
    exact congrArg₂ List.cons hhead ih

theorem imprints_bare (lo : Int) (ts : List Token) :
    imprints lo (ts.map Token.bare) = imprints lo ts := by
  induction ts generalizing lo with
  | nil => rfl
  | cons t ts ih => exact congrArg (t.imprint lo :: ·) (ih t.hi)

theorem exists_imprint (lo : Int) {t : Token} (ht : t ∈ ts) :
    ∃ a ∈ imprints lo ts, a.kind = t.kind ∧ a.value = t.value ∧ a.width = t.hi - t.lo := by
  induction ts generalizing lo with
  | nil => cases ht
  | cons u ts ih =>
    rcases List.mem_cons.1 ht with rfl | ht
    · exact ⟨t.imprint lo, List.mem_cons_self, rfl, rfl, rfl⟩
    · obtain ⟨a, ha, hsame⟩ := ih u.hi ht
      exact ⟨a, List.mem_cons_of_mem _ ha, hsame⟩

theorem exists_of_imprint {a : Imprint} (ha : a ∈ imprints lo ts) :
    ∃ t ∈ ts, t.kind = a.kind ∧ t.value = a.value ∧ t.hi - t.lo = a.width := by
  induction ts generalizing lo with
  | nil => cases ha
  | cons u ts ih =>
    rcases List.mem_cons.1 ha with rfl | ha
    · exact ⟨u, List.mem_cons_self, rfl, rfl, rfl⟩
    · obtain ⟨t, ht, hsame⟩ := ih ha
      exact ⟨t, List.mem_cons_of_mem _ ht, hsame⟩

/-! ### The places of other tokens -/

/-- The position among the tokens `ts'` of a text that begins at `base` for one among the tokens `ts`:
in front of a token it is where the token before ends, in a token it is where that begins. -/
def placeFrom (base : Int) : List Token → List Token → Int → Int
  | t :: ts, t' :: ts', p =>
    if p < t.lo then base else if p < t.hi then t'.lo else placeFrom t'.hi ts ts' p
  | _, _, _ => base

theorem le_placeFrom (h : Ordered base ts') (ts : List Token) (p : Int) :
    base ≤ placeFrom base ts ts' p := by
  induction ts generalizing base ts' with
  | nil => exact Int.le_refl base
  | cons t ts ih =>
    cases ts' with
    | nil => exact Int.le_refl base
    | cons t' ts' =>
      obtain ⟨hlo, hlt, hrest⟩ := h
      have := ih hrest
      rw [placeFrom]
      split
      · exact Int.le_refl base
      · split <;> omega

/-- Places are kept in order. -/
theorem placeFrom_mono (h : Ordered base ts') (hpq : p ≤ q) :
    placeFrom base ts ts' p ≤ placeFrom base ts ts' q := by
  induction ts generalizing base ts' with
  | nil => exact Int.le_refl base
  | cons t ts ih =>
    cases ts' with
    | nil => exact Int.le_refl base
    | cons t' ts' =>
      obtain ⟨hlo, hlt, hrest⟩ := h
      have hlater := le_placeFrom hrest ts q
      have hih := ih hrest
      rw [placeFrom, placeFrom]
      split <;> split <;> omega

/-- The end of a token goes with the end of the other. -/
theorem placeFrom_start (h : Ordered lo ts)
    (hr : Renamed f (imprints lo ts) (imprints base ts')) :
    placeFrom base ts ts' lo = base := by
  cases ts with
  | nil => rfl
  | cons t ts =>
    cases ts' with
    | nil => rfl
    | cons t' ts' =>
      obtain ⟨hlo, hlt, -⟩ := h
      obtain ⟨hhead, -⟩ := List.forall₂_cons.1 hr
      rw [placeFrom]
      split
      · rfl
      · have hjoined : (t'.lo == base) = (t.lo == lo) := hhead.joined
        have heq : t.lo = lo := by omega
        rw [if_pos (by omega)]
        simpa [heq] using hjoined

/-! ### The likeness of renamed tokens -/

/-- Tokens that agree with others but for names are like them. -/
theorem together_of_places {M : Likeness} (hname : M.name = f) (hnamed : ∀ v, M.Named v)
    (hsame : ¬ M.same) (h : Ordered lo ts) (h' : Ordered base ts')
    (hplace : ∀ p, lo ≤ p → M.place p = placeFrom base ts ts' p)
    (hr : Renamed f (imprints lo ts) (imprints base ts')) :
    Together M ts ts' := by
  induction ts generalizing lo base ts' with
  | nil =>
    cases ts' with
    | nil => exact .nil
    | cons t' ts' => cases hr
  | cons t ts ih =>
    cases ts' with
    | nil => cases hr
    | cons t' ts' =>
      obtain ⟨hlo, hlt, hrest⟩ := h
      obtain ⟨hlo', hlt', hrest'⟩ := h'
      obtain ⟨hhead, htail⟩ := List.forall₂_cons.1 hr
      have hlater : ∀ p, t.hi ≤ p → M.place p = placeFrom t'.hi ts ts' p := by
        intro p hp
        rw [hplace p (by omega), placeFrom, if_neg (by omega), if_neg (by omega)]
      have hbegin : M.place t.lo = t'.lo := by
        rw [hplace _ hlo, placeFrom, if_neg (Int.lt_irrefl _), if_pos hlt]
      have hend : M.place t.hi = t'.hi := by
        rw [hlater _ (Int.le_refl _), placeFrom_start hrest htail]
      refine .cons ⟨hhead.kind, fun hk => hname ▸ hhead.name hk, hhead.value, hbegin.symm, hend.symm,
        fun _ => hnamed _, fun hs => absurd hs hsame⟩ (fun u hu hjoin => ?_)
        (ih hrest hrest' hlater htail)
      -- where the other tokens touch, these do
      cases ts with
      | nil => cases hu
      | cons u ts =>
        obtain rfl := Option.some.inj hu
        cases ts' with
        | nil => cases htail
        | cons u' ts' =>
          obtain ⟨hnext, -⟩ := List.forall₂_cons.1 htail
          have hjoined : (u'.lo == t'.hi) = (u.lo == t.hi) := hnext.joined
          have hbegin' : M.place u.lo = u'.lo := by
            rw [hlater _ hrest.1, placeFrom, if_neg (Int.lt_irrefl _), if_pos hrest.2.1]
          rw [hend, hbegin'] at hjoin
          have htouch : (u.lo == t.hi) = true := by rw [← hjoined, hjoin, beq_self_eq_true]
          exact (beq_iff_eq.1 htouch).symm

theorem exists_together (hf : Spares f) (h : Ordered lo ts) (h' : Ordered base ts')
    (hr : Renamed f (imprints lo ts) (imprints base ts')) :
    ∃ M : Likeness, M.name = f ∧ Together M ts ts' := by
  let M : Likeness :=
    { name := f
      place := placeFrom base ts ts'
      Named _ := True
      same := False
      name_eq_iff hv u := hf _ hv u
      place_le := placeFrom_mono h' }
  exact ⟨M, rfl, together_of_places rfl (fun _ => trivial) id h h' (fun _ _ => rfl) hr⟩

/-! ### Trees of the same shape -/

/-- An item with other names and without its places. -/
def Item.shape (f : String → String) : Item → Item := Relabeling.item ⟨f, fun _ => 0⟩

theorem shape_relabeled (r : Relabeling) (f : String → String) (is : List Item) :
    (is.map r.item).map (Item.shape f) = is.map (Item.shape (f ∘ r.name)) := by
  rw [List.map_map]
  exact List.map_congr_left fun i _ => (Relabeling.item_comp ⟨f, fun _ => 0⟩ r i).symm

/-- Whether some tokens are those of a file. -/
def Reads (ts : List Token) : Prop := ∃ is, readItems ts = .ok is

/-- Tokens that agree with those of a file, but for names, are those of a file of the same shape. -/
theorem readItems_renamed {is : List Item} (hf : Spares f) (h : Ordered lo ts)
    (h' : Ordered base ts')
    (hr : Renamed f (imprints lo ts) (imprints base ts'))
    (hread : readItems ts = .ok is) :
    ∃ is', readItems ts' = .ok is' ∧ is'.map (Item.shape id) = is.map (Item.shape f) := by
  obtain ⟨M, rfl, htogether⟩ := exists_together hf h h' hr
  have houtcomes := readItems_alike htogether
  rw [hread] at houtcomes
  generalize hread' : readItems ts' = r at houtcomes
  cases houtcomes with
  | ok hq =>
    obtain ⟨rfl, -⟩ := hq
    exact ⟨_, rfl, shape_relabeled M.toRelabeling id is⟩

theorem reads_renamed (hf : Spares f) (h : Ordered lo ts) (h' : Ordered base ts')
    (hr : Renamed f (imprints lo ts) (imprints base ts')) :
    Reads ts' ↔ Reads ts := by
  obtain ⟨M, rfl, htogether⟩ := exists_together hf h h' hr
  have houtcomes := readItems_alike htogether
  unfold Reads
  generalize readItems ts = r at houtcomes
  generalize readItems ts' = r' at houtcomes
  cases houtcomes with
  | ok hq => exact ⟨fun _ => ⟨_, rfl⟩, fun _ => ⟨_, rfl⟩⟩
  | error hf => exact ⟨nofun, nofun⟩

end BuilderMigration
