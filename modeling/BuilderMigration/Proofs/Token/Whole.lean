import BuilderMigration.Proofs.Token.Wording

/-! Texts that are made of whole pieces just where no name at their end goes on into what follows. They
are put together from parts that are whole anywhere and from plain names. -/

namespace BuilderMigration

open Lexeme (isNameChar name piece)

variable {a s t : String} {rest : List Char} {x y : Wording}

/-! ### Ends of texts -/

/-- No name at the end of `s` goes on into `rest`. -/
def Unjoined (s : String) (rest : List Char) : Prop :=
  ∀ c ∈ s.toList.getLast?, isNameChar c → ∀ d ∈ rest.head?, isNameChar d = false

theorem unjoined_nil (s : String) : Unjoined s [] := fun _ _ _ _ hd => by cases hd

theorem unjoined_append (hs : s ≠ "") : Unjoined (a ++ s) rest ↔ Unjoined s rest := by
  rw [Unjoined, Unjoined, String.toList_append,
    List.getLast?_append_of_ne_nil _ (mt String.toList_eq_nil_iff.1 hs)]

/-- A text that does not end in a name. -/
def Ended (s : String) : Prop := ∀ c ∈ s.toList.getLast?, isNameChar c = false

instance : DecidablePred Ended := fun s => Option.decidableForallMem s.toList.getLast?

theorem Ended.unjoined (h : Ended s) (rest : List Char) : Unjoined s rest := fun c hc hname => by
  rw [h c hc] at hname
  cases hname

theorem Ended.behind (a : String) (h : Ended s ∧ s ≠ "") : Ended (a ++ s) := by
  rw [Ended, String.toList_append, List.getLast?_append_of_ne_nil _ (mt String.toList_eq_nil_iff.1 h.2)]
  exact h.1

/-- The last of several texts. -/
theorem Ended.intercalate_concat (sep : String) (as : List String) (h : Ended s ∧ s ≠ "") :
    Ended (String.intercalate sep (as ++ [s])) := by
  obtain rfl | hne := eq_or_ne as []
  · exact h.1
  · rw [String.intercalate_append_of_ne_nil hne (List.cons_ne_nil s []), String.intercalate_singleton]
    exact .behind _ h

/-- A text that may stand behind a name, and that does not end in one. -/
structure Attached (s : String) : Prop where
  aside : Aside s.toList
  ended : Ended s

namespace Attached

theorem append (hs : Attached s) (ht : Attached t) : Attached (s ++ t) := by
  obtain rfl | hne := eq_or_ne t ""
  · rwa [String.append_empty]
  · refine ⟨?_, .behind s ⟨ht.ended, hne⟩⟩
    rw [String.toList_append]
    exact hs.aside.append ht.aside

/-- What stands in front of it is not joined to it, nor to what follows. -/
theorem unjoined (hs : Attached s) (h : Unjoined (a ++ s) rest) : Unjoined a (s.toList ++ rest) := by
  obtain rfl | hne := eq_or_ne s ""
  · rwa [String.append_empty] at h
  · intro _ _ _ d hd
    rw [List.head?_append_of_ne_nil _ (mt String.toList_eq_nil_iff.1 hne)] at hd
    exact (hs.aside d hd).1

end Attached

/-! ### Whole texts -/

/-- A text that tells `x` wherever no name at its end goes on, and that has its tokens there only. -/
structure Whole (s : String) (x : Wording) : Prop where
  told (rest : List Char) (h : Unjoined s rest) : wording (s.toList ++ rest) = x ++ wording rest
  isSealed (hx : x.faulty = false) : Sealed s

namespace Whole

theorem tells (h : Whole s x) : Tells (Unjoined s) s x :=
  ⟨h.told, fun hx => (h.isSealed hx).imp fun _ hts rest => (hts rest).2⟩

/-- A text that does not end in a name is whole anywhere. -/
theorem of_ended (h : Tells Anywhere s x) (hs : Ended s) : Whole s x where
  told rest _ := h.told rest trivial
  isSealed hx := (h.whole hx).imp fun _ hts rest =>
    ⟨fun _ => hs.unjoined rest, fun _ => hts rest trivial⟩

theorem wording_eq (h : Whole s x) : wording s.toList = x := by
  have halone := h.told [] (unjoined_nil s)
  have hnil : wording [] = {} := rfl
  rwa [List.append_nil, hnil, Wording.append_nil] at halone

/-- Without a fault a text is sealed. -/
theorem sealed_of_sound (h : Whole s x) (hs : (tokenize s 0).fault = none) : Sealed s := by
  have hfault : (wording s.toList).faulty = (tokenize s 0).fault.isSome := rfl
  refine h.isSealed ?_
  rw [← h.wording_eq, hfault, hs]
  rfl

theorem attach (h : Whole a x) (hs : Tells Anywhere s y) (hend : Attached s) : Whole (a ++ s) (x ++ y) := by
  have hall : Tells (Unjoined (a ++ s)) (a ++ s) (x ++ y) :=
    h.tells.append (hs.mono fun _ _ => trivial) fun _ => hend.unjoined
  refine ⟨hall.told, fun hxy => ?_⟩
  obtain rfl | hne := eq_or_ne s ""
  · rw [String.append_empty]
    exact h.isSealed (Wording.sound_of_append hxy).1
  · have hends := (Ended.behind a ⟨hend.ended, hne⟩).unjoined
    exact (hall.whole hxy).imp fun _ hts rest => ⟨fun _ => hends rest, fun _ => hts rest (hends rest)⟩

/-- Behind a text that is whole anywhere. -/
theorem behind (ha : Tells Anywhere a x) (h : Whole s y) (hs : s ≠ "") : Whole (a ++ s) (x ++ y) := by
  have hall : Tells (Unjoined s) (a ++ s) (x ++ y) := ha.append h.tells fun _ _ => trivial
  refine ⟨fun rest hr => hall.told rest ((unjoined_append hs).1 hr), fun hxy => ?_⟩
  obtain ⟨hx, hy⟩ := Wording.sound_of_append hxy
  obtain ⟨us, hus⟩ := ha.whole hx
  obtain ⟨vs, hvs⟩ := h.isSealed hy
  refine ⟨us ++ vs.map (·.shift a.toList.length), fun rest => Iff.trans ?_ (unjoined_append hs).symm⟩
  rw [String.toList_append]
  refine Iff.trans ?_ (hvs rest)
  constructor
  · intro hlex
    exact Lexes.shift_iff.1 ((hus [' '] trivial).agree (by decide) hlex).2
  · intro hlex
    exact (hus _ trivial).append (hlex.shift _)

end Whole

/-- A plain name is whole, unless it may begin a string or a raw name. -/
theorem IsWord.whole (h : IsWord s) (hb : s.toList.head? ≠ some 'b') (hr : s.toList.head? ≠ some 'r') :
    ∃ x, Whole s x := by
  obtain ⟨c, cs, hcs, -⟩ := h.exists_head
  have hne : s.toList ≠ [] := by rw [hcs]; exact List.cons_ne_nil c cs
  have hlast (rest : List Char) (hr : Unjoined s rest) :
      ∀ d ∈ rest.head?, Lexeme.isNameChar d = false :=
    hr _ (List.getLast?_eq_some_getLast hne) (h.isNameChar _ (List.getLast_mem hne))
  have hpiece (rest : List Char) (hend : Unjoined s rest) :
      piece (s.toList ++ rest) = .token .ident s.toList.length := by
    have hname : name (s.toList ++ rest) = some s.toList.length :=
      Lexeme.name_append (by rwa [String.length_toList]) (hlast rest hend)
    rw [hcs, List.head?_cons] at hb hr
    rw [hcs, List.cons_append] at hname ⊢
    exact Lexeme.piece_name hname (mt (congrArg some) hb) (mt (congrArg some) hr)
  have hsealed : Sealed s := by
    refine ⟨[⟨.ident, Scan.tokenText .ident s.toList, 0, 0 + s.toList.length, 0, 0⟩], fun rest => ?_⟩
    constructor
    · intro hlex
      have hone : piece (s.toList ++ ([] ++ rest)) = .token .ident s.toList.length :=
        (Lexes.token_inv (by rwa [List.append_nil])).1
      exact fun _ _ _ => Lexeme.behind_ident hone
    · exact fun hr => .one (hpiece rest hr) hne
  exact ⟨_, (Tells.one hne hpiece).told, fun _ => hsealed⟩

end BuilderMigration
