import BuilderMigration.Proofs.Grammar.Group

/-! Reading a group in delimiters. It ends behind the shortest run of tokens in which every group that
opens is closed by a delimiter of its kind. Where there is no such run, reading fails at the first delimiter
that closes another group than the innermost open one, or at the end of the tokens. -/

namespace BuilderMigration

variable {d : Delimiter} {ds : List Delimiter} {t : Token} {ts us vs read : List Token}

/-! ### Open groups -/

theorem BalancedTokens.append (hs : BalancedTokens ts) (hu : BalancedTokens us) :
    BalancedTokens (ts ++ us) := by
  induction hs with
  | nil => exact hu
  | plain ho hc _ ih => exact .plain ho hc ih
  | @group d t u ts vs ho hc hi _ _ ih =>
    rw [List.cons_append, List.append_assoc]
    exact .group ho hc hi ih

theorem TokenGroup.balancedTokens (G : TokenGroup) : BalancedTokens G.tokens :=
  .group G.opens G.closes G.balanced .nil

/-- Tokens that leave some groups open, of which the innermost stands first: every delimiter among them
that closes a group closes the one that is the innermost there. -/
inductive LeavesOpen : List Delimiter → List Token → Prop
  | balanced {ts : List Token} (h : BalancedTokens ts) : LeavesOpen [] ts
  | opened {d : Delimiter} {ds : List Delimiter} {t : Token} {ts us : List Token} (h : LeavesOpen ds ts)
      (ho : t.opens? = some d) (hu : BalancedTokens us) : LeavesOpen (d :: ds) (ts ++ t :: us)

namespace LeavesOpen

theorem append (h : LeavesOpen ds ts) (hu : BalancedTokens us) : LeavesOpen ds (ts ++ us) := by
  cases h with
  | balanced h => exact .balanced (h.append hu)
  | opened h ho hs =>
    rw [List.append_assoc, List.cons_append]
    exact .opened h ho (hs.append hu)

theorem plain (h : LeavesOpen ds ts) (ho : t.opens? = none) (hc : t.closes? = none) :
    LeavesOpen ds (ts ++ [t]) := h.append (.plain ho hc .nil)

theorem opener (h : LeavesOpen ds ts) (ho : t.opens? = some d) : LeavesOpen (d :: ds) (ts ++ [t]) :=
  .opened h ho .nil

/-- The innermost open group is closed. -/
theorem closer (h : LeavesOpen (d :: ds) ts) (hc : t.closes? = some d) : LeavesOpen ds (ts ++ [t]) := by
  cases h with
  | @opened _ _ o ts us h ho hu =>
    rw [List.append_assoc, List.cons_append]
    exact h.append (.group ho hc hu .nil)

theorem balancedTokens (h : LeavesOpen [] ts) : BalancedTokens ts := by
  cases h with
  | balanced h => exact h

end LeavesOpen

/-- How no group can be read: there is no token, the first one opens no group, a delimiter closes another
group than the innermost open one, or the tokens end with groups still open. -/
inductive GroupFault : List Token → SyntaxError → Prop
  | ended : GroupFault [] (.atEnd .text)
  | unopened {t : Token} {us : List Token} (ho : t.opens? = none) :
      GroupFault (t :: us) ⟨.expected "delimiter" t.value, t.line, t.column⟩
  | mismatched {d e : Delimiter} {ds : List Delimiter} {t u : Token} {read us : List Token}
      (ho : t.opens? = some d) (hr : LeavesOpen ds read) (hc : u.closes? = some e)
      (hne : (ds ++ [d]).head? ≠ some e) :
      GroupFault (t :: (read ++ u :: us)) ⟨.mismatchedDelimiter u.value, u.line, u.column⟩
  | unclosed {d : Delimiter} {ds : List Delimiter} {t : Token} {us : List Token}
      (ho : t.opens? = some d) (hr : LeavesOpen ds us) : GroupFault (t :: us) (.atEnd .text)

/-- Behind an opening delimiter the tokens close its group, or they fail to. -/
theorem closes_or_fault (ho : t.opens? = some d) (hr : LeavesOpen ds read) (us : List Token) :
    (∃ inner closer outer, read ++ us = inner ++ closer :: outer ∧ BalancedTokens inner ∧
        closer.closes? = some d) ∨ ∃ e, GroupFault (t :: (read ++ us)) e := by
  induction us generalizing ds read with
  | nil =>
    rw [List.append_nil]
    exact .inr ⟨_, .unclosed ho hr⟩
  | cons u us ih =>
    cases huo : u.opens? with
    | some e =>
      rw [List.append_cons]
      exact ih (hr.opener huo)
    | none =>
      cases huc : u.closes? with
      | none =>
        rw [List.append_cons]
        exact ih (hr.plain huo huc)
      | some e =>
        by_cases hhead : (ds ++ [d]).head? = some e
        · cases ds with
          | nil =>
            -- no group within the first one is open, so it is the first one that ends here
            obtain rfl := Option.some.inj hhead
            exact .inl ⟨read, u, us, rfl, hr.balancedTokens, huc⟩
          | cons d' ds =>
            obtain rfl := Option.some.inj hhead
            rw [List.append_cons]
            exact ih (hr.closer huc)
        · exact .inr ⟨_, .mismatched ho hr huc hhead⟩

/-- At the head of some tokens a group stands, or there is a fault. -/
theorem group_or_fault (ts : List Token) :
    (∃ G outer, ts = TokenGroup.tokens G ++ outer) ∨ ∃ e, GroupFault ts e := by
  cases ts with
  | nil => exact .inr ⟨_, .ended⟩
  | cons t us =>
    cases ho : t.opens? with
    | none => exact .inr ⟨_, .unopened ho⟩
    | some d =>
      refine (closes_or_fault ho (.balanced .nil) us).imp_left ?_
      rintro ⟨inner, closer, outer, hus, hi, hc⟩
      refine ⟨⟨d, t, inner, closer, ho, hc, hi⟩, outer, ?_⟩
      rw [TokenGroup.tokens, List.cons_append, List.append_assoc, List.singleton_append, ← hus,
        List.nil_append]

namespace Parse

/-! ### Reading -/

theorem closeGroups_leavesOpen (h : LeavesOpen ds read) (e : Delimiter) (es : List Delimiter)
    (last : Int) (us : List Token) :
    closeGroups (e :: es) last (read ++ us) = closeGroups (ds ++ e :: es) last us := by
  induction h generalizing us with
  | balanced h => exact closeGroups_balanced h us
  | @opened d ds t ts vs _ ho hv ih =>
    have hopen (ds' : List Delimiter) (hne : ds' ≠ []) :
        closeGroups ds' last (t :: (vs ++ us)) = closeGroups (d :: ds') last us := by
      obtain ⟨d', ds', rfl⟩ := List.exists_cons_of_ne_nil hne
      rw [closeGroups_opener ho, closeGroups_balanced hv, closeGroups_last]
    rw [List.append_assoc, List.cons_append, ih, hopen _ (by simp), List.cons_append]

theorem readGroup_fault {e : SyntaxError} {ts : List Token} (h : GroupFault ts e) (last : Int) :
    readGroup ⟨ts, last⟩ = .error (.rejected e) := by
  cases h with
  | ended => rfl
  | unopened ho =>
    rw [readGroup, bind_of_ok rfl]
    simp only [ho]
    rfl
  | @mismatched d e ds t u read us ho hr hc hne =>
    have hfails : closeGroups [d] t.hi (read ++ u :: us) =
        .error ⟨.mismatchedDelimiter u.value, u.line, u.column⟩ := by
      rw [closeGroups_leavesOpen hr]
      obtain ⟨d', ds', hds⟩ := List.exists_cons_of_ne_nil (l := ds ++ [d]) (by simp)
      rw [hds] at hne ⊢
      simp only [closeGroups, Token.opens?_of_closes? hc, hc]
      exact if_neg fun heq => hne (congrArg some heq.symm)
    rw [readGroup_opener ho, hfails]
  | @unclosed d ds t us ho hr =>
    have hfails : closeGroups [d] t.hi us = .error (.atEnd .text) := by
      rw [← List.append_nil us, closeGroups_leavesOpen hr]
      obtain ⟨d', ds', hds⟩ := List.exists_cons_of_ne_nil (l := ds ++ [d]) (by simp)
      rw [hds]
      rfl
    rw [readGroup_opener ho, hfails]

end Parse

/-! ### The shortest run -/

/-- A run of tokens, one at least, at the head of others that is balanced and no longer than any other. -/
structure ShortestBalanced (group ts : List Token) : Prop where
  ne_nil : group ≠ []
  heads : group <+: ts
  balanced : BalancedTokens group
  le : ∀ p, p <+: ts → p ≠ [] → BalancedTokens p → group.length ≤ p.length

theorem ShortestBalanced.unique (h : ShortestBalanced us ts) (h' : ShortestBalanced vs ts) : us = vs := by
  have hle := h.le vs h'.heads h'.ne_nil h'.balanced
  exact (List.prefix_of_prefix_length_le h.heads h'.heads hle).eq_of_length
    (Nat.le_antisymm hle (h'.le us h.heads h.ne_nil h.balanced))

namespace TokenGroup

/-- Balanced tokens that begin with an opening delimiter begin with a group. -/
theorem exists_of_balanced (hb : BalancedTokens (t :: ts)) (ho : t.opens? ≠ none) :
    ∃ G : TokenGroup, ∃ us, t :: ts = G.tokens ++ us := by
  cases hb with
  | plain hno => exact absurd hno ho
  | @group d t u ts us ho hc hi hs =>
    refine ⟨⟨d, t, ts, u, ho, hc, hi⟩, us, ?_⟩
    rw [tokens, List.cons_append, List.append_assoc, List.singleton_append]

theorem exists_of_heads (ho : ∃ t ∈ ts.head?, t.opens? ≠ none) (hp : us <+: ts) (hne : us ≠ [])
    (hb : BalancedTokens us) :
    ∃ G : TokenGroup, ∃ outer vs, ts = G.tokens ++ outer ∧ us = G.tokens ++ vs := by
  obtain ⟨rest, rfl⟩ := hp
  obtain ⟨t, us, rfl⟩ := List.exists_cons_of_ne_nil hne
  obtain ⟨_, ht, ho⟩ := ho
  obtain rfl := Option.some.inj ht
  obtain ⟨G, vs, hG⟩ := exists_of_balanced hb ho
  exact ⟨G, vs ++ rest, vs, by rw [hG, List.append_assoc], hG⟩

/-- Two groups at the head of the same tokens are the same tokens, since they are read alike. -/
theorem tokens_eq {G G' : TokenGroup} {outer outer' : List Token}
    (h : G.tokens ++ outer = G'.tokens ++ outer') : G.tokens = G'.tokens := by
  have hread := Parse.readGroup_group G outer 0
  rw [h, Parse.readGroup_group] at hread
  have houter : outer' = outer := congrArg (·.2.rest) (Except.ok.inj hread)
  exact List.append_cancel_right (houter ▸ h)

theorem opens_head (G : TokenGroup) (outer : List Token) :
    ∃ t ∈ (G.tokens ++ outer).head?, t.opens? ≠ none :=
  ⟨G.opener, rfl, by rw [G.opens]; nofun⟩

theorem shortest (G : TokenGroup) (outer : List Token) :
    ShortestBalanced G.tokens (G.tokens ++ outer) where
  ne_nil := List.cons_ne_nil _ _
  heads := List.prefix_append _ _
  balanced := G.balancedTokens
  le p hp hne hb := by
    obtain ⟨G', outer', vs, hts, rfl⟩ := exists_of_heads (G.opens_head outer) hp hne hb
    rw [tokens_eq hts, List.length_append]
    exact Nat.le_add_right _ _

/-- The shortest balanced run behind an opening delimiter is a group. -/
theorem shortest_iff : (∃ t ∈ ts.head?, t.opens? ≠ none) ∧ ShortestBalanced us ts ↔
    ∃ G : TokenGroup, us = G.tokens ∧ us <+: ts := by
  constructor
  · rintro ⟨ho, hs⟩
    obtain ⟨G, outer, -, rfl, -⟩ := exists_of_heads ho hs.heads hs.ne_nil hs.balanced
    exact ⟨G, hs.unique (G.shortest outer), hs.heads⟩
  · rintro ⟨G, rfl, outer, rfl⟩
    exact ⟨G.opens_head outer, G.shortest outer⟩

end TokenGroup

namespace Parse

variable {last : Int} {closer : Token} {c' : Cursor} {f : Failure}

theorem readGroup_eq_ok_iff : readGroup ⟨ts, last⟩ = .ok (closer, c') ↔
    ∃ G : TokenGroup, closer = G.closer ∧ c'.last = G.closer.hi ∧ ts = G.tokens ++ c'.rest := by
  constructor
  · intro h
    rcases group_or_fault ts with ⟨G, outer, rfl⟩ | ⟨e, he⟩
    · rw [readGroup_group] at h
      obtain ⟨rfl, rfl⟩ := Prod.mk.inj (Except.ok.inj h)
      exact ⟨G, rfl, rfl, rfl⟩
    · rw [readGroup_fault he] at h
      cases h
  · rintro ⟨G, rfl, hhi, rfl⟩
    rw [readGroup_group, ← hhi]

theorem readGroup_eq_error_iff : readGroup ⟨ts, last⟩ = .error f ↔
    ∃ e, f = .rejected e ∧ GroupFault ts e := by
  constructor
  · intro h
    rcases group_or_fault ts with ⟨G, outer, rfl⟩ | ⟨e, he⟩
    · rw [readGroup_group] at h
      cases h
    · rw [readGroup_fault he] at h
      exact ⟨e, (Except.error.inj h).symm, he⟩
  · rintro ⟨e, rfl, he⟩
    exact readGroup_fault he last

/-- A group is read just if the first token opens one and some run of tokens from there on is balanced;
then the shortest such run is read, and its last token given. Otherwise reading is rejected for a fault. -/
theorem readGroup_exact (c : Cursor) :
    ((∃ r, readGroup c = .ok r) ↔
      (∃ t ∈ c.rest.head?, t.opens? ≠ none) ∧ ∃ p, p <+: c.rest ∧ p ≠ [] ∧ BalancedTokens p) ∧
      (∀ closer c', readGroup c = .ok (closer, c') ↔
        (∃ t ∈ c.rest.head?, t.opens? ≠ none) ∧ ∃ group, ShortestBalanced group c.rest ∧
          c.rest = group ++ c'.rest ∧ group.getLast? = some closer ∧ c'.last = closer.hi) ∧
      ∀ f, readGroup c = .error f ↔ ∃ e, f = .rejected e ∧ GroupFault c.rest e := by
  obtain ⟨ts, last⟩ := c
  refine ⟨?_, fun closer c' => ?_, fun f => readGroup_eq_error_iff⟩
  · constructor
    · rintro ⟨⟨closer, c'⟩, h⟩
      obtain ⟨G, -, -, rfl⟩ := readGroup_eq_ok_iff.1 h
      refine ⟨G.opens_head c'.rest, G.tokens, List.prefix_append .., ?_, G.balancedTokens⟩
      exact List.cons_ne_nil _ _
    · rintro ⟨ho, p, hp, hne, hb⟩
      obtain ⟨G, outer, -, rfl, -⟩ := TokenGroup.exists_of_heads ho hp hne hb
      exact ⟨_, readGroup_group G outer last⟩
  · have hlast (G : TokenGroup) : G.tokens.getLast? = some G.closer :=
      G.getLast?_of_suffix (List.suffix_refl _) (List.cons_ne_nil _ _)
    rw [readGroup_eq_ok_iff]
    constructor
    · rintro ⟨G, rfl, hhi, rfl⟩
      obtain ⟨ho, hgroup⟩ := TokenGroup.shortest_iff.2 ⟨G, rfl, List.prefix_append G.tokens c'.rest⟩
      exact ⟨ho, G.tokens, hgroup, rfl, hlast G, hhi⟩
    · rintro ⟨ho, group, hgroup, hrest, hcloser, hhi⟩
      obtain ⟨G, rfl, -⟩ := TokenGroup.shortest_iff.1 ⟨ho, hgroup⟩
      obtain rfl := Option.some.inj ((hlast G).symm.trans hcloser)
      exact ⟨G, rfl, hhi, hrest⟩

end Parse

end BuilderMigration
