import BuilderMigration.Proofs.Halting.Reading
import BuilderMigration.Proofs.Locality.Items

/-! How far a macro call goes. A group that, cut out of its text, is read without a want of tokens is
read alike wherever it stands, and what is no list of expressions is passed over to the delimiter that
closes it. So the call covers its group exactly, unless a list that can be read ends before. -/

namespace BuilderMigration

open Parse

namespace Parse

theorem exists_of_bind {α β : Type} {p : Parse α} {f : α → Parse β} {b : β} {c c' : Cursor}
    (h : (p >>= f) c = .ok (b, c')) : ∃ a c₁, p c = .ok (a, c₁) ∧ f a c₁ = .ok (b, c') := by
  rw [bind_apply] at h
  split at h
  · exact ⟨_, _, ‹_›, h⟩
  · nomatch h

theorem exists_of_expect {v : String} {t : Token} {c c' : Cursor} (h : expect v c = .ok (t, c')) :
    t.is v = true ∧ c = ⟨t :: c'.rest, c.last⟩ ∧ c' = ⟨c'.rest, t.hi⟩ := by
  obtain ⟨_ | ⟨u, us⟩, last⟩ := c
  · nomatch h
  change (if u.is v then next else rejectAt u _) ⟨u :: us, last⟩ = _ at h
  split at h
  · obtain ⟨rfl, rfl⟩ := Prod.mk.inj (Except.ok.inj h)
    exact ⟨‹_›, rfl, rfl⟩
  · nomatch h

end Parse

/-- Whether nothing that is tried of a group as arguments of a macro call, be it the call of the group
or one within it, asks for tokens behind the group. -/
def TokenGroup.SelfContained (G : TokenGroup) : Prop :=
  ∀ depth d us, (us = G.tokens ∨ ∃ m : Token, m.is "!" = true ∧ m :: us <:+ G.tokens) →
    us.head?.bind (·.opens?) = some d → (Grammar.ofDepth depth).ReadsWithin d us

namespace Grammar

variable {G : TokenGroup} {outer : List Token} {g : Grammar}

/-! ### The grammar -/

theorem LocalIn.above (hg : g.LocalIn G outer)
    (hm : ∀ m us d, m :: us <:+ G.tokens → m.is "!" = true → us.head?.bind (·.opens?) = some d →
      g.above.ReadsWithin d us) : g.above.LocalIn G outer where
  ty := hg.typeOf
  useTree := hg.useTreeOf
  expr := hg.exprOf
  operand := hg.operandOf
  unary := hg.unaryOf
  primary := hg.primaryOf
  statementExpr := hg.statementExprOf
  conditional := hg.conditionalOf
  block := hg.blockOf
  item := hg.itemOf
  macros := hm _ _ _

theorem localIn_ofDepth (hs : G.SelfContained) (outer : List Token) (depth : Nat) :
    (ofDepth depth).LocalIn G outer := by
  have hm (depth : Nat) (m : Token) (us : List Token) (d : Delimiter) (hsuf : m :: us <:+ G.tokens)
      (hm : m.is "!" = true) (hd : us.head?.bind (·.opens?) = some d) :
      (ofDepth depth).ReadsWithin d us := hs depth d us (.inr ⟨m, hm, hsuf⟩) hd
  induction depth with
  | zero =>
    exact {
      ty := .endless
      useTree := fun _ => .endless
      expr := fun _ => .endless
      operand := fun _ _ => .endless
      unary := fun _ => .endless
      primary := fun _ => .endless
      statementExpr := .endless
      conditional := .endless
      block := fun _ _ => .endless
      item := .endless
      macros := hm 0 _ _ _ }
  | succ depth ih => exact ih.above (hm (depth + 1))

/-! ### Lists of arguments -/

/-- A list that can be read ends with a token of the group, and it is read alike where the group
stands: the closing delimiter is the only token behind the last argument that it asks for. -/
theorem LocalIn.macroList_ok (hg : g.LocalIn G outer) {ts : List Token} (hs : ts <:+ G.tokens)
    {d : Delimiter} {args : List Expr} {last : Int} {c : Cursor}
    (h : g.macroList d ⟨ts, last⟩ = .ok (args, c)) :
    g.macroList d ⟨ts ++ outer, last⟩ = .ok (args, c.before outer) ∧
      ∃ t, t :: c.rest <:+ ts ∧ c.last = t.hi := by
  obtain ⟨_, c₁, h₁, h⟩ := exists_of_bind h
  obtain ⟨x, c₂, h₂, h⟩ := exists_of_bind h
  obtain ⟨t, c₃, h₃, h⟩ := exists_of_bind h
  obtain ⟨rfl, rfl⟩ := Prod.mk.inj (Except.ok.inj h)
  obtain ⟨ht, hc₂, hc₃⟩ := exists_of_expect h₃
  have l₁ : LocalAt outer ⟨ts, last⟩ (skip 1) (skip 1) :=
    (Local.skip 1).run ⟨ts, last⟩ hs (Nat.zero_le _)
  have hs₁ := l₁.suffix h₁
  have l₂ := (Local.collect (hg.macroTurn d)).run c₁ (hs₁.trans hs) (Nat.zero_le _)
  have hs₂ := l₂.suffix h₂
  have hne₂ : c₂.rest ≠ [] := by rw [hc₂]; exact List.cons_ne_nil _ _
  have hne₁ : c₁.rest ≠ [] := fun hc => hne₂ (List.suffix_nil.1 (hc ▸ hs₂))
  have h₃' : expect d.closing (c₂.before outer) = .ok (t, c₃.before outer) := by
    rw [hc₂, hc₃]
    exact expect_cons ht (c₃.rest ++ outer) c₂.last
  refine ⟨?_, t, ?_, by rw [hc₃]⟩
  · exact (bind_of_ok (l₁.extends h₁ hne₁)).trans
      ((bind_of_ok (l₂.extends h₂ hne₂)).trans (bind_of_ok h₃'))
  · have hrest : c₂.rest = t :: c₃.rest := by rw [hc₂]
    exact hrest ▸ hs₂.trans hs₁

/-! ### Groups that are self-contained -/

instance : DecidablePred Failure.AtEnd
  | .rejected e => inferInstanceAs (Decidable (e.line = 0))
  | .cutStatement => isTrue trivial
  | .endless => isFalse id

instance (g : Grammar) (d : Delimiter) (ts : List Token) : Decidable (g.ReadsWithin d ts) :=
  match h : g.macroList d ⟨ts, 0⟩ with
  | .ok _ => isTrue fun _ he => nomatch h.symm.trans he
  | .error e =>
    if he : e.AtEnd then isFalse fun hr => hr e h he
    else isTrue fun _ he' => Except.error.inj (h.symm.trans he') ▸ he

/-- A grammar that is deeper than there are tokens shows what every deeper one does. -/
theorem ReadsWithin.of_shallow {d : Delimiter} {ts : List Token} (hm : ¬ HasStrayMark ts)
    (h : ∀ depth < ts.length + 2, (ofDepth depth).ReadsWithin d ts) (depth : Nat) :
    (ofDepth depth).ReadsWithin d ts := by
  by_cases hd : depth < ts.length + 2
  · exact h depth hd
  · obtain ⟨more, rfl⟩ := Nat.exists_eq_add_of_le (Nat.le_of_not_lt hd)
    have hhalts := ((haltsBelow_ofDepth (ts.length + 1) (more + 1)).macroList d).run ⟨ts, 0⟩
      (Nat.lt_succ_self _) hm
    intro e he
    refine h (ts.length + 1) (Nat.lt_succ_self _) e (hhalts.1.trans ?_)
    rwa [show ts.length + 1 + (more + 1) = ts.length + 2 + more by omega]

/-- A group without a mark of a macro call in it, of which only the whole has to be looked at. -/
theorem selfContained_of_plain {G : TokenGroup} (hm : ¬ HasStrayMark G.tokens)
    (hp : ∀ t ∈ G.tokens, t.is "!" = false)
    (h : ∀ depth < G.tokens.length + 2, (ofDepth depth).ReadsWithin G.kind G.tokens) :
    G.SelfContained := by
  rintro depth d us (rfl | ⟨m, hmark, hs⟩) hd
  · obtain rfl : d = G.kind := Option.some.inj (hd.symm.trans G.opens)
    exact .of_shallow hm h depth
  · rw [hp m (hs.mem List.mem_cons_self)] at hmark
    nomatch hmark

/-! ### Macro calls -/

/-- Whether the arguments of a macro call are read from a group to the delimiter that closes it, and
the same whatever stands behind. -/
def CoversGroup (g : Grammar) (G : TokenGroup) : Prop :=
  ∃ args, ∀ outer last,
    g.macroArgs G.kind ⟨G.tokens ++ outer, last⟩ = .ok (args, ⟨outer, G.closer.hi⟩)

/-- Where the group alone is read as a list and nothing of it is left, the call covers it. -/
theorem LocalIn.macroArgs_list (hg : g.LocalIn G outer) {args : List Expr} {c : Cursor}
    (h : g.macroList G.kind ⟨G.tokens, 0⟩ = .ok (args, c)) (hc : c.rest = []) (last : Int) :
    g.macroArgs G.kind ⟨G.tokens ++ outer, last⟩ = .ok (args, ⟨outer, G.closer.hi⟩) := by
  obtain ⟨hlist, t, ht, hlast⟩ := hg.macroList_ok (List.suffix_refl _) h
  have hcloser : t = G.closer := by
    rw [hc] at ht
    exact Option.some.inj (TokenGroup.getLast?_of_suffix ht (List.cons_ne_nil t []))
  have hend : c.before outer = ⟨outer, G.closer.hi⟩ := by
    rw [Cursor.before, hc, hlast, hcloser, List.nil_append]
  rw [hend, macroList_last g G.kind (by simp [TokenGroup.tokens]) 0 last] at hlist
  rw [Grammar.macroArgs, orElse, hlist]

/-- Where the group alone is rejected as a list, it is passed over. -/
theorem LocalIn.macroArgs_rejected (hg : g.LocalIn G outer) {e : SyntaxError}
    (h : g.macroList G.kind ⟨G.tokens, 0⟩ = .error (.rejected e))
    (he : ¬ (Failure.rejected e).AtEnd) (last : Int) :
    g.macroArgs G.kind ⟨G.tokens ++ outer, last⟩ = .ok ([], ⟨outer, G.closer.hi⟩) := by
  have hlist : g.macroList G.kind ⟨G.tokens ++ outer, 0⟩ = .error (.rejected e) :=
    ((hg.macroList G.kind).run ⟨G.tokens, 0⟩ (List.suffix_refl _) (Nat.zero_le _)).fails h he nofun
  rw [macroList_last g G.kind (by simp [TokenGroup.tokens]) 0 last] at hlist
  rw [Grammar.macroArgs, orElse, hlist]
  exact bind_of_ok (skipGroup_group G outer last)

/-- The arguments of a macro call cover a self-contained group exactly, wherever it stands, unless a
list that is read from the group alone leaves some of it: a list of expressions ends at the delimiter
that closes the group, and anything else is passed over up to there. -/
theorem coversGroup_iff (G : TokenGroup) (hs : G.SelfContained) (hm : ¬ HasStrayMark G.tokens)
    {depth : Nat} (hd : G.tokens.length < depth) :
    (ofDepth depth).CoversGroup G ↔
      ∀ args c, (ofDepth depth).macroList G.kind ⟨G.tokens, 0⟩ = .ok (args, c) → c.rest = [] := by
  constructor
  · rintro ⟨args₀, h⟩ args c hlist
    have hargs := h [] 0
    rw [List.append_nil, Grammar.macroArgs, orElse, hlist] at hargs
    rw [(Prod.mk.inj (Except.ok.inj hargs)).2]
  · intro hall
    have hg (outer : List Token) := localIn_ofDepth hs outer depth
    cases hlist : (ofDepth depth).macroList G.kind ⟨G.tokens, 0⟩ with
    | ok x =>
      obtain ⟨args, c⟩ := x
      exact ⟨args, fun outer => (hg outer).macroArgs_list hlist (hall args c hlist)⟩
    | error e =>
      have hhead : G.tokens.head?.bind (·.opens?) = some G.kind := G.opens
      have he := hs depth G.kind G.tokens (.inl rfl) hhead e hlist
      cases e with
      | rejected e => exact ⟨[], fun outer => (hg outer).macroArgs_rejected hlist he⟩
      | cutStatement => exact absurd trivial he
      | endless =>
        have hhalts := ((haltsBelow_ofDepth depth 0).macroList G.kind).run ⟨G.tokens, 0⟩ hd hm
        obtain ⟨a, c, ha, -⟩ | ⟨e, he, -, hne⟩ := hhalts.cases
        · rw [hlist] at ha
          cases ha
        · rw [hlist] at he
          exact absurd (Except.error.inj he).symm hne

/-- A struct literal takes any token for the name of a field, an opening delimiter too: this list
ends two tokens before its group. -/
example :
    let ts := (tokenize "(S \x7b a, (, \x7b, b \x7d ) \x7d)" 0).tokens
    ((forTokens ts).macroList .paren ⟨ts, 0⟩).toOption.map (·.2.rest.length) = some 2 := by
  decide +kernel

/-- The group `(a, [b])`. -/
def listGroup : TokenGroup where
  kind := .paren
  opener := ⟨.punct, "(", 0, 1, 1, 1⟩
  inner := [⟨.ident, "a", 1, 2, 1, 2⟩, ⟨.punct, ",", 2, 3, 1, 3⟩, ⟨.punct, "[", 4, 5, 1, 5⟩,
    ⟨.ident, "b", 5, 6, 1, 6⟩, ⟨.punct, "]", 6, 7, 1, 7⟩]
  closer := ⟨.punct, ")", 7, 8, 1, 8⟩
  opens := by decide
  closes := by decide
  balanced := .plain (by decide) (by decide) <| .plain (by decide) (by decide) <|
    @BalancedTokens.group .bracket _ _ [_] [] (by decide) (by decide)
      (.plain (by decide) (by decide) .nil) .nil

theorem coversGroup_listGroup :
    listGroup.SelfContained ∧ ¬ HasStrayMark listGroup.tokens ∧ listGroup.tokens.length < 8 ∧
      (ofDepth 8).CoversGroup listGroup := by
  have hm : ¬ HasStrayMark listGroup.tokens := by decide +kernel
  have hs : listGroup.SelfContained :=
    selfContained_of_plain hm (by decide +kernel) (by decide +kernel)
  have hd : listGroup.tokens.length < 8 := by decide
  refine ⟨hs, hm, hd, (coversGroup_iff listGroup hs hm hd).2 fun args c h => ?_⟩
  have hrest : ((ofDepth 8).macroList .paren ⟨listGroup.tokens, 0⟩).toOption.map (·.2.rest) =
      some [] := by decide +kernel
  rw [show listGroup.kind = .paren from rfl] at h
  rw [h] at hrest
  exact Option.some.inj hrest

/-- The group `(a::<b)`, in which generic arguments begin that do not end. -/
def openGenerics : TokenGroup where
  kind := .paren
  opener := ⟨.punct, "(", 0, 1, 1, 1⟩
  inner := [⟨.ident, "a", 1, 2, 1, 2⟩, ⟨.punct, "::", 2, 4, 1, 3⟩, ⟨.punct, "<", 4, 5, 1, 5⟩,
    ⟨.ident, "b", 5, 6, 1, 6⟩]
  closer := ⟨.punct, ")", 6, 7, 1, 7⟩
  opens := by decide
  closes := by decide
  balanced := .plain (by decide) (by decide) <| .plain (by decide) (by decide) <|
    .plain (by decide) (by decide) <| .plain (by decide) (by decide) .nil

/-- Generic arguments that do not end in the group run on to the next mark that would close them, and
the call takes the text behind its group with it. -/
theorem not_coversGroup :
    let ts := (tokenize "(a::<b), c > (d))" 0).tokens
    ts = openGenerics.tokens ++ ts.drop 6 ∧ ¬ HasStrayMark ts ∧
      ((forTokens ts).macroArgs .paren ⟨ts, 0⟩).toOption.map (·.2.rest) = some [] ∧
      ¬ (forTokens ts).CoversGroup openGenerics := by
  intro ts
  have htokens : ts = openGenerics.tokens ++ ts.drop 6 := by decide +kernel
  have hrun : ((forTokens ts).macroArgs .paren ⟨ts, 0⟩).toOption.map (·.2.rest) = some [] := by
    decide +kernel
  refine ⟨htokens, by decide +kernel, hrun, ?_⟩
  rintro ⟨args, h⟩
  have hgroup := h (ts.drop 6) 0
  rw [← htokens, show openGenerics.kind = .paren from rfl] at hgroup
  rw [hgroup] at hrun
  have hbehind : ts.drop 6 ≠ [] := by decide +kernel
  exact hbehind (Option.some.inj hrun)

end Grammar

end BuilderMigration
