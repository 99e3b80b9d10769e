import BuilderMigration.Proofs.Origin.Makes
import BuilderMigration.Proofs.Tree.Nesting
import Mathlib.Data.List.Forall2

/-! The tokens that nodes are read from: those of a method call from its dot on, and those of a block
statement by statement. What stands in front of a statement, its attributes among them, is no part of
its node. -/

namespace BuilderMigration

/-! ### Groups and attributes -/

/-- A group in brackets, with its delimiters. -/
def Bracketed : List Token → Prop
  | [] => False
  | t :: us => t.opens? = some .bracket ∧ ∃ hi, Parse.closeGroups [.bracket] t.hi us = .ok ⟨[], hi⟩

/-- What may stand in front of a statement. -/
inductive LeadKind where
  | empty | outer | inner
  deriving DecidableEq

/-- An empty statement or an attribute. -/
structure Lead where
  kind : LeadKind
  tokens : List Token

/-- A semicolon alone is an empty statement; an attribute has a mark in front of a group, and with a
second mark it is one of the block around it. -/
inductive Lead.WellFormed : Lead → Prop
  | empty {mark : Token} (h : mark.is ";" = true) : WellFormed ⟨.empty, [mark]⟩
  | outer {mark : Token} {group : List Token} (h : mark.is "#" = true) (hg : Bracketed group) :
      WellFormed ⟨.outer, mark :: group⟩
  | inner {mark bang : Token} {group : List Token} (h : mark.is "#" = true) (hb : bang.is "!" = true)
      (hg : Bracketed group) : WellFormed ⟨.inner, mark :: bang :: group⟩

/-- The tokens of what stands in front of a statement. -/
def Lead.allTokens (leads : List Lead) : List Token := leads.flatMap (·.tokens)

/-- Some tokens are empty statements and attributes. -/
def Leading (us : List Token) : Prop := ∃ leads, (∀ l ∈ leads, l.WellFormed) ∧ Lead.allTokens leads = us

theorem Leading.nil : Leading [] := ⟨[], nofun, rfl⟩

theorem Leading.single {l : Lead} (h : l.WellFormed) : Leading l.tokens :=
  ⟨[l], List.forall_mem_singleton.2 h, List.append_nil _⟩

theorem Leading.append {us vs : List Token} (hu : Leading us) (hv : Leading vs) :
    Leading (us ++ vs) := by
  obtain ⟨ls, hls, rfl⟩ := hu
  obtain ⟨ms, hms, rfl⟩ := hv
  exact ⟨ls ++ ms, List.forall_mem_append.2 ⟨hls, hms⟩, List.flatMap_append⟩

/-! ### Generic arguments -/

/-- Nothing, or generic arguments behind a double colon. -/
def Turbofish (us : List Token) : Prop :=
  us = [] ∨ ∃ t u vs, us = t :: u :: vs ∧ t.is "::" = true ∧ u.is "<" = true

theorem Turbofish.nil : Turbofish [] := .inl rfl

/-! ### Statements -/

/-- A statement in a text: what stands in front of it, its own tokens, and the generic arguments that may
stand behind them, which no field takes. -/
structure Piece where
  leads : List Lead
  own : List Token
  trail : List Token

namespace Piece

def tokens (p : Piece) : List Token := Lead.allTokens p.leads ++ (p.own ++ p.trail)

/-- The outer attributes of a statement: those directly in front of it. -/
def attributes (p : Piece) : List Token :=
  Lead.allTokens (p.leads.reverse.takeWhile (·.kind = .outer)).reverse

/-- The statement that stands at a span is read from a piece of text, which does not end in a dot. -/
structure Of (p : Piece) (s : Span) : Prop where
  leads : ∀ l ∈ p.leads, l.WellFormed
  begins : p.own.head?.map (·.lo) = some s.lo
  ends : p.own.getLast?.map (·.hi) = some s.hi
  trail : Turbofish p.trail
  not_dot : ∀ t ∈ (p.own ++ p.trail).getLast?, t.isPunct "." = false

end Piece

/-- The statements of a block stand in a text, one behind the other and with nothing else between them,
behind the brace that opens the block. -/
def Block.StandsIn (ts : List Token) (b : Block) (pieces : List Piece) : Prop :=
  match b with
  | .mk span _ stmts _ => ∃ before opening rest closing after,
      ts = before ++ opening :: (pieces.flatMap Piece.tokens ++ (rest ++ closing :: after)) ∧
      opening.is "\x7b" = true ∧ closing.is "\x7d" = true ∧ closing.hi = span.hi ∧
      List.Forall₂ Piece.Of pieces (stmts.map Stmt.span)

/-! ### Method calls -/

/-- The tokens of a method call from its dot on. -/
structure CallTokens where
  dot : Token
  name : Token
  generics : List Token
  opening : Token
  inner : List Token
  closing : Token

def CallTokens.tokens (k : CallTokens) : List Token :=
  k.dot :: k.name :: (k.generics ++ k.opening :: (k.inner ++ [k.closing]))

/-- A call is read from its tokens: a dot behind the receiver, a name, perhaps generic arguments behind
a double colon, and the arguments in parentheses. Behind a field as its receiver there may be generic
arguments, too. -/
structure CallTokens.Of (ts : List Token) (k : CallTokens) (span receiver : Span) (method : String)
    (args : List Span) : Prop where
  here : ∃ before trail after, ts = before ++ (trail ++ (k.tokens ++ after)) ∧
    endFrom 0 before = receiver.hi ∧ Turbofish trail
  dot : k.dot.is "." = true
  kind : k.name.kind = .ident
  value : k.name.value = method
  generics : Turbofish k.generics
  opening : k.opening.is "(" = true
  closing : k.closing.is ")" = true
  ends : k.closing.hi = span.hi
  args : ∀ a ∈ args, k.opening.hi ≤ a.lo ∧ a.hi ≤ k.closing.lo

/-! ### Nodes -/

/-- What is known of the tokens that a node is read from. -/
def Node.Sourced (ts : List Token) : Node → Prop
  | .expr (.methodCall span _ receiver method args) =>
    ∃ k : CallTokens, k.Of ts span receiver.span method (args.map Expr.span)
  | .expr (.block b) => ∃ pieces, b.StandsIn ts pieces
  | _ => True

/-- All nodes of a tree are read from their tokens. -/
def Rose.Sourced (ts : List Token) (t : Rose Node) : Prop := ∀ n ∈ t.preorder, n.Sourced ts

theorem Rose.sourced_node {ts : List Token} {n : Node} {kids : List (Rose Node)} :
    (Rose.node n kids).Sourced ts ↔ n.Sourced ts ∧ ∀ k ∈ kids, k.Sourced ts := by
  rw [Sourced, preorder, List.forall_mem_cons]
  refine and_congr_right fun _ => ?_
  induction kids with
  | nil => simp [preorders]
  | cons k kids ih => rw [preorders, List.forall_mem_append, List.forall_mem_cons, ih, Sourced]

/-! ### Passing over attributes -/

/-- Where an attribute begins. -/
def OpensAttribute : List Token → Prop
  | [] => False
  | t :: us => t.is "#" = true ∧
      (us[0]?.any (·.is "[") = true ∨ us[0]?.any (·.is "!") = true ∧ us[1]?.any (·.is "[") = true)

namespace Parse

variable {ts us : List Token} {c c' : Cursor} {last : Int}

theorem closeGroups_nil (last : Int) (us : List Token) : closeGroups [] last us = .ok ⟨us, last⟩ := by
  cases us <;> rfl

/-- The tokens up to the end of some open groups close them with none left over. -/
theorem closeGroups_read {ds : List Delimiter} (h : closeGroups ds last us = .ok c') :
    ∃ read, us = read ++ c'.rest ∧ c'.last = endFrom last read ∧
      closeGroups ds last read = .ok ⟨[], c'.last⟩ := by
  induction us generalizing ds last with
  | nil =>
    cases ds with
    | nil =>
      obtain rfl := Except.ok.inj ((closeGroups_nil last []).symm.trans h)
      exact ⟨[], rfl, rfl, rfl⟩
    | cons d ds => cases h
  | cons t us ih =>
    cases ds with
    | nil =>
      obtain rfl := Except.ok.inj ((closeGroups_nil last (t :: us)).symm.trans h)
      exact ⟨[], rfl, rfl, rfl⟩
    | cons d ds =>
      -- whatever the first token does to the open groups, it does so in front of any other tokens
      have hfirst : ∃ ds', ∀ vs, closeGroups (d :: ds) last (t :: vs) = closeGroups ds' t.hi vs := by
        simp only [closeGroups] at h ⊢
        cases hopen : t.opens? with
        | some e => exact ⟨e :: d :: ds, fun _ => rfl⟩
        | none =>
          cases hclose : t.closes? with
          | none => exact ⟨d :: ds, fun _ => rfl⟩
          | some e =>
            by_cases he : e = d
            · exact ⟨ds, fun _ => if_pos he⟩
            · simp [hopen, hclose, he] at h
      obtain ⟨ds', hds'⟩ := hfirst
      obtain ⟨read, rfl, hlast, hread⟩ := ih ((hds' us).symm.trans h)
      exact ⟨t :: read, rfl, hlast, (hds' read).trans hread⟩

/-- A group is passed over whole. -/
theorem Makes.skipGroup (hc : c.On ts) : Makes skipGroup c fun _ c' => ∃ t us d,
    t.opens? = some d ∧ c.Reads (t :: us) c' ∧ closeGroups [d] t.hi us = .ok ⟨[], c'.last⟩ := by
  rw [skipGroup_eq]
  refine .bind (Yields.next hc).makes fun t c₁ h₁ => ?_
  cases ht : t.opens? with
  | none => exact .rejectAt _ _
  | some d =>
    refine .peek (a := c₁) rfl ?_
    cases hclose : closeGroups [d] c₁.last c₁.rest with
    | error e => exact .throw _
    | ok c₂ =>
      obtain ⟨us, hrest, hlast, hus⟩ := closeGroups_read hclose
      have hread : c₁.Reads us c₂ := ⟨hrest, hlast⟩
      intro _ _ h
      obtain ⟨-, rfl⟩ := Prod.mk.inj (Except.ok.inj (h : Except.ok ((), c₂) = _))
      exact ⟨t, us, d, ht, h₁.reads.trans hread, by rw [← h₁.last]; exact hus⟩

/-- Some tokens are read one by one. -/
theorem Makes.skip (hc : c.On ts) (read : List Token) {rest : List Token} (hr : c.rest = read ++ rest) :
    Makes (skip read.length) c fun _ c' => c.Moves ts c' ∧ c.Reads read c' := by
  induction read generalizing c with
  | nil => exact .pure ⟨hc.stays, .nil c⟩
  | cons t read ih =>
    refine .bind (Yields.next hc).makes fun t' c₁ h₁ => ?_
    obtain ⟨rfl, hrest⟩ := List.cons.inj (hr.symm.trans h₁.rest)
    refine (ih h₁.passes.on hrest.symm).imp fun _ c₂ ⟨h₂, hread⟩ => ?_
    exact ⟨h₁.passes.moves.trans h₂, h₁.reads.trans hread⟩

theorem opens?_of_is {t : Token} {d : Delimiter} (ht : t.is "[" = true) (hd : t.opens? = some d) :
    d = .bracket := by
  rw [Token.is, Bool.and_eq_true, beq_iff_eq] at ht
  simp [Token.opens?, Token.isPunct, ht.2] at hd
  exact hd.2.symm

/-- An attribute is passed over: its marks and its group. -/
theorem Makes.skipAttribute (hc : c.On ts) {marks rest : List Token} {t : Token} {r : Unit ⊕ Unit}
    (hr : c.rest = marks ++ t :: rest) (ht : t.is "[" = true) :
    Makes (do Parse.skip marks.length; Parse.skipGroup; return r) c fun r' c' =>
      r' = r ∧ c.Passes ts c' ∧ ∃ group, Bracketed group ∧ c.Reads (marks ++ group) c' := by
  refine .bind (.skip hc marks hr) fun _ c₁ ⟨h₁, hmarks⟩ => ?_
  refine .bind ((Yields.skipGroup h₁.on).makes.and (.skipGroup h₁.on)) fun _ c₂ h₂ => .pure ?_
  obtain ⟨hp, t', us, d, hd, hread, hclose⟩ := h₂
  have hrest : c₁.rest = t :: rest := List.append_cancel_left (hmarks.rest.symm.trans hr)
  obtain ⟨rfl, -⟩ := List.cons.inj (hrest.symm.trans hread.rest)
  obtain rfl := opens?_of_is ht hd
  exact ⟨rfl, h₁.trans_passes hp, t :: us, ⟨hd, _, hclose⟩, hmarks.trans hread⟩

/-- All attributes are passed over. -/
theorem Makes.skipAttributes (hc : c.On ts) : Makes skipAttributes c fun _ c' =>
    c.Moves ts c' ∧ ¬ OpensAttribute c'.rest ∧ ∃ us, Leading us ∧ c.Reads us c' := by
  refine .iterate (I := fun _ c₁ => ∃ us, Leading us ∧ c.Reads us c₁) hc ⟨[], .nil, .nil c⟩
    fun _ c₁ h₁ ⟨us, hus, hread⟩ => ?_
  have hend (h : ¬ OpensAttribute c₁.rest) : Makes (Pure.pure (.inr ()) : Parse (Unit ⊕ Unit)) c₁
      (StepLeads ts (fun _ c₁ => ∃ us, Leading us ∧ c.Reads us c₁) (fun _ c' =>
        c.Moves ts c' ∧ ¬ OpensAttribute c'.rest ∧ ∃ us, Leading us ∧ c.Reads us c') c₁) :=
    .pure ⟨h₁, h, us, hus, hread⟩
  have hgo (marks : List Token) {rest : List Token} {t : Token} {kind : LeadKind} (hr : c₁.rest = marks ++ t :: rest)
      (ht : t.is "[" = true)
      (hlead : ∀ group, Bracketed group → Lead.WellFormed ⟨kind, marks ++ group⟩) :
      Makes (do Parse.skip marks.length; Parse.skipGroup; return .inl () : Parse (Unit ⊕ Unit)) c₁
        (StepLeads ts (fun _ c₁ => ∃ us, Leading us ∧ c.Reads us c₁) (fun _ c' =>
          c.Moves ts c' ∧ ¬ OpensAttribute c'.rest ∧ ∃ us, Leading us ∧ c.Reads us c') c₁) := by
    refine (skipAttribute h₁.on hr ht).imp fun r c₂ ⟨hr, hp, group, hg, hgroup⟩ => ?_
    subst hr
    exact ⟨hp, _, hus.append (.single (hlead group hg)), hread.trans hgroup⟩
  refine .nextIs "#" (fun t rest hr ht => ?_) fun hno => hend ?_
  · rw [hr] at hgo hend
    refine .looksAt 1 "[" (.ite (fun hb => ?_) fun hb => ?_)
    · obtain _ | ⟨u, rest⟩ := rest
      · simp [hr] at hb
      · exact hgo [t] rfl (by simpa [hr] using hb) fun _ hg => .outer ht hg
    refine .looksAt 1 "!" (.looksAt 2 "[" (.ite (fun hm => ?_) fun hm => hend ?_))
    · obtain _ | ⟨u, _ | ⟨v, rest⟩⟩ := rest
      · simp [hr] at hm
      · simp [hr] at hm
      · rw [hr, Bool.and_eq_true] at hm
        exact hgo [t, u] rfl hm.2 fun _ hg => .inner ht hm.1 hg
    · rintro ⟨-, h | ⟨h, h'⟩⟩
      · exact hb (by simpa [hr] using h)
      · exact hm (by simpa [hr] using ⟨h, h'⟩)
  · cases hr : c₁.rest with
    | nil => exact id
    | cons t rest => exact fun h => Bool.false_ne_true ((hno t rest hr).symm.trans h.1)

/-- Where no attribute begins nothing is passed over. -/
theorem skipAttributes_of_not_opens (h : ¬ OpensAttribute c.rest) : Parse.skipAttributes c = .ok ((), c) := by
  have hlook (k : Nat) (v : String) : looksAt k v c = .ok (c.rest[k]?.any (·.is v), c) := rfl
  refine iterate_of_stop ?_
  rw [nextIs, bind_of_ok (hlook 0 "#")]
  by_cases hmark : c.rest[0]?.any (·.is "#") = true
  · obtain ⟨t, us, hr⟩ : ∃ t us, c.rest = t :: us := by
      cases hr : c.rest with
      | nil => simp [hr] at hmark
      | cons t us => exact ⟨t, us, rfl⟩
    have hno : ¬ (us[0]?.any (·.is "[") = true ∨
        us[0]?.any (·.is "!") = true ∧ us[1]?.any (·.is "[") = true) := fun hb =>
      h (by rw [hr]; exact ⟨by simpa [hr] using hmark, hb⟩)
    have hopen : ¬ c.rest[1]?.any (·.is "[") = true := fun hb => hno (.inl (by simpa [hr] using hb))
    have hinner : ¬ (c.rest[1]?.any (·.is "!") && c.rest[2]?.any (·.is "[")) = true := fun hb =>
      hno (.inr (by simpa [hr] using hb))
    rw [if_pos hmark, bind_of_ok (hlook 1 "["), if_neg hopen, bind_of_ok (hlook 1 "!"),
      bind_of_ok (hlook 2 "["), if_neg hinner]
    rfl
  · rw [if_neg hmark]
    rfl

end Parse

end BuilderMigration
