import BuilderMigration.Proofs.Idiom.Recognition
import Mathlib.Data.List.Forall2

/-! Recognition where receivers have to be known, against recognition where they need not be. What
the first finds the second finds too, with more builder closures among its arguments. -/

namespace BuilderMigration

/-! ### Builders of one shape -/

section Shape

variable {α : Type}

/-- Calls of one name whose arguments are related. -/
inductive Call.Alike (R : α → α → Prop) : Call α → Call α → Prop
  | mk (field : String) {args args' : List α} (h : List.Forall₂ R args args') :
      Alike R ⟨field, args⟩ ⟨field, args'⟩

/-- Chains on one receiver, the same calls one behind the other. -/
inductive Chain.Alike (R : α → α → Prop) : Chain α → Chain α → Prop
  | mk (receiver : String) (builder : Option String) {calls calls' : List (Call α)}
      (h : List.Forall₂ (Call.Alike R) calls calls') :
      Alike R ⟨receiver, builder, calls⟩ ⟨receiver, builder, calls'⟩

/-- Statements of one kind in one place. -/
inductive Prelude.Alike (R : α → α → Prop) : Prelude α → Prelude α → Prop
  | verbatim (span : Span) : Alike R (.verbatim span) (.verbatim span)
  | assignment {c c' : Chain α} (h : Chain.Alike R c c') (span : Span) :
      Alike R (.assignment c span) (.assignment c' span)

/-- Closures for one builder in one place. -/
inductive Closure.Alike (R : α → α → Prop) : Closure α → Closure α → Prop
  | mk (builder binding : String) (span : Span) {stmts stmts' : List (Prelude α)}
      {chain chain' : Chain α} (hs : List.Forall₂ (Prelude.Alike R) stmts stmts')
      (hc : Chain.Alike R chain chain') :
      Alike R ⟨builder, binding, stmts, chain, span⟩ ⟨builder, binding, stmts', chain', span⟩

variable {R : α → α → Prop}

theorem Chain.Alike.receiver {c c' : Chain α} (h : Chain.Alike R c c') :
    c.receiver = c'.receiver := by
  cases h with
  | mk receiver builder h => rfl

theorem Chain.Alike.append {c c' : Chain α} {args args' : List α} (h : Chain.Alike R c c')
    (field : String) (ha : List.Forall₂ R args args') :
    Chain.Alike R (c.append ⟨field, args⟩) (c'.append ⟨field, args'⟩) := by
  cases h with
  | mk receiver builder h => exact .mk receiver builder (List.rel_append h (.cons (.mk field ha) .nil))

end Shape

/-- An argument against one that is recognised with fewer demands: source text can have become a
closure of the same place. -/
inductive Arg.Relaxes : Arg → Arg → Prop
  | literal (span : Span) (path : Option (List String)) :
      Relaxes (.literal span path) (.literal span path)
  | lifted (path : Option (List String)) (c : BuilderClosure) :
      Relaxes (.literal c.span path) (.closure c)
  | closure {c c' : BuilderClosure} (h : Closure.Alike Relaxes c c') :
      Relaxes (.closure c) (.closure c')

/-! ### Receivers -/

/-- Settings under which a chain is followed only from a known builder. -/
abbrev Settings.strict (settings : Settings) : Settings :=
  { settings with strictReceivers := true }

/-- Settings under which a chain is followed from any name. -/
abbrev Settings.lax (settings : Settings) : Settings :=
  { settings with strictReceivers := false }

variable {settings : Settings}

theorem chainStart?_of_strict {e : Expr} {c : BuilderChain}
    (h : chainStart? settings true e = some c) (strict : Bool) :
    chainStart? settings strict e = some c := by
  obtain ⟨name, hn, rfl, hb⟩ := chainStart?_eq_some settings h
  obtain ⟨builder, hb⟩ := Option.isSome_iff_exists.1 (hb rfl)
  simp only [chainStart?, hn, hb]

/-- A chain from a known builder is one from any name. -/
theorem chain?_of_strict {e : Expr} {c : BuilderChain} (h : chain? settings true e = some c)
    (strict : Bool) : chain? settings strict e = some c := by
  induction e using Expr.recognition_induction generalizing c with
  | methodCall span ty receiver method args hr =>
    rw [chain?_methodCall] at h ⊢
    obtain ⟨c₀, hc₀, rfl⟩ := Option.map_eq_some_iff.1 h
    refine Option.map_eq_some_iff.2 ⟨c₀, ?_, rfl⟩
    obtain hc₀ | ⟨hnone, hc₀⟩ := Option.or_eq_some_iff.1 hc₀
    · exact Option.or_eq_some_iff.2 (.inl (hr hc₀))
    · -- a name is no call, so that no chain comes before the start
      have hname : receiver.name?.isSome := by
        obtain ⟨name, hn, -⟩ := chainStart?_eq_some settings hc₀
        rw [hn, Option.isSome_some]
      have hchain : chain? settings strict receiver = none := by
        cases receiver with
        | methodCall => cases hname
        | _ => simp only [chain?]
      rw [hchain, Option.none_or]
      exact chainStart?_of_strict hc₀ strict
  | closure => simp only [chain?, reduceCtorEq] at h
  | other e hcall _ =>
    cases e with
    | methodCall => exact (hcall _ _ _ _ _ rfl).elim
    | _ => simp only [chain?, reduceCtorEq] at h

theorem builderClosure?_span {e : Expr} {c : BuilderClosure} (h : builderClosure? settings e = some c) :
    c.span = e.span := by
  cases e with
  | closure span params body captures =>
    rw [builderClosure?_closure] at h
    obtain ⟨b, -, h⟩ := Option.bind_eq_some_iff.1 h
    obtain ⟨chain, -, rfl⟩ := Option.map_eq_some_iff.1 h
    rfl
  | _ => simp only [builderClosure?, reduceCtorEq] at h

/-! ### Expressions -/

/-- An expression with the same chain under both settings and, if a builder is recognised in it
under the strict ones, with a builder of the same shape under the lax ones. -/
def Expr.Relaxes (settings : Settings) (e : Expr) : Prop :=
  (∀ strict, Option.Rel (Chain.Alike Arg.Relaxes) (chain? settings.strict strict e)
      (chain? settings.lax strict e)) ∧
    ∀ c, builderClosure? settings.strict e = some c →
      ∃ c', builderClosure? settings.lax e = some c' ∧ Closure.Alike Arg.Relaxes c c'

namespace Expr.Relaxes

theorem classifyArg {e : Expr} (h : e.Relaxes settings) :
    Arg.Relaxes (BuilderMigration.classifyArg settings.strict e)
      (BuilderMigration.classifyArg settings.lax e) := by
  unfold BuilderMigration.classifyArg
  cases hc : builderClosure? settings.strict e with
  | some c =>
    obtain ⟨c', hc', hcc'⟩ := h.2 c hc
    rw [hc']
    exact .closure hcc'
  | none =>
    cases hc' : builderClosure? settings.lax e with
    | none => exact .literal _ _
    | some c' =>
      rw [← builderClosure?_span hc']
      exact .lifted _ c'

theorem classifyAll {es : List Expr} (h : ∀ e ∈ es, e.Relaxes settings) :
    List.Forall₂ Arg.Relaxes (classifyAll settings.strict es) (classifyAll settings.lax es) := by
  rw [classifyAll_eq_map, classifyAll_eq_map, List.forall₂_map_left_iff, List.forall₂_map_right_iff,
    List.forall₂_same]
  exact fun e he => (h e he).classifyArg

theorem stmtChain? {s : Stmt} (h : ∀ span e, s = .semi span e → e.Relaxes settings) (strict : Bool) :
    Option.Rel (Chain.Alike Arg.Relaxes) (stmtChain? settings.strict strict s)
      (stmtChain? settings.lax strict s) := by
  cases s with
  | semi span e => exact (h span e rfl).1 strict
  | _ => exact .none

theorem preludeOf {s : Stmt} (binding : String)
    (h : ∀ span e, s = .semi span e → e.Relaxes settings) :
    Prelude.Alike Arg.Relaxes (preludeOf settings.strict binding s)
      (preludeOf settings.lax binding s) := by
  unfold BuilderMigration.preludeOf
  generalize hs : BuilderMigration.stmtChain? settings.strict true s = a
  generalize hl : BuilderMigration.stmtChain? settings.lax true s = b
  have hab : Option.Rel (Chain.Alike Arg.Relaxes) a b := hs ▸ hl ▸ stmtChain? h true
  cases hab with
  | none => exact .verbatim _
  | some hc =>
    dsimp only
    rw [hc.receiver]
    split
    · exact .assignment hc _
    · exact .verbatim _

theorem preludes {ss : List Stmt} (binding : String)
    (h : ∀ span e, .semi span e ∈ ss → e.Relaxes settings) :
    List.Forall₂ (Prelude.Alike Arg.Relaxes) (preludes settings.strict binding ss)
      (preludes settings.lax binding ss) := by
  rw [preludes_eq_map, preludes_eq_map, List.forall₂_map_left_iff, List.forall₂_map_right_iff,
    List.forall₂_same]
  exact fun s hs => preludeOf binding fun span e he => h span e (he ▸ hs)

/-- The end of a body, known receiver or not. -/
theorem closureTail? {e : Expr} (h : e.Relaxes settings) {binding : String} {c : BuilderChain}
    (hc : closureTail? settings.strict binding e = some c) :
    ∃ c', closureTail? settings.lax binding e = some c' ∧ Chain.Alike Arg.Relaxes c c' := by
  cases e with
  | methodCall span ty receiver method args =>
    simp only [BuilderMigration.closureTail?] at hc ⊢
    have hrel := h.1 true
    rw [hc] at hrel
    generalize hl : chain? settings.lax true (.methodCall span ty receiver method args) = b at hrel
    cases hrel with
    | some hcc' => exact ⟨_, chain?_of_strict hl false, hcc'⟩
  | _ =>
    simp only [BuilderMigration.closureTail?, Option.ite_none_right_eq_some, Option.some.injEq] at hc ⊢
    exact ⟨c, hc, by rw [← hc.2]; exact .mk binding none .nil⟩

end Expr.Relaxes

theorem chainStart?_lax (strict : Bool) (e : Expr) :
    chainStart? settings.strict strict e = chainStart? settings.lax strict e := rfl

/-- What is recognised where receivers have to be known is recognised where they need not be. -/
theorem Expr.relaxes (settings : Settings) (e : Expr) : e.Relaxes settings := by
  induction e using Expr.recognition_induction with
  | methodCall span ty receiver method args hr hargs =>
    refine ⟨fun strict => ?_, fun c hc => ?_⟩
    · rw [chain?_methodCall, chain?_methodCall, ← chainStart?_lax]
      have hchain := hr.1 strict
      generalize chain? settings.strict strict receiver = a at hchain ⊢
      generalize chain? settings.lax strict receiver = b at hchain ⊢
      have happend {a b : BuilderChain} (h : Chain.Alike Arg.Relaxes a b) :=
        Option.Rel.some (h.append method (Expr.Relaxes.classifyAll hargs))
      cases hchain with
      | some h => exact happend h
      | none =>
        rw [Option.none_or]
        cases hstart : chainStart? settings.strict strict receiver with
        | none => exact .none
        | some c =>
          obtain ⟨name, -, rfl, -⟩ := chainStart?_eq_some _ hstart
          exact happend (.mk _ _ .nil)
    · simp only [builderClosure?, reduceCtorEq] at hc
  | closure span params body captures hstmts htail =>
    refine ⟨fun strict => ?_, fun c hc => ?_⟩
    · simp only [chain?]
      exact .none
    · rw [builderClosure?_closure] at hc ⊢
      obtain ⟨b, hb, hc⟩ := Option.bind_eq_some_iff.1 hc
      obtain ⟨chain, hchain, rfl⟩ := Option.map_eq_some_iff.1 hc
      obtain ⟨chain', hchain', halike⟩ := htail.closureTail? hchain
      have hb' : builderBinding? settings.lax params = some b := hb
      rw [hb', Option.bind_some, hchain', Option.map_some]
      exact ⟨_, rfl, .mk b.2 b.1 span (Expr.Relaxes.preludes b.1 hstmts) halike⟩
  | other e hcall hclosure =>
    cases e with
    | methodCall => exact (hcall _ _ _ _ _ rfl).elim
    | closure => exact (hclosure _ _ _ _ rfl).elim
    | _ =>
      refine ⟨fun strict => ?_, fun c hc => ?_⟩
      · simp only [chain?]
        exact .none
      · simp only [builderClosure?, reduceCtorEq] at hc

end BuilderMigration
