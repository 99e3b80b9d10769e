import BuilderMigration.Proofs.Idiom.Nodes
import BuilderMigration.Proofs.Tree.Named

/-! The names that a recognised builder is written with: each is a name of its tree, or the builder of a
type that is known there. -/

namespace BuilderMigration

variable {N : String → Prop} {Q : Ty → Prop} {settings : Settings}

/-! ### Names of lists -/

theorem forall_namesOfCalls {calls : List BuilderCall} : (∀ n ∈ namesOfCalls calls, N n) ↔
    ∀ call ∈ calls, N call.field ∧ ∀ n ∈ namesOfArgs call.args, N n := by
  induction calls with
  | nil => simp [namesOfCalls]
  | cons call calls ih =>
    rw [namesOfCalls, List.forall_mem_cons, List.forall_mem_append, ih, List.forall_mem_cons, and_assoc]

theorem forall_namesOfArgs {as : List Arg} :
    (∀ n ∈ namesOfArgs as, N n) ↔ ∀ a ∈ as, ∀ n ∈ a.names, N n := by
  induction as with
  | nil => simp [namesOfArgs]
  | cons a as ih => rw [namesOfArgs, List.forall_mem_append, ih, List.forall_mem_cons]

theorem forall_namesOfStmts {stmts : List BuilderPrelude} :
    (∀ n ∈ namesOfStmts stmts, N n) ↔ ∀ s ∈ stmts, ∀ n ∈ namesOfStmts [s], N n := by
  induction stmts with
  | nil => simp [namesOfStmts]
  | cons s stmts ih =>
    rw [List.forall_mem_cons, ← ih]
    cases s <;> simp [namesOfStmts, and_assoc, or_imp, forall_and]

theorem BuilderChain.forall_names_append {c : BuilderChain} {field : String} {args : List Arg} :
    (∀ n ∈ BuilderChain.names (c.append ⟨field, args⟩), N n) ↔
      (∀ n ∈ BuilderChain.names c, N n) ∧ N field ∧ ∀ n ∈ namesOfArgs args, N n := by
  simp only [names, Chain.append, List.forall_mem_cons, forall_namesOfCalls, List.forall_mem_append,
    and_assoc, List.not_mem_nil, false_implies, implies_true, and_true]

theorem BuilderClosure.forall_names {c : BuilderClosure} : (∀ n ∈ c.names, N n) ↔
    N c.builder ∧ N c.binding ∧ (∀ n ∈ namesOfStmts c.stmts, N n) ∧
      ∀ n ∈ namesOfCalls c.chain.calls, N n := by
  obtain ⟨builder, binding, stmts, ⟨receiver, base, calls⟩, span⟩ := c
  simp only [names, Arg.names, List.forall_mem_cons, List.forall_mem_append]

/-! ### Names of recognised builders -/

/-- A type that is no builder, or one whose name has a property. -/
def Ty.BuilderIs (settings : Settings) (N : String → Prop) (ty : Ty) : Prop :=
  ∀ builder ∈ ty.builder? settings, N builder

/-- An expression whose chain and whose builder are written with names that have a property. -/
structure Expr.WrittenWith (settings : Settings) (N : String → Prop) (e : Expr) : Prop where
  chain : ∀ strict c, chain? settings strict e = some c → ∀ n ∈ BuilderChain.names c, N n
  closure : ∀ c, builderClosure? settings e = some c → ∀ n ∈ c.names, N n

theorem Expr.WrittenWith.args {es : List Expr} (h : ∀ e ∈ es, e.WrittenWith settings N) :
    ∀ n ∈ namesOfArgs (classifyAll settings es), N n := by
  rw [classifyAll_eq_map, forall_namesOfArgs, List.forall_mem_map]
  intro e he
  unfold classifyArg
  cases hc : builderClosure? settings e with
  | none => simp [Arg.names]
  | some c => exact (h e he).closure c hc

theorem Expr.WrittenWith.stmt {s : Stmt} {binding : String}
    (h : ∀ span e, s = .semi span e → e.WrittenWith settings N) :
    ∀ n ∈ namesOfStmts [preludeOf settings binding s], N n := by
  unfold preludeOf
  cases hc : stmtChain? settings true s with
  | none => simp [namesOfStmts]
  | some c =>
    dsimp only
    split
    · cases s with
      | semi span e =>
        have hnames := (h span e rfl).chain true c hc
        simpa [namesOfStmts, BuilderChain.names] using hnames
      | _ => cases hc
    · simp [namesOfStmts]

theorem Expr.WrittenWith.tail {e : Expr} (h : e.WrittenWith settings N) {binding : String}
    {c : BuilderChain} (hc : closureTail? settings binding e = some c) :
    ∀ n ∈ namesOfCalls c.calls, N n := by
  cases e with
  | methodCall =>
    have hnames := h.chain _ c hc
    exact (List.forall_mem_cons.1 hnames).2
  | _ =>
    simp only [closureTail?, Option.ite_none_right_eq_some, Option.some.injEq] at hc
    obtain ⟨-, rfl⟩ := hc
    simp [namesOfCalls]

theorem Expr.Named.name? {e : Expr} {name : String} (h : e.Named N Q) (hn : e.name? = some name) :
    N name := by
  cases e with
  | path span ty segments =>
    rw [Expr.Named] at h
    cases segments with
    | nil => cases hn
    | cons segment segments =>
      cases segments with
      | nil => exact h.2 name (by simpa [Expr.name?] using Option.mem_def.2 hn.symm)
      | cons => cases hn
  | _ => cases hn

/-- The statements and the end of a body. -/
theorem Expr.Named.opened {e : Expr} (h : e.Named N Q) :
    (∀ s ∈ e.opened.1, s.Named N Q) ∧ e.opened.2.Named N Q := by
  unfold Expr.opened
  split
  · rw [Expr.Named, Block.named_mk] at h
    exact ⟨h.1, h.2 _ rfl⟩
  · exact ⟨by simp, h⟩

theorem named_of_builderBinding? (hself : N "self") {params : List Param} {b : String × String}
    (h : ∀ p ∈ params, p.Named N (Ty.BuilderIs settings N)) (hb : builderBinding? settings params = some b) :
    N b.1 ∧ N b.2 := by
  unfold builderBinding? at hb
  split at hb
  · next p =>
    obtain ⟨hpattern, -, hty⟩ := h p (List.mem_singleton_self p)
    split at hb
    · next name mutable builder hp hbuilder =>
      obtain rfl := Option.some.inj hb
      rw [hp] at hpattern
      refine ⟨hpattern.elim id fun h => h ▸ hself, ?_⟩
      obtain ⟨ty, hmem, hmut⟩ := Option.bind_eq_some_iff.1 hbuilder
      have hnamed := hty ty hmem
      cases ty with
      | ref inner mutable =>
        cases mutable with
        | true => exact hnamed builder hmut
        | false => cases hmut
      | _ => cases hmut
    · cases hb
  · cases hb

/-- A builder is written with names of its tree and builders of types in it. -/
theorem Expr.writtenWith (hself : N "self") (e : Expr) (h : e.Named N (Ty.BuilderIs settings N)) :
    e.WrittenWith settings N := by
  induction e using Expr.recognition_induction with
  | methodCall span ty receiver method args hr hargs =>
    rw [Expr.Named] at h
    obtain ⟨-, hreceiver, hmethod, hes⟩ := h
    refine ⟨fun strict c hc => ?_, fun c hc => (by cases hc)⟩
    rw [chain?_methodCall] at hc
    obtain ⟨c₀, hc₀, rfl⟩ := Option.map_eq_some_iff.1 hc
    rw [BuilderChain.forall_names_append]
    refine ⟨?_, hmethod, Expr.WrittenWith.args fun a ha => hargs a ha (exprsNamed_iff.1 hes a ha)⟩
    rcases Option.or_eq_some_iff.1 hc₀ with hc₀ | ⟨-, hc₀⟩
    · exact (hr hreceiver).chain strict c₀ hc₀
    · obtain ⟨name, hname, rfl, -⟩ := chainStart?_eq_some settings hc₀
      simpa [BuilderChain.names, namesOfCalls] using hreceiver.name? hname
  | closure span params body captures hstmts htail =>
    rw [Expr.Named] at h
    obtain ⟨hparams, hbody⟩ := h
    refine ⟨fun strict c hc => (by cases hc), fun c hc => ?_⟩
    rw [builderClosure?_closure] at hc
    obtain ⟨b, hb, hc⟩ := Option.bind_eq_some_iff.1 hc
    obtain ⟨chain, hchain, rfl⟩ := Option.map_eq_some_iff.1 hc
    obtain ⟨hbinding, hbuilder⟩ := named_of_builderBinding? hself hparams hb
    refine BuilderClosure.forall_names.2 ⟨hbuilder, hbinding, ?_, (htail hbody.opened.2).tail hchain⟩
    rw [preludes_eq_map, forall_namesOfStmts, List.forall_mem_map]
    intro s hs
    have hnamed := hbody.opened.1 s hs
    refine Expr.WrittenWith.stmt fun span e he => ?_
    subst he
    rw [Stmt.Named] at hnamed
    exact hstmts span e hs hnamed
  | other e hcall hclosure =>
    cases e with
    | methodCall => exact (hcall _ _ _ _ _ rfl).elim
    | closure => exact (hclosure _ _ _ _ rfl).elim
    | _ => exact ⟨fun strict c hc => (by cases hc), fun c hc => (by cases hc)⟩

end BuilderMigration
