import BuilderMigration.Proofs.Idiom.Nests

/-! The grammar of builder closures, said by the shapes of the tree alone, and recognition against it:
it accepts the closures of the grammar and no others, and what it makes of one has a part for each part
of the closure, in the same place and order. -/

namespace BuilderMigration

variable {settings : Settings} {binding builder : String}

/-! ### The closures of the grammar -/

/-- A parameter under a plain or mutable name that is known to be a mutable reference to a builder. -/
inductive Param.Binds (settings : Settings) : Param → String → String → Prop
  | mk (span nameSpan : Span) {binding builder : String} (mutable : Bool) (declared : Option Ty)
      {inner : Ty} (h : inner.IsBuilder settings builder) :
      Binds settings ⟨span, .binding nameSpan binding mutable, declared, some (.ref inner true)⟩
        binding builder

/-- What a body consists of: one expression, or the statements of a plain block and its tail. -/
inductive Expr.Body : Expr → List Stmt → Expr → Prop
  | alone (e : Expr) : Body e [] e
  | block (span : Span) (stmts : List Stmt) (tail : Expr) :
      Body (.block (.mk span .plain stmts (some tail))) stmts tail

/-- What a body may end in: a nest of calls that makes a chain, or the binding alone. -/
def Expr.Ends (settings : Settings) (binding : String) (e : Expr) : Prop :=
  (∃ name, e.Unravels settings settings.strictReceivers name) ∨ e.name? = some binding

/-- A closure of one parameter that configures a builder. -/
inductive Expr.Configures (settings : Settings) : Expr → Prop
  | mk (span : Span) (captures : Bool) {p : Param} {binding builder : String} {body tail : Expr}
      {stmts : List Stmt} (hp : p.Binds settings binding builder) (hbody : body.Body stmts tail)
      (htail : tail.Ends settings binding) : Configures settings (.closure span [p] body captures)

/-- A nest of calls with a semicolon, made on the binding, which is known to be a builder. -/
inductive Stmt.Assigns (settings : Settings) (binding : String) : Stmt → Prop
  | mk (span : Span) {e : Expr} (h : e.Unravels settings true binding) :
      Assigns settings binding (.semi span e)

/-! ### What the parts of a closure become -/

mutual

/-- An argument is a closure of the grammar, or else text in its place. -/
inductive Arg.Lifts (settings : Settings) : Expr → Arg → Prop
  | closure {e : Expr} {c : BuilderClosure} (h : Closure.Lifts settings e c) :
      Arg.Lifts settings e (.closure c)
  | literal {e : Expr} (h : ¬ e.Configures settings) :
      Arg.Lifts settings e (.literal e.span e.segments?)

/-- A closure in its place, with a statement for each statement of its body. -/
inductive Closure.Lifts (settings : Settings) : Expr → BuilderClosure → Prop
  | mk (span : Span) (captures : Bool) {p : Param} {binding builder : String} {body tail : Expr}
      {stmts : List Stmt} {preludes : List BuilderPrelude} {chain : BuilderChain}
      (hp : p.Binds settings binding builder) (hbody : body.Body stmts tail)
      (hstmts : Prelude.AllLift settings binding stmts preludes)
      (htail : Chain.Closes settings binding tail chain) :
      Closure.Lifts settings (.closure span [p] body captures)
        ⟨builder, binding, preludes, chain, span⟩

/-- Statements in their order, one for each. -/
inductive Prelude.AllLift (settings : Settings) : String → List Stmt → List BuilderPrelude → Prop
  | nil {binding : String} : Prelude.AllLift settings binding [] []
  | cons {binding : String} {s : Stmt} {p : BuilderPrelude} {ss : List Stmt}
      {ps : List BuilderPrelude} (h : Prelude.Lifts settings binding s p)
      (hs : Prelude.AllLift settings binding ss ps) :
      Prelude.AllLift settings binding (s :: ss) (p :: ps)

/-- A statement in its place: a chain on the binding, or text as it is. -/
inductive Prelude.Lifts (settings : Settings) : String → Stmt → BuilderPrelude → Prop
  | assignment (span : Span) {e : Expr} {c : BuilderChain} (h : Chain.Lifts settings true e c) :
      Prelude.Lifts settings c.receiver (.semi span e) (.assignment c span)
  | verbatim {binding : String} {s : Stmt} (h : ¬ s.Assigns settings binding) :
      Prelude.Lifts settings binding s (.verbatim s.span)

/-- The chain that a body ends in, which is of no calls where the binding stands alone. -/
inductive Chain.Closes (settings : Settings) : String → Expr → BuilderChain → Prop
  | nest {binding : String} {e : Expr} {c : BuilderChain}
      (h : Chain.Lifts settings settings.strictReceivers e c) : Chain.Closes settings binding e c
  | bare {binding : String} {e : Expr} (h : e.name? = some binding) :
      Chain.Closes settings binding e ⟨binding, none, []⟩

/-- The chain of a nest: on its name, with the builder that the name is known to be, and with its calls
leftmost first. -/
inductive Chain.Lifts (settings : Settings) : Bool → Expr → BuilderChain → Prop
  | mk {strict : Bool} {e base : Expr} {name : String} {builder : Option String}
      {calls : List BuilderCall} (hbase : e.base? = some base)
      (hname : base.Begins settings strict name)
      (hbuilder : ∀ b, builder = some b ↔ ∃ ty, base.ty? = some ty ∧ ty.IsBuilder settings b)
      (hcalls : List.Forall₂ (Call.Lifts settings) e.invocations calls) :
      Chain.Lifts settings strict e ⟨name, builder, calls⟩

/-- A call of the same name with its arguments in their order. -/
inductive Call.Lifts (settings : Settings) : Invocation → BuilderCall → Prop
  | mk (ty : Option Ty) (method : String) {es : List Expr} {as : List Arg}
      (h : List.Forall₂ (Arg.Lifts settings) es as) :
      Call.Lifts settings ⟨ty, method, es⟩ ⟨method, as⟩

end

/-! ### Acceptance -/

theorem builderBinding?_eq_some_iff {params : List Param} :
    builderBinding? settings params = some (binding, builder) ↔
      ∃ p, params = [p] ∧ p.Binds settings binding builder := by
  have hmut {ty : Option Ty} : ty.bind (·.mutBuilder? settings) = some builder ↔
      ∃ inner, ty = some (.ref inner true) ∧ inner.IsBuilder settings builder := by
    rcases ty with _ | ty
    · simp
    · cases ty with
      | ref inner mutable => cases mutable <;> simp [Ty.mutBuilder?, Ty.builder?_eq_some_iff]
      | _ => simp [Ty.mutBuilder?]
  constructor
  · intro h
    match params with
    | [] | _ :: _ :: _ => cases h
    | [⟨span, pattern, declared, ty⟩] =>
      cases pattern with
      | other => cases h
      | binding nameSpan name mutable =>
        cases hty : ty.bind (·.mutBuilder? settings) with
        | none => simp [builderBinding?, hty] at h
        | some b =>
          obtain ⟨rfl, rfl⟩ : name = binding ∧ b = builder := by simpa [builderBinding?, hty] using h
          obtain ⟨inner, rfl, hinner⟩ := hmut.1 hty
          exact ⟨_, rfl, .mk span nameSpan mutable declared hinner⟩
  · rintro ⟨_, rfl, hp⟩
    cases hp with
    | @mk _ _ _ _ _ _ inner h =>
      have hty : (some (Ty.ref inner true)).bind (·.mutBuilder? settings) = some builder :=
        hmut.2 ⟨inner, rfl, h⟩
      simp only [builderBinding?, hty]

theorem Expr.body_opened (e : Expr) : e.Body e.opened.1 e.opened.2 := by
  unfold opened
  split
  · exact .block _ _ _
  · exact .alone e

/-- A block is no end of a body, so that a body ends in one way only. -/
theorem Expr.Body.eq_opened {e tail : Expr} {stmts : List Stmt} (h : e.Body stmts tail)
    (htail : tail.Ends settings binding) : e.opened = (stmts, tail) := by
  cases h with
  | block => rfl
  | alone =>
    cases e with
    | block b =>
      rcases htail with ⟨name, base, hbase, -⟩ | hname
      · cases hbase
      · cases hname
    | _ => rfl

theorem closureTail?_eq_some_iff {e : Expr} {c : BuilderChain} :
    closureTail? settings binding e = some c ↔
      chain? settings settings.strictReceivers e = some c ∨
        e.name? = some binding ∧ c = ⟨binding, none, []⟩ := by
  cases e with
  | methodCall => simp [closureTail?, Expr.name?]
  | _ => simp [closureTail?, chain?, eq_comm]

theorem exists_closureTail?_iff {e : Expr} :
    (∃ c, closureTail? settings binding e = some c) ↔ e.Ends settings binding := by
  simp only [closureTail?_eq_some_iff, exists_or, Expr.Ends]
  apply or_congr
  · constructor
    · rintro ⟨c, hc⟩
      exact ⟨c.receiver, exists_chain?_iff.1 ⟨c, hc, rfl⟩⟩
    · rintro ⟨name, h⟩
      obtain ⟨c, hc, -⟩ := exists_chain?_iff.2 h
      exact ⟨c, hc⟩
  · simp

/-- What a recognised closure is made from. -/
theorem builderClosure?_eq_some_iff {e : Expr} {c : BuilderClosure} :
    builderClosure? settings e = some c ↔
      ∃ p body captures, e = .closure c.span [p] body captures ∧
        p.Binds settings c.binding c.builder ∧
        closureTail? settings c.binding body.opened.2 = some c.chain ∧
        c.stmts = body.opened.1.map (preludeOf settings c.binding) := by
  cases e with
  | closure span params body captures =>
    rw [builderClosure?_closure, Option.bind_eq_some_iff]
    constructor
    · rintro ⟨⟨binding, builder⟩, hb, hc⟩
      obtain ⟨chain, hchain, rfl⟩ := Option.map_eq_some_iff.1 hc
      obtain ⟨p, rfl, hp⟩ := builderBinding?_eq_some_iff.1 hb
      exact ⟨p, body, captures, rfl, hp, hchain, preludes_eq_map settings binding _⟩
    · rintro ⟨p, body', captures', he, hp, hchain, hstmts⟩
      cases he
      refine ⟨(c.binding, c.builder), builderBinding?_eq_some_iff.2 ⟨p, rfl, hp⟩, ?_⟩
      rw [hchain, preludes_eq_map, ← hstmts]
      rfl
  | _ => simp [builderClosure?]

/-- Recognition accepts the closures of the grammar. -/
theorem exists_builderClosure?_iff {e : Expr} :
    (∃ c, builderClosure? settings e = some c) ↔ e.Configures settings := by
  constructor
  · rintro ⟨c, hc⟩
    obtain ⟨p, body, captures, rfl, hp, hchain, -⟩ := builderClosure?_eq_some_iff.1 hc
    exact .mk c.span captures hp body.body_opened (exists_closureTail?_iff.1 ⟨_, hchain⟩)
  · intro h
    cases h with
    | @mk span captures p binding builder body tail stmts hp hbody htail =>
      obtain ⟨chain, hchain⟩ := exists_closureTail?_iff.2 htail
      have hopened := hbody.eq_opened htail
      refine ⟨⟨builder, binding, stmts.map (preludeOf settings binding), chain, span⟩,
        builderClosure?_eq_some_iff.2 ⟨p, body, captures, rfl, hp, ?_, ?_⟩⟩
      · rw [hopened]
        exact hchain
      · rw [hopened]

/-! ### Parts -/

/-- A relation that is a function on the members of a list relates the list to its image only. -/
theorem forall₂_iff_eq_map {α β : Type} {R : α → β → Prop} {f : α → β} {as : List α} {bs : List β}
    (h : ∀ a ∈ as, ∀ b, R a b ↔ b = f a) : List.Forall₂ R as bs ↔ bs = as.map f := by
  induction as generalizing bs with
  | nil => simp
  | cons a as ih =>
    rw [List.forall_mem_cons] at h
    cases bs with
    | nil => simp
    | cons b bs => simp [h.1, ih h.2]

/-- Each argument of a nest is related to what it is classified as and to nothing else. -/
def Expr.ArgsLift (settings : Settings) (e : Expr) : Prop :=
  ∀ i ∈ e.invocations, ∀ a ∈ i.args, ∀ x, Arg.Lifts settings a x ↔ x = classifyArg settings a

theorem Call.lifts_iff {i : Invocation} {c : BuilderCall}
    (h : ∀ a ∈ i.args, ∀ x, Arg.Lifts settings a x ↔ x = classifyArg settings a) :
    Call.Lifts settings i c ↔ c = i.call settings := by
  constructor
  · rintro ⟨ty, method, has⟩
    rw [(forall₂_iff_eq_map h).1 has]
    rfl
  · rintro rfl
    exact .mk i.ty i.method ((forall₂_iff_eq_map h).2 rfl)

theorem Chain.lifts_iff {strict : Bool} {e : Expr} {c : BuilderChain} (h : e.ArgsLift settings) :
    Chain.Lifts settings strict e c ↔ chain? settings strict e = some c := by
  have hcalls {calls : List BuilderCall} : List.Forall₂ (Call.Lifts settings) e.invocations calls ↔
      calls = e.invocations.map (·.call settings) :=
    forall₂_iff_eq_map fun i hi _ => Call.lifts_iff (h i hi)
  rw [chain?_eq_some_iff]
  constructor
  · rintro ⟨hbase, hname, hbuilder, hc⟩
    refine ⟨_, hbase, hname, ?_⟩
    rw [hcalls.1 hc]
    congr 1
    ext b
    exact (hbuilder b).trans Expr.typed_iff.symm
  · rintro ⟨base, hbase, hname, hc⟩
    rw [hc]
    exact .mk hbase hname (fun b => Expr.typed_iff) (hcalls.2 rfl)

theorem Stmt.assigns_iff {s : Stmt} :
    s.Assigns settings binding ↔ ∃ c, stmtChain? settings true s = some c ∧ c.receiver = binding := by
  constructor
  · rintro ⟨span, h⟩
    exact exists_chain?_iff.2 h
  · rintro ⟨c, hc, hr⟩
    cases s with
    | semi span e => exact .mk span (exists_chain?_iff.1 ⟨c, hc, hr⟩)
    | _ => cases hc

instance (s : Stmt) : Decidable (s.Assigns settings binding) :=
  decidable_of_iff ((stmtChain? settings true s).any (·.receiver = binding) = true) <| by
    rw [Stmt.assigns_iff, Option.any_eq_true]
    simp only [decide_eq_true_eq]

theorem Prelude.lifts_iff {s : Stmt} {p : BuilderPrelude}
    (h : ∀ span e, s = .semi span e → e.ArgsLift settings) :
    Prelude.Lifts settings binding s p ↔ p = preludeOf settings binding s := by
  constructor
  · intro hp
    cases hp with
    | @assignment span e c hc =>
      have hchain := (Chain.lifts_iff (h span e rfl)).1 hc
      simp [preludeOf, stmtChain?, hchain, Stmt.span]
    | verbatim hs =>
      unfold preludeOf
      split
      · next c hc =>
        rw [if_neg fun hr => hs (Stmt.assigns_iff.2 ⟨c, hc, hr⟩)]
      · rfl
  · rintro rfl
    unfold preludeOf
    split
    · next c hc =>
      by_cases hr : c.receiver = binding
      · rw [if_pos hr]
        cases s with
        | semi span e => exact hr ▸ .assignment span ((Chain.lifts_iff (h span e rfl)).2 hc)
        | _ => cases hc
      · rw [if_neg hr]
        refine .verbatim fun hs => hr ?_
        obtain ⟨c', hc', hr'⟩ := Stmt.assigns_iff.1 hs
        rw [← hr', Option.some.inj (hc.symm.trans hc')]
    · next hnone =>
      refine .verbatim fun hs => ?_
      obtain ⟨c, hc, -⟩ := Stmt.assigns_iff.1 hs
      rw [hc] at hnone
      cases hnone

theorem Prelude.allLift_iff {ss : List Stmt} {ps : List BuilderPrelude}
    (h : ∀ span e, .semi span e ∈ ss → e.ArgsLift settings) :
    Prelude.AllLift settings binding ss ps ↔ ps = ss.map (preludeOf settings binding) := by
  induction ss generalizing ps with
  | nil =>
    constructor
    · rintro ⟨⟩
      rfl
    · rintro rfl
      exact .nil
  | cons s ss ih =>
    have hs {p : BuilderPrelude} : Prelude.Lifts settings binding s p ↔ _ :=
      Prelude.lifts_iff fun span e he => h span e (he ▸ List.mem_cons_self)
    have hss {ps : List BuilderPrelude} : Prelude.AllLift settings binding ss ps ↔ _ :=
      ih fun span e he => h span e (List.mem_cons_of_mem _ he)
    constructor
    · rintro (_ | ⟨hp, hps⟩)
      rw [hs.1 hp, hss.1 hps, List.map_cons]
    · rintro rfl
      exact .cons (hs.2 rfl) (hss.2 rfl)

theorem Chain.closes_iff {e : Expr} {c : BuilderChain} (h : e.ArgsLift settings) :
    Chain.Closes settings binding e c ↔ closureTail? settings binding e = some c := by
  rw [closureTail?_eq_some_iff, ← Chain.lifts_iff h]
  constructor
  · rintro (h | h)
    · exact .inl h
    · exact .inr ⟨h, rfl⟩
  · rintro (h | ⟨h, rfl⟩)
    · exact .nest h
    · exact .bare h

theorem Chain.Closes.ends {e : Expr} {c : BuilderChain} (h : Chain.Closes settings binding e c) :
    e.Ends settings binding := by
  cases h with
  | nest h =>
    cases h with
    | mk hbase hname => exact .inl ⟨_, _, hbase, hname⟩
  | bare h => exact .inr h

theorem Closure.lifts_iff {span : Span} {params : List Param} {body : Expr} {captures : Bool}
    {c : BuilderClosure} (hstmts : ∀ span e, Stmt.semi span e ∈ body.opened.1 → e.ArgsLift settings)
    (htail : body.opened.2.ArgsLift settings) :
    Closure.Lifts settings (.closure span params body captures) c ↔
      builderClosure? settings (.closure span params body captures) = some c := by
  have hpreludes {binding : String} {preludes : List BuilderPrelude} :
      Prelude.AllLift settings binding body.opened.1 preludes ↔ _ :=
    Prelude.allLift_iff hstmts
  rw [builderClosure?_eq_some_iff]
  constructor
  · intro h
    cases h with
    | mk _ _ hp hbody hs ht =>
      have hopened := hbody.eq_opened ht.ends
      rw [hopened] at htail hpreludes
      exact ⟨_, _, _, rfl, hp, by rw [hopened]; exact (Chain.closes_iff htail).1 ht,
        by rw [hopened]; exact hpreludes.1 hs⟩
  · rintro ⟨p, body', captures', he, hp, hchain, hs⟩
    cases he
    exact .mk c.span captures hp body.body_opened (hpreludes.2 hs) ((Chain.closes_iff htail).2 hchain)

/-! ### The grammar as a whole -/

/-- An expression and the arguments below it, each related to what it is classified as. -/
def Expr.Classified (settings : Settings) (e : Expr) : Prop :=
  (∀ c, Closure.Lifts settings e c ↔ builderClosure? settings e = some c) ∧
    e.ArgsLift settings

theorem Expr.Classified.arg {e : Expr} (h : e.Classified settings) (x : Arg) :
    Arg.Lifts settings e x ↔ x = classifyArg settings e := by
  unfold classifyArg
  cases hc : builderClosure? settings e with
  | some c =>
    constructor
    · intro hx
      cases hx with
      | closure hlifts => rw [Option.some.inj (hc.symm.trans ((h.1 _).1 hlifts))]
      | literal hnot => exact (hnot (exists_builderClosure?_iff.1 ⟨c, hc⟩)).elim
    · rintro rfl
      exact .closure ((h.1 c).2 hc)
  | none =>
    constructor
    · intro hx
      cases hx with
      | closure hlifts =>
        rw [(h.1 _).1 hlifts] at hc
        cases hc
      | literal => rfl
    · rintro rfl
      refine .literal fun hconfigures => ?_
      obtain ⟨c, hc'⟩ := exists_builderClosure?_iff.2 hconfigures
      rw [hc] at hc'
      cases hc'

theorem Expr.classified (settings : Settings) (e : Expr) : e.Classified settings := by
  induction e using Expr.recognition_induction with
  | methodCall span ty receiver method args hr hargs =>
    constructor
    · exact fun c => ⟨nofun, nofun⟩
    · intro i hi
      rcases List.mem_append.1 hi with hi | hi
      · exact hr.2 i hi
      · obtain rfl := List.mem_singleton.1 hi
        exact fun a ha => (hargs a ha).arg
  | closure span params body captures hstmts htail =>
    constructor
    · exact fun c => Closure.lifts_iff (fun span e he => (hstmts span e he).2) htail.2
    · exact fun i hi => absurd hi List.not_mem_nil
  | other e hcall hclosure =>
    cases e with
    | methodCall => exact (hcall _ _ _ _ _ rfl).elim
    | closure => exact (hclosure _ _ _ _ rfl).elim
    | _ =>
      constructor
      · exact fun c => ⟨nofun, nofun⟩
      · exact fun i hi => absurd hi List.not_mem_nil

/-- Recognition accepts exactly the closures of the grammar, and what it makes of one is what the parts
of the closure become. -/
theorem builderClosure?_exact (settings : Settings) (e : Expr) :
    ((∃ c, builderClosure? settings e = some c) ↔ e.Configures settings) ∧
      ∀ c, builderClosure? settings e = some c ↔
        Closure.Lifts settings e c :=
  ⟨exists_builderClosure?_iff, fun c => ((e.classified settings).1 c).symm⟩

end BuilderMigration
