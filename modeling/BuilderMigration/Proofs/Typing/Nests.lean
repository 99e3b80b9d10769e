import BuilderMigration.Proofs.Typing.BuilderNames
import BuilderMigration.Proofs.Typing.Scoping

/-! Nests of calls, to working out types and to recognition. They go down a nest each for itself: the
one carries the type of what the nest is made on outwards, the other gathers the calls. -/

namespace BuilderMigration

variable {settings : Settings} {n : Names} {scope : Scope} {m : Module}

/-- The builder that the signatures give for closures passed to a method of a builder: the one for this
builder before the one for any builder. -/
def Signatures.given? (t : Signatures) (builder method : String) : Option String :=
  (Assoc.get? (builder, method) t.nested).or (Assoc.get? (anyBuilder, method) t.nested)

/-- A call of a nest on the builder `builder`, whose type without references is `ty`. It is a mutable
reference to the builder, and a closure without a written type that it is passed is typed as the
signatures say, or not at all. -/
structure Invocation.OnBuilder (settings : Settings) (builder : String) (ty : Ty) (i : Invocation) :
    Prop where
  result : i.ty = some (.ref ty true)
  closures (span : Span) (p : Param) (body : Expr) (captures : Bool)
    (h : .closure span [p] body captures ∈ i.args) (hp : p.declared = none) :
    p.ty = ((Signatures.ofSettings settings).given? builder i.method).map fun b =>
      .ref (.adt [settings.builderCrate, settings.builderModule, b]) true

theorem Ty.builder?_congr {ty ty' : Ty} (h : ty.stripRefs = ty'.stripRefs) :
    ty.builder? settings = ty'.builder? settings := by
  rw [builder?, h, builder?]

namespace Names

/-- A closure among arguments is one that the method was given, with its parameters typed by the
builder that the method gives. -/
theorem exists_closure_of_args {builder : Option String} {es : List Expr} {span : Span}
    {params : List Param} {body : Expr} {captures : Bool}
    (h : .closure span params body captures ∈ n.args scope builder es) :
    ∃ params', params = n.closureParams builder params' := by
  induction es with
  | nil => cases h
  | cons e es ih =>
    cases e with
    | closure span' params' body' captures' =>
      rcases List.mem_cons.1 h with h | h
      · cases h
        exact ⟨params', rfl⟩
      · exact ih h
    | path span' ty segments =>
      rcases List.mem_cons.1 h with h | h
      · cases segments with
        | nil => cases h
        | cons first more => cases more <;> cases h
      · exact ih h
    | _ =>
      rcases List.mem_cons.1 h with h | h
      · cases h
      · exact ih h

theorem closureParams_undeclared {builder : Option String} {params : List Param} {p : Param}
    (h : [p] = n.closureParams builder params) (hp : p.declared = none) :
    p.ty = builder.map n.closureArg := by
  match params with
  | [] | _ :: _ :: _ => cases h
  | [q] =>
    have hpq := List.singleton_inj.1 h
    cases hq : q.declared with
    | some ty => simp [hpq, hq] at hp
    | none => cases builder <;> simp [hpq, hq]

theorem closureBuilder_of_builder {ty : Ty} {builder : String}
    (h : ty.builder? n.settings = some builder) (method : String) :
    n.closureBuilder (some ty) method = n.signatures.given? builder method := by
  rw [closureBuilder, Option.bind_some, h, Signatures.lookup, Signatures.given?]
  cases Assoc.get? (builder, method) n.signatures.nested <;> rfl

/-- A call is on a builder if what it is made on is a builder, under references or not. -/
theorem onBuilder {receiver ty : Ty} {builder : String} (h : ty.builder? settings = some builder)
    (hreceiver : receiver.stripRefs = ty.stripRefs) (scope : Scope) (method : String) (args : List Expr) :
    Invocation.OnBuilder settings builder ty.stripRefs
      ⟨(ofModule settings m).callType (some receiver), method,
        (ofModule settings m).args scope ((ofModule settings m).closureBuilder receiver method) args⟩ := by
  have hb : receiver.builder? settings = some builder := (Ty.builder?_congr hreceiver).trans h
  constructor
  · simp [callType, ofModule, hb, hreceiver]
  · intro span p body captures hclosure hp
    obtain ⟨params, hparams⟩ := exists_closure_of_args hclosure
    rw [closureParams_undeclared hparams hp, closureBuilder_of_builder hb]
    rfl

/-- The type of what a nest is made on goes through all its calls. -/
theorem onBuilder_of_mem {e base : Expr} {ty : Ty} {builder : String}
    (hbase : ((ofModule settings m).expr scope e).base? = some base) (hty : base.ty? = some ty)
    (hb : ty.builder? settings = some builder) :
    ((ofModule settings m).expr scope e).ty? = some (.ref ty.stripRefs true) ∧
      ∀ i ∈ ((ofModule settings m).expr scope e).invocations,
        i.OnBuilder settings builder ty.stripRefs := by
  induction e using Expr.base?.induct with
  | case1 span given receiver method args ih =>
    rw [Names.expr] at hbase ⊢
    generalize hr : (ofModule settings m).expr scope receiver = r at hbase ih ⊢
    obtain ⟨hin, receiverTy, hrty, hsame⟩ :
        (∀ i ∈ r.invocations, i.OnBuilder settings builder ty.stripRefs) ∧
          ∃ t, r.ty? = some t ∧ t.stripRefs = ty.stripRefs := by
      rcases Option.or_eq_some_iff.1 hbase with hinner | ⟨hnone, hself⟩
      · obtain ⟨hrty, hin⟩ := ih hinner
        exact ⟨hin, _, hrty, ty.stripRefs_stripRefs⟩
      · obtain rfl := Option.some.inj hself
        rw [Expr.invocations_of_base? hnone]
        exact ⟨List.forall_mem_nil _, ty, hty, rfl⟩
    have hcall := onBuilder (m := m) hb hsame scope method args
    rw [Expr.invocations, List.forall_mem_append, List.forall_mem_singleton, hrty]
    exact ⟨hcall.result, hin, hcall⟩
  | case2 e he =>
    cases e with
    | methodCall span ty receiver method args => exact (he span ty receiver method args rfl).elim
    | path span ty segments =>
      cases segments with
      | nil => cases hbase
      | cons first more => cases more <;> cases hbase
    | _ => cases hbase

/-- So it does wherever types have been worked out. -/
theorem WorkedOut.onBuilder {e base : Expr} {ty : Ty} {builder : String}
    (h : WorkedOut (ofModule settings m) scope (.expr e)) (hbase : e.base? = some base)
    (hty : base.ty? = some ty) (hb : ty.builder? settings = some builder) :
    ∀ i ∈ e.invocations, i.OnBuilder settings builder ty.stripRefs := by
  generalize hx : Node.expr e = x at h
  cases h with
  | expr e =>
    cases hx
    exact (onBuilder_of_mem hbase hty hb).2
  | closure =>
    cases hx
    cases hbase
  | _ => cases hx

end Names

/-- A nest of calls makes a chain just if it begins with a name that a chain can begin with, and the
chain has the calls of the nest, leftmost first. In a file, where the nest is made on a builder, every
call is a mutable reference to this builder, and the closures that are passed to it are typed by the
signatures of its method. -/
theorem nests_unravel (settings : Settings) :
    (∀ strict e base, e.base? = some base →
      ((∃ c, chain? settings strict e = some c) ↔ ∃ name, base.Begins settings strict name) ∧
      ∀ c, chain? settings strict e = some c →
        base.name? = some c.receiver ∧
        c.calls.map (fun call => (call.field, call.args.length)) =
          e.invocations.map fun i => (i.method, i.args.length)) ∧
    ∀ (m : Module) (e base : Expr) (ty : Ty) (builder : String),
      .expr e ∈ (m.resolved settings).tree.preorder → e.base? = some base →
      base.ty? = some ty → ty.IsBuilder settings builder →
      ∀ i ∈ e.invocations, i.OnBuilder settings builder ty.stripRefs := by
  constructor
  · intro strict e base hbase
    constructor
    · constructor
      · rintro ⟨c, hc⟩
        obtain ⟨base', hbase', hbegins, -⟩ := chain?_eq_some_iff.1 hc
        obtain rfl := Option.some.inj (hbase.symm.trans hbase')
        exact ⟨c.receiver, hbegins⟩
      · rintro ⟨name, hbegins⟩
        obtain ⟨c, hc, -⟩ := exists_chain?_iff.2 ⟨base, hbase, hbegins⟩
        exact ⟨c, hc⟩
    · intro c hc
      obtain ⟨base', hbase', hbegins, hc⟩ := chain?_eq_some_iff.1 hc
      obtain rfl := Option.some.inj (hbase.symm.trans hbase')
      refine ⟨hbegins.1, ?_⟩
      rw [hc]
      simp [Invocation.call]
  · intro m e base ty builder he hbase hty hb
    obtain ⟨env, hview⟩ :=
      Module.exists_inView (.ofModule settings m) (fun _ => []) (m.resolved settings) _ he
    exact hview.workedOut.onBuilder hbase hty (Ty.builder?_eq_some_iff.2 hb)

/-- A nest on an embed with a closure in the middle. -/
def authorCode : String :=
  "use serenity::builder::CreateEmbed; " ++
    "fn f(e: &mut CreateEmbed) { e.title(1).author(|a| a.name(2)).url(3); }"

/-- The calls of a nest that is made on a builder, and how many calls its chain has. -/
def Node.nest? : Node → Option (String × List String × Nat)
  | .expr e => do
    let base ← e.base?
    let ty ← base.ty?
    let builder ← ty.builder? {}
    let chain ← chain? {} true e
    return (builder, e.invocations.map (·.method), chain.calls.length)
  | .stmt _ | .item _ | .module _ => none

/-- All calls of the nest are on the embed, and its closure is an author's. -/
theorem nests_unravel_author : ∃ m e base ty, readModule authorCode 1 noFile = .ok m ∧
    .expr e ∈ (m.resolved {}).tree.preorder ∧ e.base? = some base ∧ base.ty? = some ty ∧
    ty.IsBuilder {} "CreateEmbed" ∧ e.invocations.map (·.method) = ["title", "author", "url"] ∧
    (∃ name, base.Begins {} true name) ∧
    ∀ i ∈ e.invocations, i.OnBuilder {} "CreateEmbed" ty.stripRefs := by
  have hlook : ((readModule authorCode 1 noFile).toOption.bind fun m =>
      ((m.resolved {}).tree.preorder.findSome? Node.nest?)) =
        some ("CreateEmbed", ["title", "author", "url"], 3) := by
    decide +kernel
  obtain ⟨m, hread, x, hx, hnest⟩ := exists_node hlook
  cases x with
  | expr e =>
    simp only [Node.nest?, bind, Option.bind_eq_some_iff] at hnest
    obtain ⟨base, hbase, ty, hty, builder, hb, c, hc, hall⟩ := hnest
    obtain ⟨rfl, hmethods, -⟩ : builder = "CreateEmbed" ∧
        e.invocations.map (·.method) = ["title", "author", "url"] ∧ c.calls.length = 3 := by
      simpa using hall
    have hbuilder := Ty.builder?_eq_some_iff.1 hb
    obtain ⟨hchains, htypes⟩ := nests_unravel {}
    exact ⟨m, e, base, ty, hread, hx, hbase, hty, hbuilder, hmethods,
      (hchains true e base hbase).1.1 ⟨c, hc⟩, htypes m e base ty _ hx hbase hty hbuilder⟩
  | _ => cases hnest

end BuilderMigration
