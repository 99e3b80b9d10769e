import BuilderMigration.Proofs.Tree.Named
import BuilderMigration.Proofs.Tree.Nesting
import BuilderMigration.Typing.Resolve

/-! Types traced back to names. A type comes from one that is written, from a call or from the
signature of a method; what holds of these, and passes from a builder to what its calls give back,
holds of every type that is worked out. -/

namespace BuilderMigration

variable {N : String → Prop} {Q : Ty → Prop}

/-! ### Where a type comes from -/

/-- What a property of types has to hold of so as to hold of all of them. -/
structure Names.Keeps (n : Names) (N : String → Prop) (Q : Ty → Prop) : Prop where
  written : ∀ ty : Ty, ty.Written N → Q (n.resolve ty)
  call : ∀ ty result : Ty, Q ty → n.callType (some ty) = some result → Q result
  closureArg : ∀ (receiver : Option Ty) (method builder : String), (∀ ty ∈ receiver, Q ty) →
    N method → n.closureBuilder receiver method = some builder → Q (n.closureArg builder)

/-- The imports and globs of a file have names of the file. -/
theorem Names.ofModule_written {m : Module} (settings : Settings)
    (h : ∀ i ∈ m.items, i.Written N) :
    (∀ i ∈ (ofModule settings m).imports, i.Named N) ∧
      ∀ path ∈ (ofModule settings m).globs, ∀ s ∈ path, N s := by
  have hnodes : ∀ x ∈ m.tree.preorder, x.Named N fun _ => False :=
    Node.forall_preorder (x := .module m) (fun _ _ => Node.Named.child) h
  have huse {x : Node} (hx : x ∈ m.tree.preorder) :
      (∀ i ∈ importsOf x, i.Named N) ∧ ∀ path ∈ globsOf x, ∀ s ∈ path, N s := by
    have hnamed := hnodes x hx
    unfold importsOf globsOf
    cases x with
    | item i =>
      cases i with
      | «use» span imports globs =>
        rw [Node.Named, Item.Named] at hnamed
        exact hnamed
      | _ => simp
    | _ => simp
  constructor
  · intro i hi
    obtain ⟨x, hx, hix⟩ := List.mem_flatMap.1 (List.mem_filter.1 (List.mem_reverse.1 hi)).1
    exact (huse hx).1 i hix
  · intro path hpath
    obtain ⟨x, hx, hpx⟩ := List.mem_flatMap.1 hpath
    exact (huse hx).2 path hpx

/-- The types that are known of names in view. -/
def Scope.Known (Q : Ty → Prop) (scope : Scope) : Prop := ∀ p ∈ scope, ∀ ty ∈ p.2, Q ty

namespace Scope.Known

variable {scope : Scope}

theorem nil : Scope.Known Q [] := nofun

theorem typeOf (h : scope.Known Q) (name : String) : ∀ ty ∈ scope.typeOf name, Q ty := by
  induction scope with
  | nil => exact nofun
  | cons p scope ih =>
    obtain ⟨hp, hscope⟩ := List.forall_mem_cons.1 h
    obtain ⟨x, ty⟩ := p
    by_cases hx : x = name
    · simpa [Scope.typeOf, Assoc.get?, hx] using hp
    · simpa [Scope.typeOf, Assoc.get?, hx] using ih hscope

theorem bind {ty : Option Ty} (h : scope.Known Q) (p : Pattern) (hty : ∀ t ∈ ty, Q t) :
    (scope.bind p ty).Known Q := by
  cases p with
  | binding span name mutable => exact List.forall_mem_cons.2 ⟨hty, h⟩
  | other span => exact h

theorem bindParams {params : List Param} (h : scope.Known Q) (hp : ∀ p ∈ params, ∀ ty ∈ p.ty, Q ty) :
    (scope.bindParams params).Known Q := by
  induction params generalizing scope with
  | nil => exact h
  | cons p params ih =>
    obtain ⟨hp, hparams⟩ := List.forall_mem_cons.1 hp
    exact ih (h.bind p.pattern hp) hparams

end Scope.Known

/-- The type that is known of an expression is one of those in it. -/
theorem Expr.Named.ty {e : Expr} (h : e.Named N Q) : ∀ ty ∈ e.ty?, Q ty := by
  cases e with
  | path span ty segments =>
    rw [Expr.Named] at h
    exact h.1
  | methodCall span ty receiver method args =>
    rw [Expr.Named] at h
    exact h.1
  | compound span ty kind parts =>
    rw [Expr.Named] at h
    exact h.1
  | _ => simp [Expr.ty?]

/-! ### Parameters -/

namespace Names.Keeps

variable {n : Names}

theorem declared {ty : Option Ty} (h : n.Keeps N Q) (hty : ∀ t ∈ ty, t.Written N) :
    ∀ t ∈ ty.map n.resolve, Q t := by
  intro t ht
  obtain ⟨u, hu, rfl⟩ := Option.map_eq_some_iff.1 ht
  exact h.written u (hty u hu)

theorem fnParams {params : List Param} (h : n.Keeps N Q) (hp : ∀ p ∈ params, p.Written N) :
    ∀ p ∈ n.fnParams params, p.Named N Q := by
  intro p hmem
  obtain ⟨q, hq, rfl⟩ := List.mem_map.1 hmem
  exact ⟨(hp q hq).pattern, (hp q hq).declared, h.declared (hp q hq).declared⟩

theorem closureParams {params : List Param} (h : n.Keeps N Q) (hp : ∀ p ∈ params, p.Written N)
    {builder : Option String} (hb : ∀ b ∈ builder, Q (n.closureArg b)) :
    ∀ p ∈ n.closureParams builder params, p.Named N Q := by
  intro p hmem
  obtain ⟨q, hq, rfl⟩ := List.mem_map.1 hmem
  have hpattern := (hp q hq).pattern
  have hdeclared := (hp q hq).declared
  split
  · next ty hty =>
    refine ⟨hpattern, hdeclared, fun t ht => ?_⟩
    obtain rfl := Option.some.inj ht
    exact h.written ty (hdeclared ty hty)
  · next b _ _ =>
    refine ⟨hpattern, hdeclared, fun t ht => ?_⟩
    obtain rfl := Option.some.inj ht
    exact hb b rfl
  · exact ⟨hpattern, hdeclared, nofun⟩

theorem callType {receiver : Option Ty} (h : n.Keeps N Q) (hr : ∀ ty ∈ receiver, Q ty) :
    ∀ ty ∈ n.callType receiver, Q ty := by
  cases receiver with
  | none => exact nofun
  | some ty => exact fun result => h.call ty result (hr ty rfl)

theorem compoundType {kind : CompoundKind} {parts : List Expr} (hp : ∀ e ∈ parts, e.Named N Q) :
    ∀ ty ∈ Names.compoundType kind parts, Q ty := by
  cases parts with
  | nil => exact nofun
  | cons e es =>
    intro ty hty
    simp only [Names.compoundType, Option.mem_ite_none_right] at hty
    exact (hp e (List.mem_cons_self ..)).ty ty hty.2

/-! ### Trees -/

theorem stmts_letStmt (n : Names) (scope : Scope) (span : Span) (pattern : Pattern)
    (declared : Option Ty) (init : Option Expr) (otherwise : Option Block) (ss : List Stmt) :
    n.stmts scope (.letStmt span pattern declared init otherwise :: ss) =
      let init := init.map (n.expr scope)
      let rest := n.stmts (scope.bind pattern ((declared.map n.resolve).or (init.bind (·.ty?)))) ss
      (rest.1, .letStmt span pattern declared init (otherwise.map (n.block scope)) :: rest.2) := by
  cases init <;> cases otherwise <;> rfl

mutual

theorem expr (h : n.Keeps N Q) {scope : Scope} (hs : scope.Known Q) :
    ∀ e : Expr, e.Written N → (n.expr scope e).Named N Q
  | .path span ty [], he => by
    rw [Expr.Written, Expr.Named] at he
    exact ⟨by simp, he.2⟩
  | .path span ty [name], he => by
    rw [Expr.Written, Expr.Named] at he
    exact ⟨hs.typeOf name, he.2⟩
  | .path span ty (a :: b :: segments), he => by
    rw [Expr.Written, Expr.Named] at he
    exact ⟨by simp, he.2⟩
  | .lit span kind, _ => trivial
  | .methodCall span ty receiver method es, he => by
    rw [Expr.Written, Expr.Named] at he
    obtain ⟨-, hr, hm, hes⟩ := he
    have hr := h.expr hs receiver hr
    rw [Names.expr, Expr.Named]
    refine ⟨h.callType hr.ty, hr, hm, h.args hs (fun b hb => ?_) es hes⟩
    exact h.closureArg _ method b hr.ty hm hb
  | .closure span params body captures, he => by
    rw [Expr.Written, Expr.Named] at he
    obtain ⟨hp, hb⟩ := he
    have hnone : ∀ b ∈ (none : Option String), Q (n.closureArg b) := by simp
    have hp := h.closureParams hp hnone
    rw [Names.expr, Expr.Named]
    exact ⟨hp, h.expr (hs.bindParams fun p hmem => (hp p hmem).ty) body hb⟩
  | .block b, he => by
    rw [Expr.Written, Expr.Named] at he
    rw [Names.expr, Expr.Named]
    exact h.block hs b he
  | .macroCall span path delimiter es, he => by
    rw [Expr.Written, Expr.Named] at he
    rw [Names.expr, Expr.Named]
    exact h.exprs hs es he
  | .compound span ty kind parts, he => by
    rw [Expr.Written, Expr.Named] at he
    have hparts := h.exprs hs parts he.2
    rw [Names.expr, Expr.Named]
    exact ⟨compoundType (exprsNamed_iff.1 hparts), hparts⟩

theorem args (h : n.Keeps N Q) {scope : Scope} (hs : scope.Known Q) {builder : Option String}
    (hb : ∀ b ∈ builder, Q (n.closureArg b)) :
    ∀ es : List Expr, ExprsNamed N (fun _ => False) es → ExprsNamed N Q (n.args scope builder es)
  | [], _ => trivial
  | e :: es, hes => by
    rw [ExprsNamed] at hes
    have hrest := h.args hs hb es hes.2
    cases e with
    | closure span params body captures =>
      have he := hes.1
      rw [Expr.Named] at he
      have hp := h.closureParams he.1 hb
      rw [Names.args, ExprsNamed, Expr.Named]
      exact ⟨⟨hp, h.expr (hs.bindParams fun p hmem => (hp p hmem).ty) body he.2⟩, hrest⟩
    | _ =>
      simp only [Names.args, ExprsNamed]
      exact ⟨h.expr hs _ hes.1, hrest⟩

theorem exprs (h : n.Keeps N Q) {scope : Scope} (hs : scope.Known Q) :
    ∀ es : List Expr, ExprsNamed N (fun _ => False) es → ExprsNamed N Q (n.exprs scope es)
  | [], _ => trivial
  | e :: es, hes => by
    rw [ExprsNamed] at hes
    rw [Names.exprs, ExprsNamed]
    exact ⟨h.expr hs e hes.1, h.exprs hs es hes.2⟩

theorem block (h : n.Keeps N Q) {scope : Scope} (hs : scope.Known Q) :
    ∀ b : Block, b.Written N → (n.block scope b).Named N Q
  | .mk span kind ss none, hb => by
    rw [Block.Written, Block.Named] at hb
    rw [Names.block, Block.Named]
    exact ⟨(h.stmts hs ss hb.1).2, trivial⟩
  | .mk span kind ss (some e), hb => by
    rw [Block.Written, Block.Named] at hb
    obtain ⟨hscope, hss⟩ := h.stmts hs ss hb.1
    rw [Names.block, Block.Named]
    exact ⟨hss, h.expr hscope e hb.2⟩

theorem stmts (h : n.Keeps N Q) {scope : Scope} (hs : scope.Known Q) :
    ∀ ss : List Stmt, StmtsNamed N (fun _ => False) ss →
      (n.stmts scope ss).1.Known Q ∧ StmtsNamed N Q (n.stmts scope ss).2
  | [], _ => ⟨hs, trivial⟩
  | .letStmt span pattern declared init otherwise :: ss, hss => by
    rw [StmtsNamed, Stmt.named_letStmt] at hss
    obtain ⟨⟨hp, hd, hi, ho⟩, hss⟩ := hss
    have hinit : ∀ e ∈ init.map (n.expr scope), e.Named N Q := by
      cases init with
      | none => simp
      | some e => exact fun _ he => Option.some.inj he ▸ h.expr hs e (hi e rfl)
    have hotherwise : ∀ b ∈ otherwise.map (n.block scope), b.Named N Q := by
      cases otherwise with
      | none => simp
      | some b => exact fun _ hb => Option.some.inj hb ▸ h.block hs b (ho b rfl)
    have hbound : ∀ ty ∈ (declared.map n.resolve).or ((init.map (n.expr scope)).bind (·.ty?)), Q ty := by
      intro ty hmem
      rcases Option.or_eq_some_iff.1 hmem with hmem | ⟨-, hmem⟩
      · exact h.declared hd ty hmem
      · obtain ⟨e, he, het⟩ := Option.bind_eq_some_iff.1 hmem
        exact (hinit e he).ty ty het
    have hrest := h.stmts (hs.bind pattern hbound) ss hss
    rw [stmts_letStmt, StmtsNamed, Stmt.named_letStmt]
    exact ⟨hrest.1, ⟨hp, hd, hinit, hotherwise⟩, hrest.2⟩
  | .semi span e :: ss, hss => by
    rw [StmtsNamed, Stmt.Named] at hss
    have hrest := h.stmts hs ss hss.2
    rw [Names.stmts, StmtsNamed, Stmt.Named]
    exact ⟨hrest.1, h.expr hs e hss.1, hrest.2⟩
  | .expr span e :: ss, hss => by
    rw [StmtsNamed, Stmt.Named] at hss
    have hrest := h.stmts hs ss hss.2
    rw [Names.stmts, StmtsNamed, Stmt.Named]
    exact ⟨hrest.1, h.expr hs e hss.1, hrest.2⟩
  | .item span i :: ss, hss => by
    rw [StmtsNamed, Stmt.Named] at hss
    have hrest := h.stmts hs ss hss.2
    rw [Names.stmts, StmtsNamed, Stmt.Named]
    exact ⟨hrest.1, h.item i hss.1, hrest.2⟩

theorem item (h : n.Keeps N Q) : ∀ i : Item, i.Written N → (n.item i).Named N Q
  | .fn span name params none, hi => by
    rw [Item.Written, Item.Named] at hi
    rw [Names.item, Item.Named]
    exact ⟨h.fnParams hi.1, trivial⟩
  | .fn span name params (some body), hi => by
    rw [Item.Written, Item.Named] at hi
    have hp := h.fnParams hi.1
    rw [Names.item, Item.Named]
    exact ⟨hp, h.block (Scope.Known.nil.bindParams fun p hmem => (hp p hmem).ty) body hi.2⟩
  | .use span imports globs, hi => by
    rw [Item.Written, Item.Named] at hi
    rw [Names.item, Item.Named]
    exact hi
  | .container span kind is, hi => by
    rw [Item.Written, Item.Named] at hi
    rw [Names.item, Item.Named]
    exact h.items is hi
  | .other span, _ => trivial

theorem items (h : n.Keeps N Q) :
    ∀ is : List Item, ItemsNamed N (fun _ => False) is → ItemsNamed N Q (n.items is)
  | [], _ => trivial
  | i :: is, his => by
    rw [ItemsNamed] at his
    rw [Names.items, ItemsNamed]
    exact ⟨h.item i his.1, h.items is his.2⟩

end

end Names.Keeps

end BuilderMigration
