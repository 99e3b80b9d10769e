import BuilderMigration.Migration.Run
import BuilderMigration.Proofs.Idiom.Nests
import BuilderMigration.Proofs.Migration.Walk
import BuilderMigration.Proofs.Typing.Binders

/-! The types of names against lexical scoping. Working out types sees plain names and no others: a
name has the type that its innermost binder gives it unless that binder is a pattern, and a statement
is rewritten only on the strength of that type. -/

namespace BuilderMigration

/-! ### The names that are seen -/

/-- The plain names among the binders in view, with their types. -/
def Bindings.plain (env : Bindings) : Scope :=
  env.filterMap fun
    | .name x ty => some (x, ty)
    | .pattern _ => none

namespace Bindings

variable {names : Span → List String}

theorem plain_binder (p : Pattern) (ty : Option Ty) (env : Bindings) :
    plain (p.binder names ty :: env) = env.plain.bind p ty := by
  cases p <;> rfl

theorem plain_ofParams {n : Names} {params : List Param} (h : ∀ p ∈ params, n.paramType p = p.ty)
    (env : Bindings) : plain (ofParams n names params ++ env) = env.plain.bindParams params := by
  induction params generalizing env with
  | nil => rfl
  | cons p ps ih =>
    obtain ⟨hp, hps⟩ := List.forall_mem_cons.1 h
    calc plain (ofParams n names (p :: ps) ++ env)
      _ = plain (ofParams n names ps ++ p.pattern.binder names (n.paramType p) :: env) := by
        simp [ofParams]
      _ = (env.plain.bind p.pattern p.ty).bindParams ps := by rw [ih hps, plain_binder, hp]

variable {x : String} {b : Binder} {env : Bindings}

end Bindings

variable {n : Names} {names : Span → List String} {scope : Scope} {env env' : Bindings} {x y : Node}

/-! ### What has been worked out -/

namespace Names

/-- A statement with the types that are known in it. -/
def stmt (n : Names) (scope : Scope) : Stmt → Stmt
  | .letStmt span pattern declared init otherwise =>
    .letStmt span pattern declared (init.map (n.expr scope)) (otherwise.map (n.block scope))
  | .semi span e => .semi span (n.expr scope e)
  | .expr span e => .expr span (n.expr scope e)
  | .item span i => .item span (n.item i)

/-- The names that are seen behind a statement. -/
def behind (n : Names) (scope : Scope) : Stmt → Scope
  | .letStmt _ pattern declared init _ => scope.bind pattern (n.letType declared init)
  | .semi .. | .expr .. | .item .. => scope

theorem plain_binders (names : Span → List String) (s : Stmt) (env : Bindings) :
    Bindings.plain (s.binders n names ++ env) = n.behind env.plain s := by
  cases s with
  | letStmt span pattern declared init otherwise => exact Bindings.plain_binder pattern _ env
  | _ => rfl

theorem paramType_fnParams {params : List Param} :
    ∀ p ∈ n.fnParams params, n.paramType p = p.ty := by
  intro p hp
  obtain ⟨p, -, rfl⟩ := List.mem_map.1 hp
  exact Option.or_self

theorem paramType_closureParams {builder : Option String} {params : List Param} :
    ∀ p ∈ n.closureParams builder params, n.paramType p = p.ty := by
  intro p hp
  obtain ⟨p, -, rfl⟩ := List.mem_map.1 hp
  cases hd : p.declared with
  | some ty => simp [paramType]
  | none => split <;> simp_all [paramType]

theorem stmts_cons (n : Names) (scope : Scope) (s : Stmt) (ss : List Stmt) :
    n.stmts scope (s :: ss) =
      ((n.stmts (n.behind scope (n.stmt scope s)) ss).1,
        n.stmt scope s :: (n.stmts (n.behind scope (n.stmt scope s)) ss).2) := by
  cases s with
  | letStmt span pattern declared init otherwise =>
    cases init <;> cases otherwise <;> rfl
  | _ => rfl

theorem block_mk (n : Names) (scope : Scope) (span : Span) (kind : BlockKind) (stmts : List Stmt)
    (tail : Option Expr) :
    n.block scope (.mk span kind stmts tail) =
      .mk span kind (n.stmts scope stmts).2 (tail.map (n.expr (n.stmts scope stmts).1)) := by
  cases tail <;> rfl

theorem exprs_eq_map (n : Names) (scope : Scope) (es : List Expr) :
    n.exprs scope es = es.map (n.expr scope) := by
  induction es with
  | nil => rfl
  | cons e es ih => rw [exprs, ih, List.map_cons]

theorem items_eq_map (n : Names) (is : List Item) : n.items is = is.map n.item := by
  induction is with
  | nil => rfl
  | cons i is ih => rw [items, ih, List.map_cons]

/-- Nodes in which the types have been worked out with these names in view. -/
inductive WorkedOut (n : Names) (scope : Scope) : Node → Prop where
  | file {m : Module} (is : List Item) : m.items = n.items is → WorkedOut n scope (.module m)
  | item (i : Item) : WorkedOut n scope (.item (n.item i))
  | stmt (s : Stmt) : WorkedOut n scope (.stmt (n.stmt scope s))
  | expr (e : Expr) : WorkedOut n scope (.expr (n.expr scope e))
  /-- A closure that perhaps configures a builder. -/
  | closure (span : Span) (builder : Option String) (params : List Param) (body : Expr)
      (captures : Bool) :
    WorkedOut n scope (.expr (.closure span (n.closureParams builder params)
      (n.expr (scope.bindParams (n.closureParams builder params)) body) captures))

theorem WorkedOut.of_exprs {e : Expr} {es : List Expr} (h : e ∈ n.exprs scope es) :
    WorkedOut n scope (.expr e) := by
  rw [exprs_eq_map] at h
  obtain ⟨e, -, rfl⟩ := List.mem_map.1 h
  exact .expr e

theorem WorkedOut.of_args {e : Expr} {builder : Option String} {es : List Expr}
    (h : e ∈ n.args scope builder es) : WorkedOut n scope (.expr e) := by
  induction es with
  | nil => cases h
  | cons a es ih =>
    cases a with
    | closure span params body captures =>
      rcases List.mem_cons.1 h with rfl | h
      · exact .closure span builder params body captures
      · exact ih h
    | _ =>
      rcases List.mem_cons.1 h with rfl | h
      · exact .expr _
      · exact ih h

theorem WorkedOut.of_items {i : Item} {is : List Item} (h : i ∈ n.items is) :
    WorkedOut n scope (.item i) := by
  rw [items_eq_map] at h
  obtain ⟨i, -, rfl⟩ := List.mem_map.1 h
  exact .item i

/-- What is seen behind statements is what working them out leaves in view. -/
theorem plain_behind (names : Span → List String) (env : Bindings) (ss : List Stmt) :
    (env.behind n names (n.stmts env.plain ss).2).plain = (n.stmts env.plain ss).1 := by
  induction ss generalizing env with
  | nil => rfl
  | cons s ss ih =>
    rw [stmts_cons, Bindings.behind, ← plain_binders names, ih]

theorem WorkedOut.of_stmts {ss : List Stmt}
    (h : (env', y) ∈ stmtsInView n names env (n.stmts env.plain ss).2) :
    WorkedOut n env'.plain y := by
  induction ss generalizing env with
  | nil => cases h
  | cons s ss ih =>
    rw [stmts_cons, stmtsInView] at h
    rcases List.mem_cons.1 h with h | h
    · cases h
      exact .stmt s
    · rw [← plain_binders names] at h
      exact ih h

theorem WorkedOut.of_parts {kind : CompoundKind} {front es : List Expr}
    (hes : ∀ e ∈ es, WorkedOut n env.plain (.expr e))
    (h : (env', y) ∈ partsInView names kind env front es) : WorkedOut n env'.plain y := by
  induction es generalizing front with
  | nil => cases h
  | cons e es ih =>
    rw [List.forall_mem_cons] at hes
    rw [partsInView] at h
    rcases List.mem_cons.1 h with h | h
    · cases h
      split
      · exact hes.1
      · exact hes.1
    · exact ih hes.2 h

/-- Where types have been worked out with the names in view, they have been worked out so in every
node below as well. -/
theorem WorkedOut.below (hx : WorkedOut n env.plain x) (h : (env', y) ∈ x.below n names env) :
    WorkedOut n env'.plain y := by
  cases hx with
  | file is hitems =>
    obtain ⟨i, hi, h⟩ := List.mem_map.1 h
    cases h
    exact .of_items (hitems ▸ hi)
  | item i =>
    cases i with
    | fn span name params body =>
      cases body with
      | none => cases h
      | some b =>
        obtain ⟨rfl, rfl⟩ := Prod.mk.inj (List.mem_singleton.1 h)
        rw [← List.append_nil (Bindings.ofParams ..), Bindings.plain_ofParams paramType_fnParams]
        exact .expr (.block b)
    | container span kind items =>
      obtain ⟨i, hi, h⟩ := List.mem_map.1 h
      cases h
      exact .of_items hi
    | «use» span imports globs => cases h
    | other span => cases h
  | stmt s =>
    cases s with
    | letStmt span pattern declared init otherwise =>
      rcases List.mem_append.1 h with h | h
      · obtain ⟨e, he, h⟩ := List.mem_map.1 h
        cases h
        obtain ⟨e, -, rfl⟩ := Option.map_eq_some_iff.1 (Option.mem_toList.1 he)
        exact .expr e
      · obtain ⟨b, hb, h⟩ := List.mem_map.1 h
        cases h
        obtain ⟨b, -, rfl⟩ := Option.map_eq_some_iff.1 (Option.mem_toList.1 hb)
        exact .expr (.block b)
    | semi span e =>
      cases List.mem_singleton.1 h
      exact .expr e
    | expr span e =>
      cases List.mem_singleton.1 h
      exact .expr e
    | item span i =>
      cases List.mem_singleton.1 h
      exact .item i
  | expr e =>
    cases e with
    | path span ty segments =>
      cases segments with
      | nil => cases h
      | cons name more => cases more <;> cases h
    | lit span kind => cases h
    | methodCall span ty receiver method args =>
      rcases List.mem_cons.1 h with h | h
      · cases h
        exact .expr receiver
      · obtain ⟨e, he, h⟩ := List.mem_map.1 h
        cases h
        exact .of_args he
    | closure span params body captures =>
      cases List.mem_singleton.1 h
      rw [Bindings.plain_ofParams paramType_closureParams]
      exact .expr body
    | block b =>
      obtain ⟨span, kind, stmts, tail⟩ := b
      rw [Names.expr, block_mk] at h
      rcases List.mem_append.1 h with h | h
      · exact .of_stmts h
      · obtain ⟨e, he, h⟩ := List.mem_map.1 h
        cases h
        obtain ⟨e, -, rfl⟩ := Option.map_eq_some_iff.1 (Option.mem_toList.1 he)
        rw [plain_behind]
        exact .expr e
    | macroCall span path delimiter args =>
      obtain ⟨e, he, h⟩ := List.mem_map.1 h
      cases h
      exact .of_exprs he
    | compound span ty kind parts => exact .of_parts (fun _ => .of_exprs) h
  | closure span builder params body captures =>
    cases List.mem_singleton.1 h
    rw [Bindings.plain_ofParams paramType_closureParams]
    exact .expr body

end Names

/-- What is in view at a node is what its types were worked out with. -/
theorem Module.InView.workedOut {settings : Settings} {m : Module}
    (h : (m.resolved settings).InView (.ofModule settings m) names env y) :
    Names.WorkedOut (.ofModule settings m) env.plain y := by
  induction h with
  | root => exact .file m.items rfl
  | step _ hbelow ih => exact ih.below hbelow

/-! ### Chains -/

/-- The name that a statement is a chain of calls on. -/
def Stmt.chainName? : Stmt → Option String
  | .semi _ e => e.chainName?
  | _ => none

/-- The same is in view at a chain and at what it is made on. -/
theorem Module.InView.base {m : Module} {e base : Expr} (h : m.InView n names env (.expr e))
    (hbase : e.base? = some base) : m.InView n names env (.expr base) := by
  induction e using Expr.base?.induct with
  | case1 span ty receiver method args ih =>
    have hr := h.step (List.mem_cons_self ..)
    rw [Expr.base?] at hbase
    rcases Option.or_eq_some_iff.1 hbase with hbase | ⟨-, hbase⟩
    · exact ih hr hbase
    · cases hbase
      exact hr
  | case2 e he =>
    rw [Expr.base?] at hbase
    · cases hbase
    · exact he

end BuilderMigration
