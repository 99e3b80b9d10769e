import BuilderMigration.Proofs.Tree.Nesting
import BuilderMigration.Typing.Resolve

/-! Lexical scoping: which binders are in view at which nodes of a tree. Parameters and `let` bind
names, and so do the patterns of loops, conditions and arms. Of a pattern that is more than a name the
tree keeps no names; scoping is told them, for a pattern that the tree does not keep either by where
they come into view. -/

namespace BuilderMigration

/-- What binds names: a plain name with the type that is given to it, or any other pattern with the
names in it. -/
inductive Binder where
  | name (name : String) (ty : Option Ty)
  | pattern (names : List String)

def Binder.binds (x : String) : Binder → Bool
  | .name y _ => y = x
  | .pattern names => x ∈ names

/-- The binders in view, the innermost first. -/
abbrev Bindings := List Binder

namespace Bindings

def innermost? (env : Bindings) (x : String) : Option Binder := env.find? (·.binds x)

/-- The type that the innermost binder of a name gives it. -/
def typeOf (env : Bindings) (x : String) : Option Ty :=
  match env.innermost? x with
  | some (.name _ ty) => ty
  | some (.pattern _) | none => none

end Bindings

/-- The type that a `let` gives: the written one, or else that of its value. -/
def Names.letType (n : Names) (declared : Option Ty) (init : Option Expr) : Option Ty :=
  (declared.map n.resolve).or (init.bind (·.ty?))

/-- The type that a parameter gives: the written one, or else the one that its closure is known to be
called with. -/
def Names.paramType (n : Names) (p : Param) : Option Ty := (p.declared.map n.resolve).or p.ty

/-- Whether a condition has a `let` with a pattern. -/
def Expr.hasPattern : Expr → Bool
  | .compound _ _ .letCondition _ => true
  | .compound _ _ .binary [left, right] => left.hasPattern || right.hasPattern
  | _ => false

/-- Whether the names of a pattern are in view at the part of a compound that has these in front of
it: in the body of a loop or conditional, behind a `let` in a condition, in the arms of a choice. -/
def CompoundKind.bindsBehind : CompoundKind → List Expr → Bool
  | .forLoop, [_] => true
  | .choice, _ :: _ => true
  | .whileLoop, [condition] | .conditional, [condition] | .binary, [condition] =>
    condition.hasPattern
  | _, _ => false

section Scoping

variable (n : Names) (names : Span → List String)

/-- The binder that a pattern is where it is given a type. -/
def Pattern.binder (ty : Option Ty) : Pattern → Binder
  | .binding _ x _ => .name x ty
  | .other span => .pattern (names span)

/-- The binders of some parameters. -/
def Bindings.ofParams (params : List Param) : Bindings :=
  (params.map fun p => p.pattern.binder names (n.paramType p)).reverse

/-- The binders that a statement puts in view behind itself. -/
def Stmt.binders : Stmt → Bindings
  | .letStmt _ pattern declared init _ => [pattern.binder names (n.letType declared init)]
  | .semi .. | .expr .. | .item .. => []

/-- What is in view behind some statements. -/
def Bindings.behind (env : Bindings) : List Stmt → Bindings
  | [] => env
  | s :: ss => Bindings.behind (s.binders n names ++ env) ss

/-- Statements in order, each with what is in view there. -/
def stmtsInView (env : Bindings) : List Stmt → List (Bindings × Node)
  | [] => []
  | s :: ss => (env, .stmt s) :: stmtsInView (s.binders n names ++ env) ss

/-- The parts of a compound behind some others, each with what is in view there. -/
def partsInView (kind : CompoundKind) (env : Bindings) (front : List Expr) :
    List Expr → List (Bindings × Node)
  | [] => []
  | e :: es =>
    (if kind.bindsBehind front then .pattern (names e.span) :: env else env, .expr e)
      :: partsInView kind env (front ++ [e]) es

/-- The nodes directly below a node, each with what is in view there. A function sees none of the
names around it. -/
def Node.below (env : Bindings) : Node → List (Bindings × Node)
  | .module m => m.items.map fun i => (env, .item i)
  | .item (.fn _ _ params body) =>
    body.toList.map fun b => (.ofParams n names params, .expr (.block b))
  | .item (.container _ _ items) => items.map fun i => (env, .item i)
  | .item (.use ..) | .item (.other ..) => []
  | .stmt (.letStmt _ _ _ init otherwise) =>
    init.toList.map (fun e => (env, .expr e)) ++ otherwise.toList.map fun b => (env, .expr (.block b))
  | .stmt (.semi _ e) | .stmt (.expr _ e) => [(env, .expr e)]
  | .stmt (.item _ i) => [(env, .item i)]
  | .expr (.path ..) | .expr (.lit ..) => []
  | .expr (.methodCall _ _ receiver _ args) =>
    (env, .expr receiver) :: args.map fun e => (env, .expr e)
  | .expr (.closure _ params body _) => [(.ofParams n names params ++ env, .expr body)]
  | .expr (.block (.mk _ _ stmts tail)) =>
    stmtsInView n names env stmts ++
      tail.toList.map fun e => (env.behind n names stmts, .expr e)
  | .expr (.macroCall _ _ _ args) => args.map fun e => (env, .expr e)
  | .expr (.compound _ _ kind parts) => partsInView names kind env [] parts

/-- What is in view at the nodes of a file. -/
inductive Module.InView (m : Module) : Bindings → Node → Prop where
  | root : InView m [] (.module m)
  | step {env env' : Bindings} {x y : Node} :
    InView m env x → (env', y) ∈ x.below n names env → InView m env' y

end Scoping

variable {n : Names} {names : Span → List String} {m : Module} {env env' : Bindings} {x y : Node}

theorem stmtsInView_nodes (ss : List Stmt) :
    (stmtsInView n names env ss).map Prod.snd = ss.map Node.stmt := by
  induction ss generalizing env with
  | nil => rfl
  | cons s ss ih => rw [stmtsInView, List.map_cons, List.map_cons, ih]

theorem partsInView_nodes (kind : CompoundKind) (front es : List Expr) :
    (partsInView names kind env front es).map Prod.snd = es.map Node.expr := by
  induction es generalizing front with
  | nil => rfl
  | cons e es ih => rw [partsInView, List.map_cons, List.map_cons, ih]

/-- Scoping comes to each node below a node, in their order. -/
theorem Node.below_nodes (n : Names) (names : Span → List String) (env : Bindings) (x : Node) :
    (x.below n names env).map Prod.snd = x.children := by
  cases x with
  | module m => simp [below, children]
  | item i => cases i <;> simp [below, children]
  | stmt s => cases s <;> simp [below, children, Function.comp_def]
  | expr e =>
    cases e with
    | block b =>
      obtain ⟨span, kind, stmts, tail⟩ := b
      simp [below, children, stmtsInView_nodes]
    | compound span ty kind parts => exact partsInView_nodes kind [] parts
    | _ => simp [below, children]

theorem Module.exists_inView (n : Names) (names : Span → List String) (m : Module) :
    ∀ y ∈ m.tree.preorder, ∃ env, m.InView n names env y := by
  refine Node.forall_preorder (x := .module m) (fun x c h hc => ?_) ⟨[], .root⟩
  obtain ⟨env, h⟩ := h
  rw [← Node.below_nodes n names env, List.mem_map] at hc
  obtain ⟨⟨env', c⟩, hc, rfl⟩ := hc
  exact ⟨env', h.step hc⟩

/-- The node that is come to by taking one child after another, with what is in view there. -/
def Node.follow? (n : Names) (names : Span → List String) :
    List Nat → Bindings × Node → Option (Bindings × Node)
  | [], at? => some at?
  | k :: ks, (env, x) => (x.below n names env)[k]?.bind (Node.follow? n names ks)

theorem Module.InView.follow? {route : List Nat} (h : m.InView n names env x)
    (hr : Node.follow? n names route (env, x) = some (env', y)) : m.InView n names env' y := by
  induction route generalizing env x with
  | nil =>
    cases hr
    exact h
  | cons k ks ih =>
    obtain ⟨⟨env₁, x₁⟩, hk, hr⟩ := Option.bind_eq_some_iff.1 hr
    exact ih (h.step (List.mem_of_getElem? hk)) hr

end BuilderMigration
