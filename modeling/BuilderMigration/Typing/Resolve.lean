import BuilderMigration.Typing.Builders
import BuilderMigration.Typing.Names

/-! The types of names, of calls on builders and of closure parameters, worked out in one pass over
a file and written into its tree. -/

namespace BuilderMigration

/-- The local names in view with what is known of their types, the innermost first. -/
abbrev Scope := List (String × Option Ty)

namespace Scope

/-- The type of the innermost binding of a name. -/
def typeOf (scope : Scope) (name : String) : Option Ty := (Assoc.get? name scope).join

/-- The scope behind a pattern. Names inside other patterns than bindings are not seen. -/
def bind (scope : Scope) (p : Pattern) (ty : Option Ty) : Scope :=
  match p with
  | .binding _ name _ => (name, ty) :: scope
  | .other _ => scope

/-- The scope behind some parameters. -/
def bindParams (scope : Scope) (params : List Param) : Scope :=
  params.foldl (fun s p => s.bind p.pattern p.ty) scope

end Scope

namespace Names

/-- The type of parameter of a closure that configures a builder. -/
def closureArg (n : Names) (builder : String) : Ty :=
  .ref (.adt (n.builderModule ++ [builder])) true

/-- The parameters of a function. -/
def fnParams (n : Names) (params : List Param) : List Param :=
  params.map fun p => { p with ty := p.declared.map n.resolve }

/-- The parameters of a closure; where it is known to configure a builder, a single parameter
without a written type is a mutable reference to that builder. -/
def closureParams (n : Names) (builder : Option String) (params : List Param) : List Param :=
  params.map fun p =>
    match p.declared, builder, params with
    | some ty, _, _ => { p with ty := some (n.resolve ty) }
    | none, some b, [_] => { p with ty := some (n.closureArg b) }
    | none, _, _ => { p with ty := none }

/-- The type of a method call: a builder's setters give back a mutable reference to it. -/
def callType (n : Names) (receiver : Option Ty) : Option Ty :=
  match receiver with
  | some ty => (ty.builder? n.settings).map fun _ => .ref ty.stripRefs true
  | none => none

/-- The builder that a closure passed to a method configures. -/
def closureBuilder (n : Names) (receiver : Option Ty) (method : String) : Option String :=
  n.signatures.lookup method (receiver.bind (·.builder? n.settings)) receiver.isSome

/-- The type of a compound: parentheses change nothing, others have none. -/
def compoundType (kind : CompoundKind) : List Expr → Option Ty
  | e :: _ => if kind = .paren then e.ty? else none
  | [] => none

mutual

/-- An expression with the types that are known in it. -/
def expr (n : Names) (scope : Scope) : Expr → Expr
  | .path span _ [name] => .path span (scope.typeOf name) [name]
  | .path span _ segments => .path span none segments
  | .lit span kind => .lit span kind
  | .methodCall span _ receiver method args =>
    let receiver := n.expr scope receiver
    .methodCall span (n.callType receiver.ty?) receiver method
      (n.args scope (n.closureBuilder receiver.ty? method) args)
  | .closure span params body captures =>
    let params := n.closureParams none params
    .closure span params (n.expr (scope.bindParams params) body) captures
  | .block b => .block (n.block scope b)
  | .macroCall span path delimiter args => .macroCall span path delimiter (n.exprs scope args)
  | .compound span _ kind parts =>
    let parts := n.exprs scope parts
    .compound span (compoundType kind parts) kind parts

/-- Arguments of a method that gives closures a builder to configure. -/
def args (n : Names) (scope : Scope) (builder : Option String) : List Expr → List Expr
  | [] => []
  | .closure span params body captures :: es =>
    let params := n.closureParams builder params
    .closure span params (n.expr (scope.bindParams params) body) captures
      :: n.args scope builder es
  | e :: es => n.expr scope e :: n.args scope builder es

def exprs (n : Names) (scope : Scope) : List Expr → List Expr
  | [] => []
  | e :: es => n.expr scope e :: n.exprs scope es

/-- A block; its own bindings are in view to its end. -/
def block (n : Names) (scope : Scope) : Block → Block
  | .mk span kind stmts tail =>
    let (inner, stmts) := n.stmts scope stmts
    .mk span kind stmts (match tail with | none => none | some e => some (n.expr inner e))

/-- Statements in order and the scope behind them. A `let` binds behind itself only. -/
def stmts (n : Names) (scope : Scope) : List Stmt → Scope × List Stmt
  | [] => (scope, [])
  | .letStmt span pattern declared init otherwise :: ss =>
    let init := match init with | none => none | some e => some (n.expr scope e)
    let otherwise := match otherwise with | none => none | some b => some (n.block scope b)
    let ty := (declared.map n.resolve).or (init.bind (·.ty?))
    let (inner, ss) := n.stmts (scope.bind pattern ty) ss
    (inner, .letStmt span pattern declared init otherwise :: ss)
  | .semi span e :: ss =>
    let (inner, rest) := n.stmts scope ss
    (inner, .semi span (n.expr scope e) :: rest)
  | .expr span e :: ss =>
    let (inner, rest) := n.stmts scope ss
    (inner, .expr span (n.expr scope e) :: rest)
  | .item span i :: ss =>
    let (inner, rest) := n.stmts scope ss
    (inner, .item span (n.item i) :: rest)

/-- An item. A function sees none of the names around it. -/
def item (n : Names) : Item → Item
  | .fn span name params body =>
    let params := n.fnParams params
    .fn span name params
      (match body with | none => none | some b => some (n.block (Scope.bindParams [] params) b))
  | .use span imports globs => .use span imports globs
  | .container span kind items => .container span kind (n.items items)
  | .other span => .other span

def items (n : Names) : List Item → List Item
  | [] => []
  | i :: is => n.item i :: n.items is

end

end Names

/-- A file with the types that are known in it. -/
def Module.resolved (settings : Settings) (m : Module) : Module :=
  { m with items := (Names.ofModule settings m).items m.items }

end BuilderMigration
