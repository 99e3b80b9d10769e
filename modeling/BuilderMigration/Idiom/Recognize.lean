import BuilderMigration.Idiom.Basic
import BuilderMigration.Typing.Builders
import BuilderMigration.Tree.Basic

/-! Recognition of builders in a tree whose types are known. -/

namespace BuilderMigration

/-- The start of a chain: a name, which has to be known as a builder where `strict` asks for it. -/
def chainStart? (settings : Settings) (strict : Bool) (e : Expr) : Option BuilderChain :=
  match e.name? with
  | none => none
  | some name =>
    match e.ty?.bind (·.builder? settings) with
    | some builder => some ⟨name, some builder, []⟩
    | none => if strict then none else some ⟨name, none, []⟩

/-- A chain with one more call behind it. -/
def Chain.append {α : Type} (c : Chain α) (call : Call α) : Chain α :=
  { c with calls := c.calls ++ [call] }

/-- The binding of a closure of one parameter that is a plain or mutable name, with the builder
that the parameter is a mutable reference to. -/
def builderBinding? (settings : Settings) : List Param → Option (String × String)
  | [p] =>
    match p.pattern, p.ty.bind (·.mutBuilder? settings) with
    | .binding _ name _, some builder => some (name, builder)
    | _, _ => none
  | _ => none

mutual

/-- The chain that a nest of method calls makes. -/
def chain? (settings : Settings) (strict : Bool) : Expr → Option BuilderChain
  | .methodCall _ _ (.methodCall span ty receiver inner innerArgs) method args =>
    match chain? settings strict (.methodCall span ty receiver inner innerArgs) with
    | none => none
    | some c => some (c.append ⟨method, classifyAll settings args⟩)
  | .methodCall _ _ receiver method args =>
    match chainStart? settings strict receiver with
    | none => none
    | some c => some (c.append ⟨method, classifyAll settings args⟩)
  | _ => none

/-- Arguments as builder closures or source text. -/
def classifyAll (settings : Settings) : List Expr → List Arg
  | [] => []
  | e :: es =>
    (match builderClosure? settings e with
      | some c => .closure c
      | none => .literal e.span e.segments?) :: classifyAll settings es

/-- The closure that configures a builder: its body is a chain or the binding itself, or a plain
block that ends in one of them. -/
def builderClosure? (settings : Settings) : Expr → Option BuilderClosure
  | .closure span params body _ =>
    match builderBinding? settings params with
    | none => none
    | some (binding, builder) =>
      match body with
      | .methodCall s ty receiver method args =>
        let body := Expr.methodCall s ty receiver method args
        match chain? settings settings.strictReceivers body with
        | some c => some ⟨builder, binding, [], c, span⟩
        | none => none
      | .block (.mk _ .plain stmts (some tail)) =>
        match tail with
        | .methodCall s ty receiver method args =>
          let body := Expr.methodCall s ty receiver method args
          match chain? settings settings.strictReceivers body with
          | some c => some ⟨builder, binding, preludes settings binding stmts, c, span⟩
          | none => none
        | tail =>
          if tail.name? = some binding then
            some ⟨builder, binding, preludes settings binding stmts, ⟨binding, none, []⟩, span⟩
          else none
      | body =>
        if body.name? = some binding then some ⟨builder, binding, [], ⟨binding, none, []⟩, span⟩
        else none
  | _ => none

/-- The statements of a closure. A chain on its binding counts only if the binding is known to be
a builder there. -/
def preludes (settings : Settings) (binding : String) : List Stmt → List BuilderPrelude
  | [] => []
  | .semi span (.methodCall s ty receiver method args) :: ss =>
    (match chain? settings true (.methodCall s ty receiver method args) with
      | some c => if c.receiver = binding then .assignment c span else .verbatim span
      | none => .verbatim span) :: preludes settings binding ss
  | s :: ss => .verbatim s.span :: preludes settings binding ss

end

/-- The chain of a statement that is a nest of method calls with a semicolon. -/
def stmtChain? (settings : Settings) (strict : Bool) : Stmt → Option BuilderChain
  | .semi _ e => chain? settings strict e
  | _ => none

end BuilderMigration
