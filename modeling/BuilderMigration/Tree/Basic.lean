import BuilderMigration.Source.Span
import BuilderMigration.Token.Basic
import BuilderMigration.Tree.Ty

/-! The tree of a source file: the shapes that matter for builders have constructors of their
own, every other expression is a compound that keeps its parts in source order. Where a type
can become known the tree has room for it; a freshly read tree knows none. -/

namespace BuilderMigration

/-- A plain or mutable name, or any pattern that is never looked into. -/
inductive Pattern where
  | binding (span : Span) (name : String) (mutable : Bool)
  | other (span : Span)
  deriving DecidableEq

def Pattern.span : Pattern → Span
  | binding span _ _ => span
  | other span => span

/-- A parameter with its type as written and as known. -/
structure Param where
  span : Span
  pattern : Pattern
  declared : Option Ty
  ty : Option Ty := none

inductive LitKind where
  | string | char | number | bool
  deriving DecidableEq

inductive BlockKind where
  | plain | async | unsafeCode | const
  deriving DecidableEq

inductive CompoundKind where
  | assign | range | binary | cast | unary | borrow | question | await | field | call | index
  | labeled | qualifiedPath | loop | whileLoop | forLoop | letCondition
  | returnJump | breakJump | continueJump | yieldJump
  | paren | tuple | array | structLit | conditional | choice
  deriving DecidableEq

inductive ContainerKind where
  | implementation | interface | module
  deriving DecidableEq

/-- A name that a `use` brings in: its full path and its local name. -/
structure Import where
  path : List String
  name : String
  deriving DecidableEq

mutual

inductive Expr where
  | path (span : Span) (ty : Option Ty) (segments : List String)
  | lit (span : Span) (kind : LitKind)
  | methodCall (span : Span) (ty : Option Ty) (receiver : Expr) (method : String)
      (args : List Expr)
  | closure (span : Span) (params : List Param) (body : Expr) (captures : Bool)
  | block (block : Block)
  | macroCall (span : Span) (path : List String) (delimiter : Delimiter) (args : List Expr)
  | compound (span : Span) (ty : Option Ty) (kind : CompoundKind) (parts : List Expr)

inductive Block where
  | mk (span : Span) (kind : BlockKind) (stmts : List Stmt) (tail : Option Expr)

inductive Stmt where
  | letStmt (span : Span) (pattern : Pattern) (declared : Option Ty) (init : Option Expr)
      (otherwise : Option Block)
  | semi (span : Span) (expr : Expr)
  | expr (span : Span) (expr : Expr)
  | item (span : Span) (item : Item)

inductive Item where
  | fn (span : Span) (name : String) (params : List Param) (body : Option Block)
  | use (span : Span) (imports : List Import) (globs : List (List String))
  | container (span : Span) (kind : ContainerKind) (items : List Item)
  | other (span : Span)

end

/-- A source file. -/
structure Module where
  span : Span
  items : List Item
  file : String

def Block.span : Block → Span
  | mk span _ _ _ => span

namespace Expr

def span : Expr → Span
  | path span _ _ | lit span _ | methodCall span _ _ _ _ | closure span _ _ _
  | macroCall span _ _ _ | compound span _ _ _ => span
  | block b => b.span

/-- What is known of the type of an expression. -/
def ty? : Expr → Option Ty
  | path _ ty _ | methodCall _ ty _ _ _ | compound _ ty _ _ => ty
  | _ => none

/-- The name that an expression consists of. -/
def name? : Expr → Option String
  | path _ _ [name] => some name
  | _ => none

/-- The segments of a path expression. -/
def segments? : Expr → Option (List String)
  | path _ _ segments => some segments
  | _ => none

/-- The expressions that end a statement without a semicolon. -/
def isBlockLike : Expr → Bool
  | block _ => true
  | macroCall _ _ delimiter _ => delimiter == .brace
  | compound _ _ kind _ =>
    [.conditional, .choice, .loop, .whileLoop, .forLoop, .labeled].contains kind
  | _ => false

end Expr

def Stmt.span : Stmt → Span
  | letStmt span _ _ _ _ | semi span _ | expr span _ | item span _ => span

def Item.span : Item → Span
  | fn span _ _ _ | use span _ _ | container span _ _ | other span => span

end BuilderMigration
