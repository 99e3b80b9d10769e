import BuilderMigration.Rewrite.Components
import BuilderMigration.Rewrite.Response

/-! The table of builders that are rewritten in a way of their own, and the rewriting of closures
by it. -/

namespace BuilderMigration

/-- A way to rewrite a closure. -/
inductive Rule where
  | components | actionRow | button | selectMenu | response
  | fixed (text : String)
  deriving DecidableEq

/-- What a rule makes of a closure. -/
def Rule.apply (w : Workshop) (c : ReadyClosure) : Rule → Rewrite String
  | components => w.components c
  | actionRow => w.actionRow c
  | button => w.button c
  | selectMenu => w.selectMenu c
  | response => w.response c
  | fixed text => return text

/-- Rules by builder. The bundled ones come in when they are loaded, at the latest when the table
is first looked into. -/
structure Rules where
  loaded : Bool := false
  entries : List (String × Rule) := []
  deriving DecidableEq

namespace Rules

/-- The bundled rules, in bundles. -/
def bundles : List (List (String × Rule)) :=
  [[("CreateComponents", .components), ("CreateActionRow", .actionRow), ("CreateButton", .button),
    ("CreateSelectMenu", .selectMenu)],
   [("CreateInteractionResponse", .response)]]

/-- Enters a rule in place of the one that a builder has. -/
def register (t : Rules) (builder : String) (rule : Rule) : Rules :=
  { t with entries := Assoc.put builder rule t.entries }

/-- Enters the bundled rules. -/
def load (t : Rules) : Rules :=
  { bundles.flatten.foldl (fun t e => t.register e.1 e.2) t with loaded := true }

/-- The table as it is when it is looked into. -/
def ready (t : Rules) : Rules := if t.loaded then t else t.load

/-- The rule of a builder, if it has one. -/
def find? (t : Rules) (builder : String) : Option Rule := Assoc.get? builder t.ready.entries

end Rules

namespace Workshop

/-- Rewrites a closure in its own context: by its rule, or in the general form. -/
def closure (w : Workshop) (rules : Rules) (c : ReadyClosure) : Rewrite String :=
  Rewrite.within c.span.ctxt do
    Rewrite.consult
    match rules.find? c.builder with
    | some rule => rule.apply w c
    | none => w.general c

mutual

/-- Makes an argument ready: the closures in it first, so that each has its rewrite at hand. -/
def ready (w : Workshop) (rules : Rules) : Arg → Ready
  | .literal span path => .literal span path
  | .closure ⟨builder, binding, stmts, ⟨receiver, base, calls⟩, span⟩ =>
    let c : ReadyClosure :=
      ⟨builder, binding, readyStmts w rules stmts, ⟨receiver, base, readyCalls w rules calls⟩, span⟩
    .closure c (w.closure rules c)

def readyArgs (w : Workshop) (rules : Rules) : List Arg → List Ready
  | [] => []
  | a :: as => w.ready rules a :: readyArgs w rules as

def readyCalls (w : Workshop) (rules : Rules) : List BuilderCall → List ReadyCall
  | [] => []
  | ⟨field, args⟩ :: calls => ⟨field, readyArgs w rules args⟩ :: readyCalls w rules calls

def readyStmts (w : Workshop) (rules : Rules) : List BuilderPrelude → List (Prelude Ready)
  | [] => []
  | .verbatim span :: stmts => .verbatim span :: readyStmts w rules stmts
  | .assignment ⟨receiver, base, calls⟩ span :: stmts =>
    .assignment ⟨receiver, base, readyCalls w rules calls⟩ span :: readyStmts w rules stmts

end

/-- A chain with its arguments ready. -/
def readyChain (w : Workshop) (rules : Rules) (c : BuilderChain) : Chain Ready :=
  ⟨c.receiver, c.builder, w.readyCalls rules c.calls⟩

/-- A closure with its arguments ready. -/
def readyClosure (w : Workshop) (rules : Rules) (c : BuilderClosure) : ReadyClosure :=
  ⟨c.builder, c.binding, w.readyStmts rules c.stmts, w.readyChain rules c.chain, c.span⟩

/-- Rewrites a recognised closure. -/
def rewriteClosure (w : Workshop) (rules : Rules) (c : BuilderClosure) : Rewrite String :=
  w.closure rules (w.readyClosure rules c)

/-- Rewrites a recognised chain as a statement. -/
def rewriteChain (w : Workshop) (rules : Rules) (c : BuilderChain) : Rewrite String :=
  w.chainStmt (w.readyChain rules c)

end Workshop

end BuilderMigration
