import BuilderMigration.SyntaxError
import BuilderMigration.Token.Basic
import BuilderMigration.Source.Span

/-! Reading a list of tokens: the cursor, the ways to fail, single tokens, and loops. Every loop
is bounded by the number of tokens left; a turn that goes on has consumed one, so the bound is
never what ends it. -/

namespace BuilderMigration

/-- Why no tree comes out. Only a rejection can be recovered from. -/
inductive Failure where
  /-- The tokens do not follow the grammar. -/
  | rejected (e : SyntaxError)
  /-- The text ends behind an expression in a block, where the token that ought to end the
  statement is looked at. -/
  | cutStatement
  /-- A production calls itself for ever without consuming a token. -/
  | endless
  deriving DecidableEq

/-- The tokens still to read and the position behind the last token read. -/
structure Cursor where
  rest : List Token
  last : Int := 0
  deriving DecidableEq

/-- The tokens between two cursors. -/
def Cursor.readTo (c c' : Cursor) : List Token := c.rest.take (c.rest.length - c'.rest.length)

abbrev Parse := StateT Cursor (Except Failure)

namespace Parse

variable {α β σ : Type}

/-- Gives up at a token. -/
def rejectAt (t : Token) (cause : SyntaxError.Cause) : Parse α :=
  throw (.rejected ⟨cause, t.line, t.column⟩)

/-- Gives up at the end of the text. -/
def rejectEnd (during : Unfinished) : Parse α := throw (.rejected (SyntaxError.atEnd during))

/-- The token `k` places ahead. -/
def look (k : Nat) : Parse (Option Token) := do return (← get).rest[k]?

/-- Whether the token `k` places ahead is the punctuation or keyword `v`. -/
def looksAt (k : Nat) (v : String) : Parse Bool := do return (← look k).any (·.is v)

/-- Whether the next token is the punctuation or keyword `v`. -/
def nextIs (v : String) : Parse Bool := looksAt 0 v

/-- Whether the token `k` places ahead is one of some punctuation marks and keywords. -/
def looksAtOneOf (k : Nat) (vs : List String) : Parse Bool :=
  do return (← look k).any (·.isOneOf vs)

/-- Whether the token `k` places ahead is of a kind. -/
def looksAtKind (k : Nat) (kind : TokenKind) : Parse Bool :=
  do return (← look k).any (·.kind == kind)

/-- The next token. -/
def next : Parse Token := fun c =>
  match c.rest with
  | [] => .error (.rejected (SyntaxError.atEnd .text))
  | t :: ts => .ok (t, ⟨ts, t.hi⟩)

/-- Reads `n` tokens. -/
def skip : Nat → Parse Unit
  | 0 => pure ()
  | n + 1 => do let _ ← next; skip n

/-- Reads the next token if it is `v`. -/
def accept (v : String) : Parse Bool := do
  if ← nextIs v then let _ ← next; return true
  else return false

/-- Reads the next token if it is of a kind. -/
def acceptKind (kind : TokenKind) : Parse Bool := do
  if ← looksAtKind 0 kind then let _ ← next; return true
  else return false

/-- Reads the next token, which has to be `v`. -/
def expect (v : String) : Parse Token := do
  match ← look 0 with
  | none => rejectEnd (.awaiting ("'" ++ v ++ "'"))
  | some t => if t.is v then next else rejectAt t (.expected ("'" ++ v ++ "'") t.value)

/-- Reads the next token, which has to be an identifier or keyword. -/
def expectName : Parse String := do
  match ← look 0 with
  | none => rejectEnd (.awaiting "identifier")
  | some t =>
    if t.kind = .ident then let _ ← next; return t.value
    else rejectAt t (.expected "identifier" t.value)

/-- From position `lo` to the end of the last token read. -/
def spanFrom (lo : Int) : Parse Span := do return ⟨lo, (← get).last, 0⟩

/-- Runs `p`, and where it is rejected `q` from the same place. -/
def orElse (p q : Parse α) : Parse α := fun c =>
  match p c with
  | .error (.rejected _) => q c
  | r => r

/-! ### Loops -/

/-- What a turn of a collecting loop finds. -/
inductive Turn (α β : Type) where
  | skip
  | one (a : α)
  | last (a : α) (b : β)
  | stop (b : β)

/-- Collects what at most `fuel` turns find. -/
def collectFrom (turn : Parse (Turn α β)) : Nat → Parse (List α × β)
  | 0 => throw .endless
  | fuel + 1 => do
    match ← turn with
    | .skip => collectFrom turn fuel
    | .one a => do
      let (as, b) ← collectFrom turn fuel
      return (a :: as, b)
    | .last a b => return ([a], b)
    | .stop b => return ([], b)

/-- Takes turns until one ends the loop, and collects what they find. -/
def collect (turn : Parse (Turn α β)) : Parse (List α × β) := fun c =>
  collectFrom turn (c.rest.length + 1) c

/-- At most `fuel` steps. -/
def iterateFrom (step : σ → Parse (σ ⊕ β)) : Nat → σ → Parse β
  | 0, _ => throw .endless
  | fuel + 1, s => do
    match ← step s with
    | .inl s' => iterateFrom step fuel s'
    | .inr b => return b

/-- Takes steps from a state until one gives a result. -/
def iterate (step : σ → Parse (σ ⊕ β)) (s : σ) : Parse β := fun c =>
  iterateFrom step (c.rest.length + 1) s c

/-- Items up to, not including, the token `close`, separated by commas; with it whether the last
item has a comma behind it. Without a comma behind an item the list ends, whatever follows. -/
def commaList (close : String) (item : Parse α) : Parse (List α × Bool) :=
  collect do
    if ← nextIs close then return .stop true
    let a ← item
    if ← accept "," then return .one a
    return .last a false

end Parse

end BuilderMigration
