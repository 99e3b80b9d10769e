import BuilderMigration.Grammar.Types

/-! Productions of expressions, from the loosest binding to the tightest. -/

namespace BuilderMigration.Grammar

open Parse

/-! ### Operators -/

def assignMarks : List String := ["=", "+=", "-=", "*=", "/=", "%=", "^=", "&=", "|="]

/-- How many tokens the pending assignment operator takes: shifts with assignment come as two
tokens that touch. Zero when none is pending. -/
def assignWidth : Parse Nat := do
  match ← look 0 with
  | none => return 0
  | some t =>
    if t.kind ≠ .punct then return 0
    if assignMarks.contains t.value then return 1
    match ← look 1 with
    | none => return 0
    | some u =>
      if t.touches u && ((t.value == "<" && u.value == "<=") || (t.value == ">" && u.value == ">="))
      then return 2 else return 0

/-- How strongly a binary operator of one token binds. -/
def strength? (mark : String) : Option Nat :=
  [("||", 1), ("&&", 2), ("==", 3), ("!=", 3), ("<", 3), (">", 3), ("<=", 3), (">=", 3),
   ("|", 4), ("^", 5), ("&", 6), ("+", 8), ("-", 8), ("*", 9), ("/", 9), ("%", 9)].lookup mark

/-- Shifts bind more strongly than `&` and less than sums. -/
def shiftStrength : Nat := 7

/-- The scrutinee of a `let` in a condition binds more strongly than `&&`. -/
def scrutineeStrength : Nat := 3

/-- The strength of the pending binary operator and how many tokens it takes: shifts come as two
tokens that touch. -/
def pendingOperator : Parse (Option (Nat × Nat)) := do
  match ← look 0 with
  | none => return none
  | some t =>
    if t.kind ≠ .punct then return none
    let single := (strength? t.value).map (·, 1)
    if t.value == "<" || t.value == ">" then
      match ← look 1 with
      | none => return single
      | some u =>
        if t.touches u then
          if u.value == t.value then return some (shiftStrength, 2)
          if u.value == "<=" || u.value == ">=" then return none
          return single
        return single
    return single

/-- Whether the next token can begin an expression. -/
def canStart (bare : Bool) : Parse Bool := do
  match ← look 0 with
  | none => return false
  | some t =>
    match t.kind with
    | .punct =>
      if t.value == "\x7b" then return !bare
      return ["(", "[", "|", "||", "-", "!", "*", "&", "&&", "::", "<", "..", "#"].contains t.value
    | .ident => return !(["as", "else", "in"].contains t.value)
    | _ => return true

/-! ### Lists of expressions -/

/-- Arguments in parentheses and the position behind them. -/
def callArgs (g : Grammar) : Parse (List Expr × Int) := do
  let _ ← expect "("
  let (args, _) ← commaList ")" (g.expr false)
  let close ← expect ")"
  return (args, close.hi)

/-- Expressions in parentheses; a single one without a comma behind it is no tuple. -/
def parenthesised (g : Grammar) : Parse Expr := do
  let start ← expect "("
  let (elems, trailing) ← commaList ")" (g.expr false)
  let close ← expect ")"
  let span : Span := ⟨start.lo, close.hi, 0⟩
  match elems, trailing with
  | [e], false => return .compound span none .paren [e]
  | _, _ => return .compound span none .tuple elems

/-- Expressions in brackets, or one and its number of repetitions. -/
def array (g : Grammar) : Parse Expr := do
  let start ← expect "["
  let (elems, more) ← collect do
    if ← nextIs "]" then return .stop []
    let e ← g.expr false
    if ← accept ";" then return .last e [← g.expr false]
    if ← accept "," then return .one e
    return .last e []
  let close ← expect "]"
  return .compound ⟨start.lo, close.hi, 0⟩ none .array (elems ++ more)

/-! ### Paths, struct literals and macro calls -/

/-- Names joined by double colons, each with the generic arguments that may follow a double
colon. -/
def pathNames : Parse (List String) := do
  let _ ← accept "::"
  let (names, _) ← collect do
    let name ← expectName
    if (← nextIs "::") && (← looksAt 1 "<") then
      skip 1
      skipGenerics
    if (← nextIs "::") && (← looksAtKind 1 .ident) then
      skip 1
      return .one name
    return .last name ()
  return names

/-- Whether the brace that comes next opens a struct literal: its first tokens are those of a
field, of a base or of an attribute, or it closes at once. -/
def opensStruct : Parse Bool := do
  match ← look 1 with
  | none => return false
  | some t =>
    if t.isPunct "\x7d" || t.isPunct ".." then return true
    if t.kind = .ident || t.kind = .number then
      return (← look 2).any fun u => u.isPunct ":" || u.isPunct "," || u.isPunct "\x7d"
    return t.isPunct "#"

/-- The fields of a struct literal that begins at `lo`. -/
def structLiteral (g : Grammar) (lo : Int) : Parse Expr := do
  let _ ← expect "\x7b"
  let (fields, base) ← collect do
    if ← nextIs "\x7d" then return .stop []
    skipAttributes
    if ← accept ".." then
      if ← nextIs "\x7d" then return .stop []
      return .stop [← g.expr false]
    skip 1
    let value ← if ← accept ":" then pure [← g.expr false] else pure []
    if ← accept "," then return .one value
    return .last value []
  let close ← expect "\x7d"
  return .compound ⟨lo, close.hi, 0⟩ none .structLit (fields.flatten ++ base)

/-- The group of a macro call read as expressions separated by commas or semicolons. -/
def macroList (g : Grammar) (d : Delimiter) : Parse (List Expr) := do
  skip 1
  let (args, _) ← collect do
    if ← nextIs d.closing then return .stop ()
    let e ← g.expr false
    if (← accept ",") then return .one e
    if (← accept ";") then return .one e
    return .last e ()
  let _ ← expect d.closing
  return args

/-- The arguments of a macro call: a group that is no list of expressions is passed over whole
and has none. -/
def macroArgs (g : Grammar) (d : Delimiter) : Parse (List Expr) :=
  orElse (macroList g d) do
    skipGroup
    return []

/-- A path, a struct literal or a macro call. -/
def pathLike (g : Grammar) (bare : Bool) : Parse Expr := do
  let lo := ((← look 0).map (·.lo)).getD 0
  let names ← pathNames
  if ← nextIs "!" then
    if let some d := (← look 1).bind (·.opens?) then
      skip 1
      let args ← macroArgs g d
      return .macroCall (← spanFrom lo) names d args
  if (← nextIs "\x7b") && !bare then
    if ← opensStruct then return ← structLiteral g lo
  return .path (← spanFrom lo) none names

/-! ### Closures -/

/-- One parameter of a closure. -/
def closureParam (g : Grammar) : Parse Param := do
  skipAttributes
  let lo := ((← look 0).map (·.lo)).getD 0
  let p ← pattern [":", ",", "|"]
  let ty ← declaredType g
  return ⟨← spanFrom lo, p, ty, none⟩

/-- The parameters between the bars. -/
def closureParams (g : Grammar) : Parse (List Param) := do
  if ← accept "||" then return []
  let _ ← expect "|"
  let (params, _) ← commaList "|" (closureParam g)
  let _ ← expect "|"
  return params

/-- A closure that begins at `lo`; with a result type its body is a block. -/
def closure (g : Grammar) (lo : Int) (bare captures : Bool) : Parse Expr := do
  let params ← closureParams g
  let body ←
    if ← accept "->" then
      let _ ← g.ty
      pure (Expr.block (← g.block .plain none))
    else g.expr bare
  return .closure ⟨lo, body.span.hi, 0⟩ params body captures

/-! ### Expressions with keywords -/

/-- A condition, a block, and a block or condition behind `else`. -/
def conditionalOf (g : Grammar) : Parse Expr := do
  let start ← expect "if"
  let condition ← g.expr true
  let body ← g.block .plain none
  let otherwise ←
    if ← accept "else" then
      if ← nextIs "if" then pure [← g.conditional]
      else pure [Expr.block (← g.block .plain none)]
    else pure []
  return .compound (← spanFrom start.lo) none .conditional (condition :: .block body :: otherwise)

/-- One arm of a choice: its guard, if any, and its value. -/
def arm (g : Grammar) : Parse (List Expr) := do
  skipAttributes
  let _ ← accept "|"
  let _ ← pattern ["=>", "if"]
  let guards ← if ← accept "if" then pure [← g.expr false] else pure []
  let _ ← expect "=>"
  let value ← g.statementExpr
  let _ ← accept ","
  return guards ++ [value]

/-- A scrutinee and arms in braces. -/
def choice (g : Grammar) : Parse Expr := do
  let start ← expect "match"
  let scrutinee ← g.expr true
  let _ ← expect "\x7b"
  skipAttributes
  let (arms, _) ← collect do
    if ← nextIs "\x7d" then return .stop ()
    return .one (← arm g)
  let _ ← expect "\x7d"
  return .compound (← spanFrom start.lo) none .choice (scrutinee :: arms.flatten)

def loop (g : Grammar) (lo : Int) : Parse Expr := do
  skip 1
  let body ← g.block .plain none
  return .compound (← spanFrom lo) none .loop [.block body]

def whileLoop (g : Grammar) (lo : Int) : Parse Expr := do
  skip 1
  let condition ← g.expr true
  let body ← g.block .plain none
  return .compound (← spanFrom lo) none .whileLoop [condition, .block body]

def forLoop (g : Grammar) (lo : Int) : Parse Expr := do
  skip 1
  let _ ← pattern ["in"]
  let _ ← expect "in"
  let iterated ← g.expr true
  let body ← g.block .plain none
  return .compound (← spanFrom lo) none .forLoop [iterated, .block body]

/-- A `let` in a condition. -/
def letCondition (g : Grammar) (lo : Int) : Parse Expr := do
  skip 1
  let _ ← pattern ["="]
  let _ ← expect "="
  let scrutinee ← g.operand scrutineeStrength true
  return .compound (← spanFrom lo) none .letCondition [scrutinee]

/-- The jumps. -/
def jump? (keyword : String) : Option CompoundKind :=
  [("return", .returnJump), ("break", .breakJump), ("continue", .continueJump),
   ("yield", .yieldJump)].lookup keyword

/-- A jump, with a label where it may have one, and with its value. -/
def jump (g : Grammar) (lo : Int) (kind : CompoundKind) (bare : Bool) : Parse Expr := do
  skip 1
  if kind = .breakJump || kind = .continueJump then let _ ← acceptKind .lifetime
  let value ←
    if kind ≠ .continueJump then
      if ← canStart bare then pure [← g.expr bare] else pure []
    else pure []
  return .compound (← spanFrom lo) none kind value

/-! ### Primary expressions -/

/-- A label and what it labels. -/
def labeled (g : Grammar) (label : Token) (bare : Bool) : Parse Expr := do
  skip 1
  let _ ← expect ":"
  let inner ← g.primary bare
  return .compound ⟨label.lo, inner.span.hi, 0⟩ none .labeled [inner]

/-- A path that starts from a type in angle brackets. -/
def qualifiedPath (lo : Int) : Parse Expr := do
  skipGenerics
  iterate (fun (_ : Unit) => do
    if ← accept "::" then
      let _ ← expectName
      return .inl ()
    return .inr ()) ()
  return .compound (← spanFrom lo) none .qualifiedPath []

/-- A primary expression that begins with a punctuation mark. Behind attributes it begins anew. -/
def punctPrimary (g : Grammar) (t : Token) (bare : Bool) : Parse Expr := do
  if t.value = "|" || t.value = "||" then closure g t.lo bare false
  else if t.value = "\x7b" then return .block (← g.block .plain none)
  else if t.value = "(" then parenthesised g
  else if t.value = "[" then array g
  else if t.value = "#" then
    skipAttributes
    g.primary bare
  else if t.value = "<" then qualifiedPath t.lo
  else if t.value = "::" then pathLike g bare
  else rejectAt t (.unexpectedToken t.value)

/-- A block or closure behind `async`, if one follows. -/
def async? (g : Grammar) (lo : Int) (bare : Bool) : Parse (Option Expr) := do
  if ← looksAt 1 "\x7b" then
    skip 1
    return some (.block (← g.block .async (some lo)))
  if ← looksAt 1 "move" then
    if ← looksAt 2 "\x7b" then
      skip 2
      return some (.block (← g.block .async (some lo)))
    if ← looksAtOneOf 2 ["|", "||"] then
      skip 2
      return some (← closure g lo bare true)
  if ← looksAtOneOf 1 ["|", "||"] then
    skip 1
    return some (← closure g lo bare false)
  return none

/-- A block or closure behind the keyword that marks it, if the word `t` is such a keyword here. -/
def marked? (g : Grammar) (t : Token) (bare : Bool) : Parse (Option Expr) := do
  if t.value = "move" then
    if ← looksAtOneOf 1 ["|", "||"] then
      skip 1
      return some (← closure g t.lo bare true)
    else return none
  else if t.value = "async" then async? g t.lo bare
  else if t.value = "unsafe" || t.value = "const" then
    if ← looksAt 1 "\x7b" then
      skip 1
      let kind := if t.value = "unsafe" then BlockKind.unsafeCode else .const
      return some (.block (← g.block kind (some t.lo)))
    else return none
  else return none

/-- What a word begins that marks no block or closure: a jump, a form of its own or a path. -/
def plainWord (g : Grammar) (t : Token) (bare : Bool) : Parse Expr :=
  if t.value = "if" then conditionalOf g
  else if t.value = "match" then choice g
  else if t.value = "loop" then loop g t.lo
  else if t.value = "while" then whileLoop g t.lo
  else if t.value = "for" then forLoop g t.lo
  else if t.value = "let" then letCondition g t.lo
  else match jump? t.value with
    | some kind => jump g t.lo kind bare
    | none => pathLike g bare

/-- A primary expression that begins with a name or keyword. -/
def wordPrimary (g : Grammar) (t : Token) (bare : Bool) : Parse Expr := do
  if t.value = "true" || t.value = "false" then
    skip 1
    return .lit ⟨t.lo, t.hi, 0⟩ .bool
  match ← marked? g t bare with
  | some e => return e
  | none => plainWord g t bare

/-- A primary expression. -/
def primaryOf (g : Grammar) (bare : Bool) : Parse Expr := do
  match ← look 0 with
  | none => rejectEnd (.awaiting "expression")
  | some t =>
    let span : Span := ⟨t.lo, t.hi, 0⟩
    match t.kind with
    | .string => do skip 1; return .lit span .string
    | .char => do skip 1; return .lit span .char
    | .number => do skip 1; return .lit span .number
    | .lifetime => labeled g t bare
    | .punct => punctPrimary g t bare
    | .ident => wordPrimary g t bare

/-! ### From primary to full expressions -/

/-- What follows a dot: a position, `await`, a method call or a field. -/
def member (g : Grammar) (e : Expr) : Parse Expr := do
  skip 1
  match ← look 0 with
  | none => rejectEnd .afterDot
  | some t =>
    let upTo : Span := ⟨e.span.lo, t.hi, 0⟩
    if t.kind = .number then
      skip 1
      return .compound upTo none .field [e]
    let name ← expectName
    if name = "await" then return .compound upTo none .await [e]
    if (← nextIs "::") && (← looksAt 1 "<") then
      skip 1
      skipGenerics
    if ← nextIs "(" then
      let (args, hi) ← callArgs g
      return .methodCall ⟨e.span.lo, hi, 0⟩ none e name args
    return .compound upTo none .field [e]

/-- One suffix of an expression, if one follows. -/
def suffix (g : Grammar) (e : Expr) : Parse (Expr ⊕ Expr) := do
  if ← nextIs "?" then
    let t ← next
    return .inl (.compound ⟨e.span.lo, t.hi, 0⟩ none .question [e])
  if ← nextIs "." then return .inl (← member g e)
  if ← nextIs "(" then
    let (args, hi) ← callArgs g
    return .inl (.compound ⟨e.span.lo, hi, 0⟩ none .call (e :: args))
  if ← nextIs "[" then
    skip 1
    let index ← g.expr false
    let close ← expect "]"
    return .inl (.compound ⟨e.span.lo, close.hi, 0⟩ none .index [e, index])
  return .inr e

/-- An expression with all suffixes that follow it. -/
def suffixes (g : Grammar) (e : Expr) : Parse Expr := iterate (suffix g) e

/-- A primary expression with marks before and suffixes behind it. -/
def unaryOf (g : Grammar) (bare : Bool) : Parse Expr := do
  let plain : Parse Expr := do suffixes g (← primaryOf g bare)
  match ← look 0 with
  | none => plain
  | some t =>
    if t.isPunct "-" || t.isPunct "!" || t.isPunct "*" then
      skip 1
      let operand ← g.unary bare
      return .compound ⟨t.lo, operand.span.hi, 0⟩ none .unary [operand]
    if t.isPunct "&" || t.isPunct "&&" then
      skip 1
      let _ ← accept "mut"
      let operand ← g.unary bare
      return .compound ⟨t.lo, operand.span.hi, 0⟩ none .borrow [operand]
    plain

/-- Casts of an expression. -/
def casts (g : Grammar) (bare : Bool) : Parse Expr := do
  iterate (fun (e : Expr) => do
    if ← accept "as" then
      let _ ← g.ty
      return .inl (.compound (← spanFrom e.span.lo) none .cast [e])
    return .inr e) (← unaryOf g bare)

/-- Binary operators of at least some strength behind a left operand. -/
def binaryFrom (g : Grammar) (strength : Nat) (bare : Bool) (left : Expr) : Parse Expr :=
  iterate (fun (left : Expr) => do
    match ← pendingOperator with
    | none => return .inr left
    | some (s, width) =>
      if s < strength then return .inr left
      skip width
      let right ← g.operand (s + 1) bare
      return .inl (.compound (left.span.through right.span) none .binary [left, right])) left

/-- Casts joined by binary operators of at least some strength. -/
def operandOf (g : Grammar) (strength : Nat) (bare : Bool) : Parse Expr := do
  binaryFrom g strength bare (← casts g bare)

/-- Whether the mark of a range is next. -/
def nextIsRange : Parse Bool := looksAtOneOf 0 ["..", "..="]

/-- The mark and upper end of a range; `lower` is its lower end. -/
def rangeFrom (g : Grammar) (bare : Bool) (lower : Expr) : Parse Expr := do
  if ← nextIsRange then
    let mark ← next
    if ← canStart bare then
      let upper ← g.operand 0 bare
      return .compound (lower.span.through upper.span) none .range [lower, upper]
    return .compound ⟨lower.span.lo, mark.hi, 0⟩ none .range [lower]
  return lower

/-- A range, with or without ends, or an operand. -/
def rangeOf (g : Grammar) (bare : Bool) : Parse Expr := do
  if ← nextIsRange then
    let mark ← next
    if ← canStart bare then
      let upper ← g.operand 0 bare
      return .compound ⟨mark.lo, upper.span.hi, 0⟩ none .range [upper]
    return .compound ⟨mark.lo, mark.hi, 0⟩ none .range []
  rangeFrom g bare (← operandOf g 0 bare)

/-- The right side of an assignment, if `left` is assigned to. -/
def assignFrom (g : Grammar) (bare : Bool) (left : Expr) : Parse Expr := do
  match ← assignWidth with
  | 0 => return left
  | width =>
    skip width
    let right ← g.expr bare
    return .compound (left.span.through right.span) none .assign [left, right]

/-- An expression. -/
def exprOf (g : Grammar) (bare : Bool) : Parse Expr := do
  assignFrom g bare (← rangeOf g bare)

/-- An expression that begins with one already read. -/
def exprFrom (g : Grammar) (left : Expr) : Parse Expr := do
  assignFrom g false (← rangeFrom g false (← binaryFrom g 0 false left))

end BuilderMigration.Grammar
