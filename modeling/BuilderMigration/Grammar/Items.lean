import BuilderMigration.Grammar.Statements

/-! Productions of items. -/

namespace BuilderMigration.Grammar

open Parse

/-! ### Functions -/

/-- The number of tokens of a receiver, if the next parameter is one: `self`, perhaps mutable,
perhaps behind a reference with a lifetime. -/
def receiver? : Parse (Option Nat) := do
  let marks ←
    if ← nextIs "&" then
      if ← looksAtKind 1 .lifetime then pure 2 else pure 1
    else pure 0
  let before ← if ← looksAt marks "mut" then pure (marks + 1) else pure marks
  if (← looksAt before "self") && !(← looksAt (before + 1) "::") then return some (before + 1)
  return none

/-- One parameter of a function. -/
def fnParam (g : Grammar) : Parse Param := do
  skipAttributes
  match ← look 0 with
  | none => rejectEnd .parameterList
  | some t =>
    match ← receiver? with
    | some width =>
      skip width
      let ty ← declaredType g
      let span ← spanFrom t.lo
      return ⟨span, .binding span "self" false, ty, none⟩
    | none =>
      let p ← pattern [":", ",", ")"]
      let ty ← declaredType g
      return ⟨← spanFrom t.lo, p, ty, none⟩

/-- A function whose item begins at `lo`. Its result type and its bounds are passed over. -/
def fnItem (g : Grammar) (lo : Int) : Parse Item := do
  let _ ← expect "fn"
  let name ← expectName
  if ← nextIs "<" then skipGenerics
  let _ ← expect "("
  let (params, _) ← commaList ")" (fnParam g)
  let _ ← expect ")"
  skipTo [";", "\x7b"]
  let body ←
    if ← nextIs "\x7b" then pure (some (← g.block .plain none))
    else
      let _ ← expect ";"
      pure none
  return .fn (← spanFrom lo) name params body

/-! ### Other items -/

/-- A `use` whose item begins at `lo`. -/
def useItem (g : Grammar) (lo : Int) : Parse Item := do
  let _ ← expect "use"
  let leaves ← useTreeOf g []
  let _ ← expect ";"
  let imports := leaves.filterMap fun | .named i => some i | .glob _ => none
  let globs := leaves.filterMap fun | .named _ => none | .glob p => some p
  return .use (← spanFrom lo) imports globs

/-- Items up to a closing brace if `braced`, else up to the end of the text. -/
def items (item : Parse Item) (braced : Bool) : Parse (List Item) := do
  let (found, _) ← collect do
    skipAttributes
    if (← look 0).isNone then
      if braced then rejectEnd (.awaiting "'\x7d'") else return .stop ()
    else if braced && (← nextIs "\x7d") then return .stop ()
    else if ← accept ";" then return .skip
    else return .one (← item)
  return found

/-- The items that other items stand in. -/
def container? (t : Token) : Option ContainerKind :=
  if t.kind = .ident then
    [("impl", ContainerKind.implementation), ("trait", .interface), ("mod", .module)].lookup t.value
  else none

/-- A container with its items, or its declaration. -/
def container (g : Grammar) (lo : Int) (kind : ContainerKind) : Parse Item := do
  skip 1
  skipTo [";", "\x7b"]
  if ← accept ";" then return .other (← spanFrom lo)
  let _ ← expect "\x7b"
  let inner ← items g.item true
  let _ ← expect "\x7d"
  return .container (← spanFrom lo) kind inner

/-- A macro call as an item: its group and a semicolon behind it are passed over. -/
def macroItem (lo : Int) : Parse Item := do
  skip 2
  let _ ← acceptKind .ident
  skipGroup
  let _ ← accept ";"
  return .other (← spanFrom lo)

/-- Passes over one qualifier of an item, if one is next. -/
def qualifier : Parse Bool := do
  if ← looksAtOneOf 0 ["async", "unsafe"] then
    skip 1
    return true
  if (← nextIs "const") && (← looksAtOneOf 1 ["fn", "unsafe", "async", "extern"]) then
    skip 1
    return true
  if ← nextIs "extern" then
    if (← looksAt 1 "fn") || ((← looksAtKind 1 .string) && (← looksAt 2 "fn")) then
      skip 1
      let _ ← acceptKind .string
      return true
  return false

/-- The visibility and the qualifiers of an item. -/
def qualifiers : Parse Unit := do
  if ← accept "pub" then
    if ← nextIs "(" then skipGroup
  iterate (fun (_ : Unit) => do if ← qualifier then return .inl () else return .inr ()) ()

/-- An item. -/
def itemOf (g : Grammar) : Parse Item := do
  skipAttributes
  let lo := ((← look 0).map (·.lo)).getD 0
  qualifiers
  match ← look 0 with
  | none => rejectEnd (.awaiting "item")
  | some t =>
    if t.isKeyword "fn" then return ← fnItem g lo
    if t.isKeyword "use" then return ← useItem g lo
    if let some kind := container? t then return ← container g lo kind
    if t.kind ≠ .ident then rejectAt t (.unexpectedToken t.value)
    else if ← looksAt 1 "!" then macroItem lo
    else if ["const", "static", "type"].contains t.value then
      skipTo [";"]
      let _ ← expect ";"
      return .other (← spanFrom lo)
    else
      skipItemRest
      return .other (← spanFrom lo)

end BuilderMigration.Grammar
