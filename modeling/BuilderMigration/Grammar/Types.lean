import BuilderMigration.Grammar.Basic

/-! Productions of types and patterns, and of the names that a `use` brings in. -/

namespace BuilderMigration.Grammar

open Parse

/-! ### Types -/

/-- The names of a path, each with the generic arguments it may carry; function traits may carry
parameters and a result. -/
def pathType (g : Grammar) : Parse (List String) := do
  let _ ← accept "::"
  let (names, _) ← collect do
    let name ← expectName
    if ← nextIs "<" then skipGenerics
    else if (← nextIs "::") && (← looksAt 1 "<") then
      skip 1
      skipGenerics
    else if (← nextIs "(") && ["Fn", "FnMut", "FnOnce"].contains name then
      skipGroup
      if ← accept "->" then let _ ← g.ty
    if (← nextIs "::") && (← looksAtKind 1 .ident) then
      skip 1
      return .one name
    return .last name ()
  return names

/-- Bounds joined by plus signs. -/
def bounds (g : Grammar) : Parse Unit :=
  iterate (fun (_ : Unit) => do
    let _ ← accept "?"
    if ← acceptKind .lifetime then pure ()
    else if ← nextIs "(" then skipGroup
    else
      if ← accept "for" then skipGenerics
      let _ ← pathType g
    if ← accept "+" then return .inl () else return .inr ()) ()

/-- A reference; the mark for two references makes an outer one that is not mutable. -/
def referenceType (g : Grammar) (mark : Token) : Parse Ty := do
  skip 1
  let _ ← acceptKind .lifetime
  let mutable ← accept "mut"
  let inner ← g.ty
  let ty := Ty.ref inner mutable
  return if mark.value = "&&" then .ref ty false else ty

def pointerType (g : Grammar) : Parse Ty := do
  skip 1
  unless ← accept "const" do let _ ← expect "mut"
  let _ ← g.ty
  return .other "*ptr"

/-- Types in parentheses: a single one without a comma behind it stands for itself. -/
def tupleType (g : Grammar) : Parse Ty := do
  skip 1
  let (elems, trailing) ← commaList ")" g.ty
  let _ ← expect ")"
  match elems, trailing with
  | [ty], false => return ty
  | _, _ => return .tuple elems

/-- A path that starts from a type in angle brackets. -/
def qualifiedType (g : Grammar) : Parse Ty := do
  skipGenerics
  iterate (fun (_ : Unit) => do
    if ← accept "::" then
      let _ ← pathType g
      return .inl ()
    return .inr ()) ()
  return .other "<qualified>"

def functionType (g : Grammar) : Parse Ty := do
  let _ ← accept "unsafe"
  if ← accept "extern" then let _ ← acceptKind .string
  let _ ← expect "fn"
  skipGroup
  if ← accept "->" then let _ ← g.ty
  return .other "fn"

/-- A type. -/
def typeOf (g : Grammar) : Parse Ty := do
  match ← look 0 with
  | none => rejectEnd (.awaiting "type")
  | some t =>
    if t.isPunct "&" || t.isPunct "&&" then referenceType g t
    else if t.isPunct "*" then pointerType g
    else if t.isPunct "(" then tupleType g
    else if t.isPunct "[" then
      skipGroup
      return .other "[_]"
    else if t.isPunct "!" then
      skip 1
      return .other "!"
    else if t.isPunct "<" then qualifiedType g
    else if t.isKeyword "impl" || t.isKeyword "dyn" then
      skip 1
      bounds g
      return .other t.value
    else if t.isKeyword "for" then
      skip 1
      skipGenerics
      g.ty
    else if t.isKeyword "fn" || t.isKeyword "unsafe" || t.isKeyword "extern" then functionType g
    else if t.kind = .lifetime then
      skip 1
      return .other t.value
    else if t.kind = .ident || t.isPunct "::" then return .path (← pathType g)
    else rejectAt t (.expected "type" t.value)

/-- The type behind a colon, if there is a colon. -/
def declaredType (g : Grammar) : Parse (Option Ty) := do
  if ← accept ":" then return some (← g.ty) else return none

/-! ### Patterns -/

/-- Reads the tokens of a pattern: up to one of `stops`, a closing delimiter or the end of the
text. There has to be one. -/
def patternTokens (stops : List String) : Parse (List Token) := do
  let before := (← get).rest
  sweep (fun _ t => if t.isOneOf stops || t.closes?.isSome then .halt else .pass ()) none ()
  let after := (← get).rest
  match before.take (before.length - after.length) with
  | [] =>
    match after with
    | t :: _ => rejectAt t .missingPattern
    | [] => throw (.rejected { cause := .missingPattern })
  | ts => return ts

/-- The pattern that some tokens make: only plain and mutable names are told apart. -/
def Pattern.ofTokens (span : Span) : List Token → Pattern
  | [t] => if t.kind = .ident ∧ t.value ≠ "_" then .binding span t.value false else .other span
  | [t, u] =>
    if t.isKeyword "mut" ∧ u.kind = .ident then .binding span u.value true else .other span
  | _ => .other span

/-- A pattern. -/
def pattern (stops : List String) : Parse Pattern := do
  let ts ← patternTokens stops
  let lo := (ts.head?.map (·.lo)).getD 0
  let hi := (ts.getLast?.map (·.hi)).getD 0
  return Pattern.ofTokens ⟨lo, hi, 0⟩ ts

/-! ### Imports -/

/-- The end of a path in a `use`: `self` stands for the path so far, and a name behind `as`
replaces the last one. -/
def useName (path : List String) (name : String) : Parse UseLeaf := do
  let full := if name = "self" then path else path ++ [name]
  let own := if name = "self" then path.getLastD name else name
  if ← accept "as" then return .named ⟨full, ← expectName⟩
  return .named ⟨full, own⟩

/-- The names and double colons of a path in a `use` and what ends it: a group or glob under the
path, or its last name. -/
def usePath (g : Grammar) (path : List String) : Parse (List UseLeaf) :=
  iterate (fun (path : List String) => do
    let name ← expectName
    if ← accept "::" then
      let path := path ++ [name]
      if (← nextIs "\x7b") || (← nextIs "*") then return .inr (← g.useTree path)
      return .inl path
    return .inr [← useName path name]) path

/-- Everything that a tree of names under the path `path` brings in. -/
def useTreeOf (g : Grammar) (path : List String) : Parse (List UseLeaf) := do
  let _ ← accept "::"
  if ← accept "\x7b" then
    let (groups, _) ← commaList "\x7d" (g.useTree path)
    let _ ← expect "\x7d"
    return groups.flatten
  if ← accept "*" then return [.glob path]
  usePath g path

end BuilderMigration.Grammar
