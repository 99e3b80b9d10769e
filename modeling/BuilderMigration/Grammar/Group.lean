import BuilderMigration.Grammar.Parse

/-! Tokens that are passed over: balanced groups, attributes, generic arguments, and runs of
tokens up to a stop, with whole groups at a time. All of it is structural in the tokens. -/

namespace BuilderMigration.Parse

/-- Passes over the tokens up to and with the one that closes the outermost of some open groups,
the innermost of which stands first. `last` is the end of the token read before. -/
def closeGroups : List Delimiter → Int → List Token → Except SyntaxError Cursor
  | [], last, ts => .ok ⟨ts, last⟩
  | _ :: _, _, [] => .error (SyntaxError.atEnd .text)
  | d :: ds, _, t :: ts =>
    match t.opens? with
    | some e => closeGroups (e :: d :: ds) t.hi ts
    | none =>
      match t.closes? with
      | some e =>
        if e = d then closeGroups ds t.hi ts
        else .error ⟨.mismatchedDelimiter t.value, t.line, t.column⟩
      | none => closeGroups (d :: ds) t.hi ts

/-- Reads one balanced group, with its delimiters, and gives the token that closes it: the last one
read. -/
def readGroup : Parse Token := do
  let t ← next
  match t.opens? with
  | none => rejectAt t (.expected "delimiter" t.value)
  | some d =>
    let c ← get
    match closeGroups [d] c.last c.rest with
    | .ok c' =>
      set c'
      return (c.readTo c').getLastD t
    | .error e => throw (.rejected e)

/-- Passes over one balanced group, with its delimiters. -/
def skipGroup : Parse Unit := do let _ ← readGroup

theorem skipGroup_eq : skipGroup = (do
    let t ← next
    match t.opens? with
    | none => rejectAt t (.expected "delimiter" t.value)
    | some d =>
      let c ← get
      match closeGroups [d] c.last c.rest with
      | .ok c' => set c'
      | .error e => throw (.rejected e)) := by
  funext ⟨ts, last⟩
  cases ts with
  | nil => rfl
  | cons t ts =>
    change (readGroup >>= fun _ => pure ()) _ = _
    simp only [readGroup, bind, StateT.bind, Except.bind, next]
    cases t.opens? with
    | none => rfl
    | some d =>
      simp only [get, getThe, MonadStateOf.get, StateT.get, StateT.bind, bind, Except.bind, pure, Except.pure]
      cases closeGroups [d] t.hi ts <;> rfl

/-- What to do at a token outside of all groups: stop before it, pass over it, and with it over
the group that it may open, or give up. -/
inductive Verdict (σ : Type) where
  | halt
  | pass (s : σ)
  | reject (cause : SyntaxError.Cause)

/-- Passes over tokens as `judge` says, which sees the tokens outside of groups, until it stops;
`ended` says what it means that the text ends first. -/
def sweepFrom {σ : Type} (judge : σ → Token → Verdict σ) (ended : Option Unfinished) :
    List Delimiter → σ → Int → List Token → Except SyntaxError Cursor
  | [], _, last, [] =>
    match ended with
    | none => .ok ⟨[], last⟩
    | some during => .error (SyntaxError.atEnd during)
  | [], s, last, t :: ts =>
    match judge s t with
    | .halt => .ok ⟨t :: ts, last⟩
    | .reject cause => .error ⟨cause, t.line, t.column⟩
    | .pass s' => sweepFrom judge ended t.opens?.toList s' t.hi ts
  | _ :: _, _, _, [] => .error (SyntaxError.atEnd .text)
  | d :: ds, s, _, t :: ts =>
    match t.opens? with
    | some e => sweepFrom judge ended (e :: d :: ds) s t.hi ts
    | none =>
      match t.closes? with
      | some e =>
        if e = d then sweepFrom judge ended ds s t.hi ts
        else .error ⟨.mismatchedDelimiter t.value, t.line, t.column⟩
      | none => sweepFrom judge ended (d :: ds) s t.hi ts

/-- Passes over tokens from the cursor. -/
def sweep {σ : Type} (judge : σ → Token → Verdict σ) (ended : Option Unfinished) (s : σ) :
    Parse Unit := do
  let c ← get
  match sweepFrom judge ended [] s c.last c.rest with
  | .ok c' => set c'
  | .error e => throw (.rejected e)

/-- Quoted names in brackets, as a list of alternatives is written in messages. -/
def alternatives (vs : List String) : String :=
  "[" ++ String.intercalate ", " (vs.map fun v => "'" ++ v ++ "'") ++ "]"

/-- Passes over tokens up to one of `stops`, which are given in order of their text. A group must
not close before. -/
def skipTo (stops : List String) : Parse Unit :=
  sweep (fun _ t =>
    if t.isOneOf stops then .halt
    else if t.closes?.isSome then .reject (.unbalancedDelimiter t.value)
    else .pass ()) (some (.awaiting ("one of " ++ alternatives stops))) ()

/-- Passes over the rest of an item: up to a semicolon, or through a group in braces and a
semicolon behind it. -/
def skipItemRest : Parse Unit := do
  sweep (fun _ t =>
    if t.isPunct ";" || t.isPunct "\x7b" then .halt
    else if t.closes?.isSome then .reject (.unbalancedDelimiter t.value)
    else .pass ()) (some .item) ()
  if ← accept ";" then return
  skipGroup
  let _ ← accept ";"

/-- Passes over generic arguments in angle brackets, `depth` of which are open beside the first. -/
def skipGenerics : Parse Unit := do
  let _ ← expect "<"
  sweep (fun (depth : Nat) t =>
    if t.isPunct "<" then .pass (depth + 1)
    else if t.isPunct ">" then
      match depth with
      | 0 => .halt
      | d + 1 => .pass d
    else .pass depth) (some .genericArguments) 0
  let _ ← next

/-- Passes over attributes. -/
def skipAttributes : Parse Unit :=
  iterate (fun (_ : Unit) => do
    if ← nextIs "#" then
      if ← looksAt 1 "[" then
        skip 1
        skipGroup
        return .inl ()
      else if (← looksAt 1 "!") && (← looksAt 2 "[") then
        skip 2
        skipGroup
        return .inl ()
      else return .inr ()
    else return .inr ()) ()

end BuilderMigration.Parse
