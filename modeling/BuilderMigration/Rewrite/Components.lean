import BuilderMigration.Rewrite.Emit

/-! Message components, which become plain values: rows of buttons or of one select menu. -/

namespace BuilderMigration.Workshop

/-! ### Rows -/

/-- The buttons of a row so far and its latest select menu. -/
structure Row where
  buttons : List String := []
  menu : Option String := none

/-- Adds what one call puts into a row. -/
def rowCall (w : Workshop) (span : Span) (row : Row) (call : ReadyCall) : Rewrite Row := do
  if call.field = "create_button" then
    let (_, rewritten) ← closureArg call span
    return { row with buttons := row.buttons ++ [← rewritten] }
  else if call.field = "add_button" then
    let value ← literalArg call span
    return { row with buttons := row.buttons ++ [← w.arg value] }
  else if call.field = "create_select_menu" then
    let (_, rewritten) ← closureArg call span
    return { row with menu := some (← rewritten) }
  else if call.field = "add_select_menu" then
    let value ← literalArg call span
    return { row with menu := some (← w.arg value) }
  else if call.field = "create_input_text" || call.field = "add_input_text" then
    Rewrite.refuse "input text components are not supported" (some span)
  else
    Rewrite.refuse ("unexpected call `" ++ call.field ++ "` in an action row") (some span)

/-- A row holds one kind of component only: buttons win over a select menu. -/
def actionRow (w : Workshop) (c : ReadyClosure) : Rewrite String := do
  refuseStmts c
  let row ← c.chain.calls.foldlM (w.rowCall c.span) {}
  match row.buttons, row.menu with
  | [], none => Rewrite.refuse "empty action row" (some c.span)
  | [], some menu => return "CreateActionRow::SelectMenu(" ++ menu ++ ")"
  | buttons, menu =>
    if menu.isSome then
      Rewrite.note
        "an action row holds either buttons or a select menu; the select menu was dropped"
        (some c.span)
    return "CreateActionRow::Buttons(" ++ w.vector buttons ++ ")"

/-- One row of components. -/
def componentRow (w : Workshop) (span : Span) (call : ReadyCall) : Rewrite String := do
  if call.field = "create_action_row" then
    let (row, _) ← closureArg call span
    w.actionRow row
  else
    Rewrite.refuse ("unexpected call `" ++ call.field ++ "` on CreateComponents") (some span)

/-- Components become the vector of their rows. -/
def components (w : Workshop) (c : ReadyClosure) : Rewrite String := do
  refuseStmts c
  return w.vector (← c.chain.calls.mapM (w.componentRow c.span))

/-! ### Buttons -/

/-- What a button or a select menu is given so far; the values of its own fields are the latest. -/
structure Fields where
  first : Option String := none
  second : Option String := none
  rest : List ReadyCall := []

/-- A call of a button: its address, its id or a setter. -/
def buttonCall (w : Workshop) (f : Fields) (call : ReadyCall) : Rewrite Fields := do
  if call.field = "url" then return { f with first := some (← w.argList call.args) }
  else if call.field = "custom_id" then return { f with second := some (← w.argList call.args) }
  else return { f with rest := f.rest ++ [call] }

/-- A button with an address is a link; any other has an id. -/
def button (w : Workshop) (c : ReadyClosure) : Rewrite String := do
  refuseStmts c
  let f ← c.chain.calls.foldlM w.buttonCall {}
  match f.first with
  | some url =>
    if f.second.isSome then
      Rewrite.note "link buttons have no custom id; `custom_id` was dropped" (some c.span)
    return "CreateButton::new_link(" ++ url ++ ")" ++ (← w.setters f.rest)
  | none =>
    if f.second.isNone then
      Rewrite.note (missingField "CreateButton" "custom_id") (some c.span)
    return construct "CreateButton" f.second.toList ++ (← w.setters f.rest)

/-! ### Select menus -/

/-- One option of a select menu. -/
def menuOption (w : Workshop) (span : Span) (call : ReadyCall) : Rewrite String := do
  if call.field = "create_option" then
    let (_, rewritten) ← closureArg call span
    rewritten
  else if call.field = "add_option" then
    w.arg (← literalArg call span)
  else
    Rewrite.refuse ("unexpected call `" ++ call.field ++ "` in select menu options") (some span)

/-- The options of a select menu. -/
def menuOptions (w : Workshop) (span : Span) (call : ReadyCall) : Rewrite String := do
  let (options, _) ← closureArg call span
  refuseStmts options
  return w.vector (← options.chain.calls.mapM (w.menuOption options.span))

/-- A call of a select menu: its id, its options or a setter. -/
def menuCall (w : Workshop) (span : Span) (f : Fields) (call : ReadyCall) : Rewrite Fields := do
  if call.field = "custom_id" then return { f with first := some (← w.argList call.args) }
  else if call.field = "options" then return { f with second := some (← w.menuOptions span call) }
  else return { f with rest := f.rest ++ [call] }

/-- A select menu takes its id and its options as arguments. -/
def selectMenu (w : Workshop) (c : ReadyClosure) : Rewrite String := do
  refuseStmts c
  let f ← c.chain.calls.foldlM (w.menuCall c.span) {}
  if f.first.isNone then
    Rewrite.note (missingField "CreateSelectMenu" "custom_id") (some c.span)
  if f.second.isNone then Rewrite.note "select menu has no options" (some c.span)
  let options := f.second.getD (w.vector [])
  let kind := "CreateSelectMenuKind::String \x7b options: " ++ options ++ " \x7d"
  return construct "CreateSelectMenu" (f.first.toList ++ [kind]) ++ (← w.setters f.rest)

end BuilderMigration.Workshop
