import BuilderMigration.Rewrite.Emit

/-! Interaction responses, which become variants of an enumeration that carry their payload. -/

namespace BuilderMigration

/-- A variant of a response and the builder of its payload, if it carries one. -/
structure ResponseVariant where
  name : String
  payload : Option String
  deriving DecidableEq

namespace ResponseVariant

def messagePayload : String := "CreateInteractionResponseMessage"

/-- A message is the response where none is named. -/
def message : ResponseVariant := ⟨"Message", some messagePayload⟩

/-- The variants by the tags that name them. -/
def byTag : List (String × ResponseVariant) :=
  [("Pong", ⟨"Pong", none⟩),
   ("ChannelMessageWithSource", message),
   ("DeferredChannelMessageWithSource", ⟨"Defer", some messagePayload⟩),
   ("DeferredUpdateMessage", ⟨"Acknowledge", none⟩),
   ("UpdateMessage", ⟨"UpdateMessage", some messagePayload⟩),
   ("Autocomplete", ⟨"Autocomplete", some "CreateAutocompleteResponse"⟩),
   ("Modal", ⟨"Modal", some "CreateModal"⟩)]

/-- The tag that the first `kind` call of a chain gives: the last segment of a path. -/
def tag? (c : Chain Ready) : Option String :=
  match c.find? "kind" with
  | some ⟨_, [.literal _ (some path)]⟩ => path.getLast?
  | _ => none

/-- The variant that a chain asks for. -/
def ofChain (c : Chain Ready) : ResponseVariant :=
  ((tag? c).bind fun tag => Assoc.get? tag byTag).getD message

end ResponseVariant

namespace Workshop

/-- The calls of the first data closure of a response. -/
def responseData (c : ReadyClosure) : Rewrite (List ReadyCall) :=
  match c.chain.find? "interaction_response_data" with
  | none => return []
  | some call => do
    let (data, _) ← closureArg call c.span
    refuseStmts data
    return data.chain.calls

/-- Gives up on the first call that a response does not have. -/
def refuseOtherCalls (c : ReadyClosure) : Rewrite Unit :=
  match c.chain.calls.find? fun call =>
      call.field ≠ "kind" ∧ call.field ≠ "interaction_response_data" with
  | none => return ()
  | some call =>
    Rewrite.refuse ("unexpected call `" ++ call.field ++ "` on CreateInteractionResponse")
      (some c.span)

/-- A response becomes its variant around the builder of its payload. -/
def response (w : Workshop) (c : ReadyClosure) : Rewrite String := do
  refuseStmts c
  refuseOtherCalls c
  let variant := ResponseVariant.ofChain c.chain
  let calls ← responseData c
  let head := "CreateInteractionResponse::" ++ variant.name
  match variant.payload with
  | none =>
    if !calls.isEmpty then
      Rewrite.note ("`" ++ variant.name
        ++ "` responses carry no data; the response data setters were dropped") (some c.span)
    return head
  | some payload =>
    let (args, rest) ← w.splitRequired payload calls (some c.span)
    let close := if w.settings.multiline then "\n)" else ")"
    return head ++ "(" ++ construct payload args ++ (← w.setters rest) ++ close

end Workshop

end BuilderMigration
