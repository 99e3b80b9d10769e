import BuilderMigration.Assoc
import BuilderMigration.Settings.Basic

/-! Which builder a closure configures, by the method it is passed to. -/

namespace BuilderMigration

/-- The builders of closures passed to methods of values that are no builders (`entryPoints`), to
methods of a builder (`nested`, where the receiver `*` is any builder), and to methods of values
of which nothing is known (`fallbacks`). -/
structure Signatures where
  entryPoints : List (String × String)
  nested : List ((String × String) × String)
  fallbacks : List (String × String)
  deriving DecidableEq

namespace Signatures

/-- Stands for any receiver that is a builder. -/
def anyBuilder : String := "*"

/-- The signatures of the library whose builders are migrated. -/
def builtin : Signatures where
  entryPoints :=
    [("send_message", "CreateMessage"),
     ("send_files", "CreateMessage"),
     ("edit_message", "EditMessage"),
     ("create_interaction_response", "CreateInteractionResponse"),
     ("edit_original_interaction_response", "EditInteractionResponse"),
     ("create_followup_message", "CreateInteractionResponseFollowup"),
     ("edit_followup_message", "CreateInteractionResponseFollowup"),
     ("create_autocomplete_response", "CreateAutocompleteResponse"),
     ("create_global_application_command", "CreateApplicationCommand"),
     ("create_application_command", "CreateApplicationCommand"),
     ("set_application_commands", "CreateApplicationCommands"),
     ("set_global_application_commands", "CreateApplicationCommands"),
     ("create_channel", "CreateChannel"),
     ("create_thread", "CreateThread"),
     ("create_public_thread", "CreateThread"),
     ("create_private_thread", "CreateThread"),
     ("create_webhook", "CreateWebhook"),
     ("edit_member", "EditMember"),
     ("create_role", "EditRole"),
     ("edit_role", "EditRole"),
     ("create_sticker", "CreateSticker"),
     ("create_scheduled_event", "CreateScheduledEvent"),
     ("create_stage_instance", "CreateStageInstance"),
     ("add_member", "AddMember"),
     ("create_invite", "CreateInvite"),
     ("execute", "ExecuteWebhook"),
     ("edit_profile", "EditProfile")]
  nested :=
    [((anyBuilder, "embed"), "CreateEmbed"),
     ((anyBuilder, "add_embed"), "CreateEmbed"),
     ((anyBuilder, "components"), "CreateComponents"),
     ((anyBuilder, "allowed_mentions"), "CreateAllowedMentions"),
     (("CreateEmbed", "author"), "CreateEmbedAuthor"),
     (("CreateEmbed", "footer"), "CreateEmbedFooter"),
     (("CreateInteractionResponse", "interaction_response_data"), "CreateInteractionResponseData"),
     (("CreateComponents", "create_action_row"), "CreateActionRow"),
     (("CreateActionRow", "create_button"), "CreateButton"),
     (("CreateActionRow", "create_select_menu"), "CreateSelectMenu"),
     (("CreateActionRow", "create_input_text"), "CreateInputText"),
     (("CreateSelectMenu", "options"), "CreateSelectMenuOptions"),
     (("CreateSelectMenuOptions", "create_option"), "CreateSelectMenuOption"),
     (("CreateApplicationCommand", "create_option"), "CreateApplicationCommandOption"),
     (("CreateApplicationCommandOption", "create_sub_option"), "CreateApplicationCommandOption"),
     (("CreateApplicationCommands", "create_application_command"), "CreateApplicationCommand")]
  fallbacks :=
    [("embed", "CreateEmbed"),
     ("add_embed", "CreateEmbed"),
     ("components", "CreateComponents"),
     ("author", "CreateEmbedAuthor"),
     ("footer", "CreateEmbedFooter"),
     ("create_action_row", "CreateActionRow"),
     ("create_button", "CreateButton"),
     ("create_select_menu", "CreateSelectMenu"),
     ("create_input_text", "CreateInputText"),
     ("interaction_response_data", "CreateInteractionResponseData")]

/-- The receiver and the method that a configured key names: the receiver stands before the first
dot. -/
def splitKey (key : String) : Option String × String :=
  let receiver := key.toList.takeWhile (· ≠ '.')
  match key.toList.drop receiver.length with
  | [] => (none, key)
  | _ :: method => (some (String.ofList receiver), String.ofList method)

/-- Adds one configured signature. -/
def add (t : Signatures) (entry : String × String) : Signatures :=
  match splitKey entry.1 with
  | (some receiver, method) => { t with nested := Assoc.put (receiver, method) entry.2 t.nested }
  | (none, method) => { t with entryPoints := Assoc.put method entry.2 t.entryPoints }

/-- The built-in signatures with those of the settings. -/
def ofSettings (settings : Settings) : Signatures := settings.closureSignatures.foldl add builtin

/-- Every builder that the signatures mention. -/
def knownBuilders (t : Signatures) : List String :=
  t.entryPoints.map (·.2) ++ t.nested.map (·.2) ++ t.fallbacks.map (·.2)
    ++ (t.nested.map (·.1.1)).filter (· ≠ anyBuilder)

/-- The builder that a closure passed to `method` configures. `receiver` is the builder that the
method is called on, if it is one; `known` says whether the receiver has a known type at all. -/
def lookup (t : Signatures) (method : String) (receiver : Option String) (known : Bool) :
    Option String :=
  match receiver with
  | some builder =>
    (Assoc.get? (builder, method) t.nested).orElse
      fun _ => Assoc.get? (anyBuilder, method) t.nested
  | none =>
    match Assoc.get? method t.entryPoints with
    | some builder => some builder
    | none => if known then none else Assoc.get? method t.fallbacks

end Signatures

end BuilderMigration
