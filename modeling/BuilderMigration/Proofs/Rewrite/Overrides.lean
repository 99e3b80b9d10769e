import BuilderMigration.Proofs.Rewrite.Kept
import BuilderMigration.Proofs.Rewrite.Registry
import BuilderMigration.Proofs.Rewrite.Rows

/-! Overrides of required fields: for which builders the constructor takes what the settings say, in
whichever way its closure is rewritten. -/

namespace BuilderMigration

open Rewrite

namespace Workshop

variable {w : Workshop} {rules : Rules} {k : Int} {c : BuilderClosure}

/-! ### Buttons -/

section

variable {call : ReadyCall} {calls : List ReadyCall}

theorem buttonCall_eq (f : Fields) (call : ReadyCall) :
    w.buttonCall f call = w.buttonCall {} call >>= fun f' => pure (f.put f') := by
  unfold buttonCall
  split_ifs <;> simp [Fields.put]

/-- What one call gives to a button. -/
def buttonFields (w : Workshop) (k : Int) (call : ReadyCall) : Fields :=
  if call.field = "url" then { first := some (w.textOf k call) }
  else if call.field = "custom_id" then { second := some (w.textOf k call) }
  else { rest := [call] }

theorem comesTo_buttonCall (h : ∀ a ∈ call.args, a.Determined) :
    ComesTo k (w.buttonCall {} call) (.ok (w.buttonFields k call))
      (if Rule.button.keeps call.field then [] else w.notesOf k call) := by
  unfold buttonCall buttonFields
  by_cases hurl : call.field = "url"
  · simpa [hurl, Rule.keeps] using
      (comesTo_argList h).bind_pure fun text => ({ first := some text } : Fields)
  · by_cases hid : call.field = "custom_id"
    · simpa [hid, Rule.keeps] using
        (comesTo_argList h).bind_pure fun text => ({ second := some text } : Fields)
    · simpa [hurl, hid, Rule.keeps] using ComesTo.pure ({ rest := [call] } : Fields)

/-- All calls of a button together. -/
theorem foldl_buttonFields (calls : List ReadyCall) (f : Fields) :
    (calls.map (w.buttonFields k)).foldl Fields.put f =
      ⟨(calls.reverse.find? (·.field = "url")).map (w.textOf k) <|> f.first,
        (calls.reverse.find? (·.field = "custom_id")).map (w.textOf k) <|> f.second,
        f.rest ++ calls.filter (Rule.button.keeps ·.field)⟩ := by
  induction calls generalizing f with
  | nil => simp
  | cons call calls ih =>
    rw [List.map_cons, List.foldl_cons, ih, List.reverse_cons, List.find?_append, List.find?_append]
    by_cases hurl : call.field = "url"
    · cases calls.reverse.find? (·.field = "url") <;>
        simp [buttonFields, hurl, Rule.keeps, Fields.put]
    · by_cases hid : call.field = "custom_id"
      · cases calls.reverse.find? (·.field = "custom_id") <;>
          simp [buttonFields, hid, Rule.keeps, Fields.put]
      · simp [buttonFields, hurl, hid, Rule.keeps, Fields.put]

end

/-- The constructor of a button: that of a link where an address is set. -/
def buttonHead (w : Workshop) (rules : Rules) (k : Int) (c : BuilderClosure) : String :=
  match c.chain.last? "url" with
  | some url => "CreateButton::new_link(" ++ w.written rules k url ++ ")"
  | none => construct "CreateButton" ((c.chain.last? "custom_id").map (w.written rules k)).toList

/-- The note on an id that is dropped or missing. -/
def idNote (c : BuilderClosure) : List Note :=
  match c.chain.last? "url", c.chain.last? "custom_id" with
  | some _, some _ => [⟨"link buttons have no custom id; `custom_id` was dropped", some c.span⟩]
  | none, none => [missingNote "CreateButton" (some c.span) "custom_id"]
  | _, _ => []

/-- A button is its constructor with the calls that are kept behind it. -/
theorem comesTo_button (hs : c.stmts = []) (w : Workshop) (rules : Rules) (k : Int) :
    ComesTo k (w.button (w.readyClosure rules c))
      (.ok (w.buttonHead rules k c ++ String.join ((c.chain.calls.filter
        (Rule.button.keeps ·.field)).map fun call => w.setterText k (w.readyCall rules call))))
      ((c.chain.calls.flatMap fun call =>
          if Rule.button.keeps call.field then [] else w.writtenNotes rules k call) ++
        (idNote c ++ (c.chain.calls.filter (Rule.button.keeps ·.field)).flatMap
          (w.writtenNotes rules k))) := by
  have hcalls := (determinate_readyClosure w rules c).calls
  have hfold := ComesTo.foldlM (k := k) (buttonCall_eq (w := w))
    (fun call hcall => comesTo_buttonCall (hcalls call hcall)) {}
  have hkept : Determinate ((w.readyClosure rules c).chain.calls.filter (Rule.button.keeps ·.field)) :=
    fun call hcall => hcalls call (List.mem_of_mem_filter hcall)
  have hsetters := comesTo_setters (w := w) (k := k) hkept
  have hspan : (w.readyClosure rules c).span = c.span := rfl
  have hempty (text : Option String) : (text <|> none) = text := by cases text <;> rfl
  rw [foldl_buttonFields, List.nil_append, hempty, hempty, calls_readyClosure, last?_ready,
    last?_ready, List.filter_map, List.flatMap_map] at hfold
  rw [calls_readyClosure, List.filter_map, List.map_map, List.flatMap_map] at hsetters
  unfold button buttonHead idNote Chain.last?
  rw [refuseStmts_bind, isEmpty_stmts_ready, hs, hspan, List.isEmpty_nil, if_pos rfl, calls_readyClosure]
  refine hfold.bind ?_
  cases c.chain.calls.reverse.find? (·.field = "url") with
  | some url =>
    cases c.chain.calls.reverse.find? (·.field = "custom_id") with
    | some id => exact (ComesTo.note _ _).bind (hsetters.bind_pure _)
    | none => exact hsetters.bind_pure _
  | none =>
    cases c.chain.calls.reverse.find? (·.field = "custom_id") with
    | some id => exact hsetters.bind_pure _
    | none => exact (ComesTo.note _ _).bind (hsetters.bind_pure _)

/-! ### Constructors -/

/-- Where a closure has a constructor in its text: of which builder, what stands in front of it, and the
calls that it is made from. It begins the text, stands behind the binding of a block, or in a response
behind the variant. -/
inductive Constructs (c : BuilderClosure) : String → String → List BuilderCall → Prop
  | flat (hs : c.stmts = []) : Constructs c c.builder "" c.chain.calls
  | block (hs : c.stmts ≠ []) :
    Constructs c c.builder ("\x7b\nlet mut " ++ c.binding ++ " = ") c.chain.calls
  | payload {payload : String} {calls : List BuilderCall} (hb : c.builder = "CreateInteractionResponse")
      (hp : (ResponseVariant.askedBy (c.chain.find? "kind")).payload = some payload)
      (h : Opens c calls) :
    Constructs c payload ("CreateInteractionResponse::" ++
      (ResponseVariant.askedBy (c.chain.find? "kind")).name ++ "(") calls

/-- The values of fields that calls set, in the order of the fields; of several calls for a field the last
counts. -/
def argsFor (w : Workshop) (rules : Rules) (k : Int) (fields : List String) (calls : List BuilderCall) :
    List String :=
  fields.filterMap fun field => (calls.reverse.find? (·.field = field)).map (w.written rules k)

/-- A text whose constructor takes the values of the fields and nothing else, with a note on each field
that is not set. -/
structure TakesFields (w : Workshop) (rules : Rules) (builder before : String) (fields : List String)
    (calls : List BuilderCall) (span : Span) (text : String) (notes : List Note) : Prop where
  args : ∃ rest, text = before ++ (construct builder (w.argsFor rules span.ctxt fields calls) ++ rest)
  missing : ∀ field ∈ fields, (∀ call ∈ calls, call.field ≠ field) →
    missingNote builder (some span) field ∈ notes

/-- However a closure is rewritten: where its text has a constructor of the builder, this takes the
fields. -/
def HonoursFields (w : Workshop) (rules : Rules) (builder : String) (fields : List String)
    (c : BuilderClosure) : Prop :=
  ∀ before calls, Constructs c builder before calls → ∀ (d after : Draft) (text rest : String),
    w.rewriteClosure rules c d = (.ok text, after) → text = before ++ (builder ++ "::new(" ++ rest) →
      ∃ ns, after.notes = d.notes ++ ns ∧
        w.TakesFields rules builder before fields calls c.span text ns

section

variable {builder before text : String} {fields : List String} {calls : List BuilderCall}
  {d after : Draft} {ns : List Note}

theorem mem_unset (hfields : w.settings.required c.builder = fields) {ns ms : List Note} :
    ∀ field ∈ fields, (∀ call ∈ c.chain.calls, call.field ≠ field) →
      missingNote c.builder (some c.span) field ∈
        ns ++ (c.unset w.settings).map (missingNote c.builder (some c.span)) ++ ms := by
  intro field hfield hcalls
  have hunset : field ∈ c.unset w.settings :=
    List.mem_filter.2 ⟨hfields ▸ hfield, decide_eq_true hcalls⟩
  exact List.mem_append_left _ (List.mem_append_right _ (List.mem_map_of_mem hunset))

theorem argsFor_required (hfields : w.settings.required c.builder = fields) :
    w.constructorArgs rules k c = w.argsFor rules k fields c.chain.calls := hfields ▸ rfl

theorem intercalate_cons (sep s : String) (l : List String) :
    ∃ rest, String.intercalate sep (s :: l) = s ++ rest := by
  cases l with
  | nil => exact ⟨"", by rw [String.append_empty]; rfl⟩
  | cons t l => exact ⟨sep ++ String.intercalate sep (t :: l), by
      rw [String.intercalate_cons_cons, String.append_assoc]⟩

/-- The general form takes the fields that the settings say. -/
theorem takesFields_flat (hrule : rules.find? c.builder = none) (hs : c.stmts = [])
    (hfields : w.settings.required c.builder = fields)
    (hd : w.rewriteClosure rules c d = (.ok text, after)) : ∃ ns, after.notes = d.notes ++ ns ∧
      w.TakesFields rules c.builder "" fields c.chain.calls c.span text ns := by
  obtain ⟨consulted, hd'⟩ := comesTo_rewriteClosure hrule (comesTo_general_flat hs w rules) d rfl
  cases hd.symm.trans hd'
  refine ⟨_, rfl, ⟨w.settersText rules c.span.ctxt c, ?_⟩, mem_unset hfields⟩
  rw [argsFor_required hfields, String.empty_append]

theorem takesFields_block (hrule : rules.find? c.builder = none) (hs : c.stmts ≠ [])
    (hfields : w.settings.required c.builder = fields)
    (hd : w.rewriteClosure rules c d = (.ok text, after)) : ∃ ns, after.notes = d.notes ++ ns ∧
      w.TakesFields rules c.builder ("\x7b\nlet mut " ++ c.binding ++ " = ") fields c.chain.calls
        c.span text ns := by
  obtain ⟨consulted, hd'⟩ := comesTo_rewriteClosure hrule (comesTo_general_block hs w rules) d rfl
  cases hd.symm.trans hd'
  refine ⟨_, rfl, ?_, mem_unset hfields⟩
  obtain ⟨rest, hrest⟩ := intercalate_cons "\n"
    ("let mut " ++ c.binding ++ " = " ++ construct c.builder (w.constructorArgs rules c.span.ctxt c) ++ ";")
    ((w.readyClosure rules c).stmts.map (w.lineOf c.span.ctxt) ++
      [c.binding ++ w.settersText rules c.span.ctxt c, "\x7d"])
  refine ⟨";" ++ rest, ?_⟩
  have hopening : "\x7b\nlet mut " = "\x7b" ++ ("\n" ++ "let mut ") := rfl
  rw [List.cons_append, List.cons_append, List.cons_append, List.cons_append, List.nil_append,
    String.intercalate_cons_cons, hrest, argsFor_required hfields, hopening]
  simp only [String.append_assoc]

theorem envelope_append (w : Workshop) (variant : ResponseVariant) (head setters : String) :
    w.envelope variant (head ++ setters) = "CreateInteractionResponse::" ++ variant.name ++ "(" ++
      (head ++ (setters ++ if w.settings.multiline then "\n)" else ")")) := by
  unfold envelope
  simp only [String.append_assoc]

/-- So does a response for its payload. -/
theorem takesFields_payload {payload : String} (hrule : rules.find? c.builder = some .response)
    (hpayload : (ResponseVariant.askedBy (c.chain.find? "kind")).payload = some payload)
    (hopens : Opens c calls) (hfields : w.settings.required payload = fields)
    (hd : w.rewriteClosure rules c d = (.ok text, after)) : ∃ ns, after.notes = d.notes ++ ns ∧
      w.TakesFields rules payload ("CreateInteractionResponse::" ++
        (ResponseVariant.askedBy (c.chain.find? "kind")).name ++ "(") fields calls c.span text ns := by
  obtain ⟨v, hv⟩ | ⟨calls', hopens', hrespond⟩ := response_cases w rules c
  · have hgivesUp : ComesTo c.span.ctxt (w.response (w.readyClosure rules c)) (.error v) [] := by
      rw [hv]
      exact .refuse v.reason v.span
    obtain ⟨consulted, hd'⟩ := comesTo_rewriteClosure_rule hrule hgivesUp d rfl
    cases hd.symm.trans hd'
  · obtain rfl : calls = calls' := Option.some.inj (hopens.data.symm.trans hopens'.data)
    have hpayloadText := comesTo_general_flat (k := c.span.ctxt)
      (c := payloadClosure payload calls c.span) rfl w rules
    have hcomes := hpayloadText.bind_pure (w.envelope (.askedBy (c.chain.find? "kind")))
    have hresponse : w.response (w.readyClosure rules c) = w.general (w.readyClosure rules
        (payloadClosure payload calls c.span)) >>= fun text =>
          pure (w.envelope (.askedBy (c.chain.find? "kind")) text) := by
      rw [hrespond, respond, hpayload]
    rw [← hresponse] at hcomes
    obtain ⟨consulted, hd'⟩ := comesTo_rewriteClosure_rule hrule hcomes d rfl
    obtain ⟨htext, hafter⟩ := Prod.mk.inj (hd.symm.trans hd')
    refine ⟨_, congrArg Draft.notes hafter, ?_, fun field hfield hcalls =>
      mem_unset (c := payloadClosure payload calls c.span) hfields field hfield hcalls⟩
    rw [Except.ok.inj htext, argsFor_required (c := payloadClosure payload calls c.span) hfields,
      envelope_append]
    exact ⟨_, rfl⟩

/-! ### Bundled rules -/

theorem bundled_cases {rule : Rule} (h : Rules.bundled? c.builder = some rule) :
    c.builder = "CreateComponents" ∧ rule = .components ∨
      c.builder = "CreateActionRow" ∧ rule = .actionRow ∨
      c.builder = "CreateButton" ∧ rule = .button ∨
      c.builder = "CreateSelectMenu" ∧ rule = .selectMenu ∨
      c.builder = "CreateInteractionResponse" ∧ rule = .response := by
  have hmem := Assoc.mem_of_get? h
  simpa [Rules.bundles] using hmem

theorem result_of_rewriteClosure {rule : Rule} (hrule : rules.find? c.builder = some rule)
    (hd : w.rewriteClosure rules c d = (.ok text, after)) :
    (rule.apply w (w.readyClosure rules c)).result c.span.ctxt = .ok text := by
  have happly := determined_apply (w := w) (determinate_readyClosure w rules c).calls rule
  obtain ⟨consulted, hd'⟩ :=
    comesTo_rewriteClosure_rule hrule (happly.comesTo_result c.span.ctxt) d rfl
  exact (congrArg Prod.fst (hd.symm.trans hd')).symm

/-- No bundled rule takes a closure with statements. -/
theorem stmts_of_bundled {rule : Rule} (hrule : rules.find? c.builder = some rule)
    (hbundled : Rules.bundled? c.builder = some rule)
    (hd : w.rewriteClosure rules c d = (.ok text, after)) : c.stmts = [] := by
  by_contra hs
  have hresult := result_of_rewriteClosure hrule hd
  have hempty : ¬ (w.readyClosure rules c).stmts.isEmpty = true := by
    rwa [isEmpty_stmts_ready, List.isEmpty_iff]
  have hrefused {f : Unit → Rewrite String} :
      ¬ Succeeds c.span.ctxt (refuseStmts (w.readyClosure rules c) >>= f) := by
    rw [refuseStmts_bind, if_neg hempty]
    exact not_succeeds_refuse _ _
  obtain ⟨-, rfl⟩ | ⟨-, rfl⟩ | ⟨-, rfl⟩ | ⟨-, rfl⟩ | ⟨-, rfl⟩ := bundled_cases hbundled
  all_goals exact hrefused ⟨text, hresult⟩

/-- Texts that begin with different strings are different. -/
theorem append_ne {s t : String} (h : ¬ s.toList <+: t.toList ∧ ¬ t.toList <+: s.toList)
    (x y : String) : s ++ x ≠ t ++ y := by
  intro he
  have hs : s.toList <+: (s ++ x).toList := ⟨x.toList, String.toList_append.symm⟩
  have ht : t.toList <+: (s ++ x).toList := ⟨y.toList, by rw [he, String.toList_append]⟩
  exact (List.prefix_or_prefix_of_prefix hs ht).elim h.1 h.2

theorem components_head (h : (w.components (w.readyClosure rules c)).result k = .ok text) :
    ∃ rest, text = "vec![" ++ rest := by
  obtain ⟨rows, hrows⟩ := exists_rows ⟨text, h⟩
  rw [(comesTo_components hrows).result_eq] at h
  rw [← Except.ok.inj h, vector, String.append_assoc]
  exact ⟨_, rfl⟩

theorem actionRow_head (h : (w.actionRow (w.readyClosure rules c)).result k = .ok text) :
    (∃ rest, text = "CreateActionRow::SelectMenu(" ++ rest) ∨
      ∃ rest, text = "CreateActionRow::Buttons(" ++ rest := by
  obtain ⟨parts, hparts⟩ := (succeeds_actionRow c).1 ⟨text, h⟩
  rw [(comesTo_actionRow hparts).result_eq] at h
  rw [← Except.ok.inj h, ActionRow.text]
  split
  · exact .inl ⟨_, String.append_assoc⟩
  · exact .inr ⟨_, String.append_assoc⟩

theorem response_head (h : (w.response (w.readyClosure rules c)).result k = .ok text) :
    ∃ variant ∈ ResponseVariant.byTag.map (·.2), ∃ rest,
      text = "CreateInteractionResponse::" ++ variant.name ++ rest := by
  obtain ⟨v, hv⟩ | ⟨calls, -, hcalls⟩ := response_cases w rules c
  · rw [hv] at h
    cases h
  · refine ⟨_, askedBy_mem (c.chain.find? "kind"), ?_⟩
    obtain ⟨ns, hcomes, -⟩ := w.comesTo_respond rules k (.askedBy (c.chain.find? "kind")) calls c.span
    rw [hcalls, hcomes.result_eq] at h
    rw [← Except.ok.inj h, responseText]
    split
    · exact ⟨"", by rw [String.append_empty]⟩
    · unfold envelope
      rw [String.append_assoc, String.append_assoc]
      exact ⟨_, rfl⟩

/-- No variant of a response is named like a constructor. -/
theorem variant_ne_new : ∀ variant ∈ ResponseVariant.byTag.map (·.2),
    ¬ ("CreateInteractionResponse::" ++ variant.name).toList <+:
        ("CreateInteractionResponse" ++ "::new(").toList ∧
      ¬ ("CreateInteractionResponse" ++ "::new(").toList <+:
        ("CreateInteractionResponse::" ++ variant.name).toList := by
  decide +kernel

/-- A button takes its id. -/
theorem takesFields_button (hrule : rules.find? c.builder = some .button) (hs : c.stmts = [])
    {rest : String} (hd : w.rewriteClosure rules c d = (.ok text, after))
    (htext : text = "CreateButton" ++ "::new(" ++ rest) : ∃ ns, after.notes = d.notes ++ ns ∧
      w.TakesFields rules "CreateButton" "" ["custom_id"] c.chain.calls c.span text ns := by
  obtain ⟨consulted, hd'⟩ :=
    comesTo_rewriteClosure_rule hrule (comesTo_button hs w rules c.span.ctxt) d rfl
  obtain ⟨hok, hafter⟩ := Prod.mk.inj (hd.symm.trans hd')
  have hhead := Except.ok.inj hok
  have hlink : c.chain.last? "url" = none := by
    cases hurl : c.chain.last? "url" with
    | none => rfl
    | some url =>
      simp only [hhead, buttonHead, hurl] at htext
      rw [String.append_assoc, String.append_assoc] at htext
      exact (append_ne (by decide +kernel) _ _ htext).elim
  refine ⟨_, congrArg Draft.notes hafter, ?_, ?_⟩
  · have hargs : w.argsFor rules c.span.ctxt ["custom_id"] c.chain.calls =
        ((c.chain.last? "custom_id").map (w.written rules c.span.ctxt)).toList := by
      rw [argsFor, List.filterMap_cons, List.filterMap_nil]
      unfold Chain.last?
      cases c.chain.calls.reverse.find? (·.field = "custom_id") <;> rfl
    rw [hhead, buttonHead, hlink, hargs]
    exact ⟨_, String.empty_append.symm⟩
  · intro field hfield hunset
    obtain rfl := List.mem_singleton.1 hfield
    have hid : c.chain.last? "custom_id" = none :=
      List.find?_eq_none.2 fun call hcall => by simpa using hunset call (List.mem_reverse.1 hcall)
    rw [idNote, hlink, hid]
    exact List.mem_append_right _ (List.mem_append_left _ (List.mem_singleton_self _))

/-- Overrides of all builders but two are honoured. -/
theorem honoursFields (hrules : ∀ builder, rules.find? builder = Rules.bundled? builder)
    (hfields : w.settings.required builder = fields) (hmenu : builder ≠ "CreateSelectMenu")
    (hbutton : builder = "CreateButton" → fields = ["custom_id"]) (c : BuilderClosure) :
    w.HonoursFields rules builder fields c := by
  intro before calls hsite d after text rest hd htext
  cases hsite with
  | flat hs =>
    cases hrule : rules.find? c.builder with
    | none => exact takesFields_flat hrule hs hfields hd
    | some rule =>
      have hresult := result_of_rewriteClosure hrule hd
      rw [String.empty_append] at htext
      obtain ⟨hb, rfl⟩ | ⟨hb, rfl⟩ | ⟨hb, rfl⟩ | ⟨hb, rfl⟩ | ⟨hb, rfl⟩ :=
        bundled_cases ((hrules c.builder).symm.trans hrule)
      · obtain ⟨rest', hhead⟩ := components_head hresult
        rw [hb, hhead] at htext
        exact (append_ne (by decide +kernel) _ _ htext).elim
      · obtain ⟨rest', hhead⟩ | ⟨rest', hhead⟩ := actionRow_head hresult <;>
          rw [hb, hhead] at htext <;> exact (append_ne (by decide +kernel) _ _ htext).elim
      · rw [hb] at hbutton htext ⊢
        rw [hbutton rfl]
        exact takesFields_button hrule hs hd htext
      · exact (hmenu hb).elim
      · obtain ⟨variant, hvariant, rest', hhead⟩ := response_head hresult
        rw [hb, hhead] at htext
        exact (append_ne (variant_ne_new variant hvariant) _ _ htext).elim
  | block hs =>
    cases hrule : rules.find? c.builder with
    | none => exact takesFields_block hrule hs hfields hd
    | some rule => exact (hs (stmts_of_bundled hrule ((hrules _).symm.trans hrule) hd)).elim
  | payload hb hp hopens =>
    have hrule : rules.find? c.builder = some .response := by
      rw [hrules, hb]
      decide +kernel
    exact takesFields_payload hrule hp hopens hfields hd

end

/-! ### Rules that do not read the settings -/

/-- A closure of calls on its binding. -/
def plainClosure (builder : String) (calls : List BuilderCall) : BuilderClosure :=
  ⟨builder, "b", [], ⟨"b", none, calls⟩, ⟨0, 0, 0⟩⟩

/-- A builder without required fields of its own. -/
def nestedCall (field : String) : BuilderCall := ⟨field, [.closure (plainClosure "B" [])]⟩

variable {fields : List String}

theorem argsFor_nil (w : Workshop) (rules : Rules) (k : Int) (fields : List String) :
    w.argsFor rules k fields [] = [] :=
  List.filterMap_eq_nil_iff.2 fun _ _ => rfl

/-- What an honoured override says of a closure without statements that comes to a constructor. -/
theorem HonoursFields.of_plain {builder text : String} {calls : List BuilderCall} {args : List String}
    {ns : List Note} (h : w.HonoursFields rules builder fields (plainClosure builder calls))
    (hcomes : ComesTo 0 (w.rewriteClosure rules (plainClosure builder calls))
      (.ok (construct builder args ++ text)) ns) :
    (∃ rest, construct builder args ++ text =
      construct builder (w.argsFor rules 0 fields calls) ++ rest) ∧
    ∀ field ∈ fields, (∀ call ∈ calls, call.field ≠ field) →
      missingNote builder (some ⟨0, 0, 0⟩) field ∈ ns := by
  obtain ⟨consulted, hd⟩ := hcomes {} rfl
  have hhead : construct builder args ++ text =
      "" ++ (builder ++ "::new(" ++ (String.intercalate ", " args ++ (")" ++ text))) := by
    rw [String.empty_append, construct]
    simp only [String.append_assoc]
  obtain ⟨ms, hnotes, ⟨rest, hargs⟩, hmissing⟩ := h "" calls (.flat rfl) {} _ _ _ hd hhead
  obtain rfl : ns = ms := hnotes
  exact ⟨⟨rest, hargs.trans String.empty_append⟩, hmissing⟩

/-- A constructor with an argument is not one without. -/
theorem construct_cons_ne {s : String} (h : ¬ s.toList <+: ")".toList ∧ ¬ ")".toList <+: s.toList)
    (builder : String) (t x y : String) (args : List String) :
    construct builder ((s ++ t) :: args) ++ x ≠ construct builder [] ++ y := by
  rw [construct, construct, String.intercalate_cons_append, String.intercalate_nil, String.append_empty]
  intro he
  simp only [String.append_assoc, String.append_right_inj] at he
  exact append_ne h _ _ he

/-- A select menu without a call has an argument for its options. -/
theorem comesTo_emptyMenu (w : Workshop) (rules : Rules) (k : Int) : ∃ text ns,
    ComesTo k (w.selectMenu (w.readyClosure rules (plainClosure "CreateSelectMenu" [])))
      (.ok (construct "CreateSelectMenu"
        ["CreateSelectMenuKind::String \x7b options: " ++ w.vector [] ++ " \x7d"] ++ text)) ns := by
  have hmenu : w.selectMenu (w.readyClosure rules (plainClosure "CreateSelectMenu" [])) = do
      Rewrite.note (missingField "CreateSelectMenu" "custom_id") (some ⟨0, 0, 0⟩)
      Rewrite.note "select menu has no options" (some ⟨0, 0, 0⟩)
      return construct "CreateSelectMenu"
        ["CreateSelectMenuKind::String \x7b options: " ++ w.vector [] ++ " \x7d"] ++ (← w.setters []) := by
    unfold selectMenu
    rw [refuseStmts_bind, isEmpty_stmts_ready, calls_readyClosure, plainClosure, List.isEmpty_nil,
      if_pos rfl, List.map_nil, List.foldlM_nil, pure_bind]
    rfl
  rw [hmenu]
  exact ⟨_, _, (ComesTo.note _ _).bind ((ComesTo.note _ _).bind
    ((comesTo_setters determinate_nil).bind_pure _))⟩

theorem not_honoursFields_menu (w : Workshop)
    (hrule : rules.find? "CreateSelectMenu" = some .selectMenu) (fields : List String) :
    ¬ w.HonoursFields rules "CreateSelectMenu" fields (plainClosure "CreateSelectMenu" []) := by
  intro h
  obtain ⟨text, ns, hmenu⟩ := w.comesTo_emptyMenu rules 0
  obtain ⟨⟨rest, hargs⟩, -⟩ := h.of_plain (comesTo_rewriteClosure_rule hrule hmenu)
  rw [argsFor_nil, String.append_assoc] at hargs
  exact construct_cons_ne (by decide +kernel) _ _ _ _ _ hargs

/-- A button takes no field but its id, -/
theorem not_honoursFields_button (w : Workshop) (hrule : rules.find? "CreateButton" = some .button)
    {field : String} (hfield : field ∈ fields) (hne : field ≠ "custom_id") :
    ¬ w.HonoursFields rules "CreateButton" fields (plainClosure "CreateButton" []) := by
  intro h
  have hbutton := comesTo_button (c := plainClosure "CreateButton" []) rfl w rules 0
  have hmissing := (h.of_plain (comesTo_rewriteClosure_rule hrule hbutton)).2 field hfield nofun
  exact hne (missingNote_injective _ _ (List.mem_singleton.1 hmissing))

theorem written_nestedCall (w : Workshop) (hgeneral : rules.find? "B" = none) (field : String) :
    w.written rules k (nestedCall field) = "B" ++ "::new()" := by
  have htext : construct "B" (w.constructorArgs rules 0 (plainClosure "B" [])) ++
      w.settersText rules 0 (plainClosure "B" []) = "B" ++ "::new()" := by
    rw [show w.constructorArgs rules 0 (plainClosure "B" []) = [] from argsFor_nil w rules 0 _]
    rfl
  have hgeneral := comesTo_rewriteClosure (k := k) hgeneral
    (comesTo_general_flat (c := plainClosure "B" []) rfl w rules)
  have harg : ∃ ns, ComesTo k (w.arg (w.ready rules (.closure (plainClosure "B" []))))
      (.ok ("B" ++ "::new()")) ns := by
    rw [ready_closure, ← htext]
    exact ⟨_, hgeneral.tryCatch⟩
  obtain ⟨ns, harg⟩ := harg
  have hargs : ComesTo k ([w.ready rules (.closure (plainClosure "B" []))].mapM w.arg)
      (.ok ["B" ++ "::new()"]) (ns ++ []) := by
    rw [List.mapM_cons]
    exact harg.bind ((ComesTo.pure []).bind_pure (_ :: ·))
  exact (hargs.bind_pure (String.intercalate ", ")).value_eq

/-- and it takes that also where it is to take none. -/
theorem not_honoursFields_id (w : Workshop) (hrule : rules.find? "CreateButton" = some .button)
    (hgeneral : rules.find? "B" = none) :
    ¬ w.HonoursFields rules "CreateButton" [] (plainClosure "CreateButton" [nestedCall "custom_id"]) := by
  intro h
  have hbutton := comesTo_button (c := plainClosure "CreateButton" [nestedCall "custom_id"]) rfl w rules 0
  have hhead : w.buttonHead rules 0 (plainClosure "CreateButton" [nestedCall "custom_id"]) =
      construct "CreateButton" [w.written rules 0 (nestedCall "custom_id")] := rfl
  rw [hhead] at hbutton
  obtain ⟨⟨rest, hargs⟩, -⟩ := h.of_plain (comesTo_rewriteClosure_rule hrule hbutton)
  rw [written_nestedCall w hgeneral] at hargs
  exact construct_cons_ne (by decide +kernel) _ _ _ _ _ hargs

/-- An override of the fields that a builder requires is honoured in every closure if and only if the
builder is none of the two whose rules have their fields built in, or is a button and still takes its id
alone. -/
theorem honoursFields_iff (w : Workshop) (hrules : ∀ builder, rules.find? builder = Rules.bundled? builder)
    {builder : String} (hfields : Assoc.get? builder w.settings.requiredFields = some fields)
    (hnodup : fields.Nodup) :
    (∀ c, w.HonoursFields rules builder fields c) ↔
      builder ≠ "CreateSelectMenu" ∧ (builder = "CreateButton" → fields = ["custom_id"]) := by
  constructor
  · intro h
    constructor
    · rintro rfl
      exact not_honoursFields_menu w ((hrules _).trans (by decide +kernel)) fields (h _)
    · rintro rfl
      have hrule : rules.find? "CreateButton" = some .button := (hrules _).trans (by decide +kernel)
      have hid : ∀ field ∈ fields, field = "custom_id" := by
        intro field hfield
        by_contra hne
        exact not_honoursFields_button w hrule hfield hne (h _)
      have hne : fields ≠ [] := by
        rintro rfl
        exact not_honoursFields_id w hrule ((hrules _).trans (by decide +kernel)) (h _)
      have hreplicate := List.eq_replicate_of_mem hid
      have hle : fields.length ≤ 1 := List.nodup_replicate.1 (hreplicate ▸ hnodup)
      have hlength : fields.length = 1 := Nat.le_antisymm hle (List.length_pos_of_ne_nil hne)
      rw [hlength] at hreplicate
      exact hreplicate
  · rintro ⟨hmenu, hbutton⟩ c
    have hrequired : w.settings.required builder = fields := by rw [Settings.required, hfields]; rfl
    exact honoursFields hrules hrequired hmenu hbutton c

/-- A table that nothing was entered into has the bundled rules. -/
theorem find?_empty (builder : String) : Rules.find? {} builder = Rules.bundled? builder := by
  rw [Rules.find?, Rules.ready_of_not_loaded rfl, Rules.get?_load]
  exact Option.or_none

/-- Settings by which the constructor of a message takes its content. -/
theorem honoursFields_content :
    let w : Workshop := ⟨{}, { requiredFields := [("CreateMessage", ["content"])] }⟩
    (∀ builder, Rules.find? {} builder = Rules.bundled? builder) ∧
    Assoc.get? "CreateMessage" w.settings.requiredFields = some ["content"] ∧ ["content"].Nodup ∧
    ∀ c, w.HonoursFields {} "CreateMessage" ["content"] c := by
  intro w
  have hfields : Assoc.get? "CreateMessage" w.settings.requiredFields = some ["content"] := by decide
  have hnodup : ["content"].Nodup := by decide
  exact ⟨find?_empty, hfields, hnodup,
    (honoursFields_iff w find?_empty hfields hnodup).2 ⟨by decide, by decide⟩⟩

/-- A label and an id, each of one copied letter. -/
def labelAndId : List BuilderCall :=
  [⟨"label", [.literal ⟨1, 2, 0⟩ none]⟩, ⟨"custom_id", [.literal ⟨3, 4, 0⟩ none]⟩]

/-- A button for which the settings require the label still takes its id, and the label stays a setter. -/
theorem not_honoursFields_label :
    ¬ HonoursFields ⟨(SourceMap.add {} "button.rs" "x y").2,
      { requiredFields := [("CreateButton", ["label"])] }⟩ {} "CreateButton" ["label"]
        (plainClosure "CreateButton" labelAndId) := by
  intro h
  have hargs := h "" labelAndId (.flat rfl) {} ⟨0, [], true⟩ "CreateButton::new(y).label(x)" "y).label(x)"
    (Prod.ext (by decide +kernel) (by decide +kernel)) (by decide +kernel)
  obtain ⟨ns, -, ⟨rest, hargs⟩, -⟩ := hargs
  have hlabel : construct "CreateButton" (argsFor ⟨(SourceMap.add {} "button.rs" "x y").2,
      { requiredFields := [("CreateButton", ["label"])] }⟩ {} 0 ["label"] labelAndId) =
      "CreateButton::new(x)" := by
    decide +kernel
  rw [String.empty_append] at hargs
  have hid : "CreateButton::new(y)" ++ ".label(x)" = "CreateButton::new(x)" ++ rest :=
    hargs.trans (congrArg (· ++ rest) hlabel)
  exact append_ne (by decide +kernel) _ _ hid

end Workshop

end BuilderMigration
