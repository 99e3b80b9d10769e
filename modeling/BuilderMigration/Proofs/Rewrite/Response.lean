import BuilderMigration.Proofs.Rewrite.General

/-! Responses: which of several `kind` and data calls is written. At runtime the last call of a name
wins; what is written is the first. -/

namespace BuilderMigration

open Rewrite

/-! ### Shapes -/

/-- The variant that a `kind` call asks for, and the one where there is no such call. -/
def ResponseVariant.askedBy : Option BuilderCall → ResponseVariant
  | some ⟨_, [.literal _ (some path)]⟩ =>
    (path.getLast?.bind fun tag => Assoc.get? tag byTag).getD message
  | _ => message

/-- The calls of the closure that a data call is given, if it is given a closure without statements;
none where there is no such call. -/
def responseSetters : Option BuilderCall → Option (List BuilderCall)
  | none => some []
  | some ⟨_, [.closure data]⟩ => if data.stmts.isEmpty then some data.chain.calls else none
  | some _ => none

namespace Workshop

variable {w : Workshop} {rules : Rules} {k : Int} {c : BuilderClosure}

/-- The payload of a response as a closure of its own. -/
def payloadClosure (payload : String) (calls : List BuilderCall) (span : Span) : BuilderClosure :=
  ⟨payload, "", [], ⟨"", none, calls⟩, span⟩

/-- The variant around its payload. -/
def envelope (w : Workshop) (variant : ResponseVariant) (payload : String) : String :=
  "CreateInteractionResponse::" ++ variant.name ++ "(" ++ payload ++
    (if w.settings.multiline then "\n)" else ")")

/-- The note on data that a variant does not carry. -/
def droppedNote (variant : ResponseVariant) (span : Span) : Note :=
  ⟨"`" ++ variant.name ++ "` responses carry no data; the response data setters were dropped",
    some span⟩

/-- A response once its variant and its data are settled. -/
def respond (w : Workshop) (rules : Rules) (variant : ResponseVariant) (calls : List BuilderCall)
    (span : Span) : Rewrite String :=
  match variant.payload with
  | none => do
    if calls ≠ [] then
      Rewrite.note (droppedNote variant span).message (some span)
    return "CreateInteractionResponse::" ++ variant.name
  | some payload =>
    return w.envelope variant (← w.general (w.readyClosure rules (payloadClosure payload calls span)))

/-- The constructor and the setters of a payload, as they are written in a context. -/
def payloadText (w : Workshop) (rules : Rules) (k : Int) (payload : String)
    (calls : List BuilderCall) (span : Span) : String :=
  let c := payloadClosure payload calls span
  construct payload (w.constructorArgs rules k c) ++ w.settersText rules k c

/-- The text of a response. -/
def responseText (w : Workshop) (rules : Rules) (k : Int) (variant : ResponseVariant)
    (calls : List BuilderCall) (span : Span) : String :=
  match variant.payload with
  | none => "CreateInteractionResponse::" ++ variant.name
  | some payload => w.envelope variant (w.payloadText rules k payload calls span)

/-! ### What is written -/

theorem find?_readyClosure (c : BuilderClosure) (field : String) :
    (w.readyClosure rules c).chain.find? field = (c.chain.find? field).map (w.readyCall rules) := by
  rw [Chain.find?, calls_readyClosure, List.find?_map]
  rfl

theorem ready_closure (c : BuilderClosure) :
    w.ready rules (.closure c) = .closure (w.readyClosure rules c) (w.rewriteClosure rules c) := by
  obtain ⟨_, _, _, ⟨_, _, _⟩, _⟩ := c
  rfl

theorem isEmpty_stmts_ready (c : BuilderClosure) :
    (w.readyClosure rules c).stmts.isEmpty = c.stmts.isEmpty := by
  rw [readyClosure, readyStmts_eq_map, List.isEmpty_map]

theorem ofChain_ready (c : BuilderClosure) :
    ResponseVariant.ofChain (w.readyClosure rules c).chain = .askedBy (c.chain.find? "kind") := by
  rw [ResponseVariant.ofChain, ResponseVariant.tag?, find?_readyClosure]
  rcases c.chain.find? "kind" with _ | ⟨field, _ | ⟨a, _ | ⟨b, as⟩⟩⟩
  · rfl
  · rfl
  · rcases a with ⟨span, _ | path⟩ | c
    · rfl
    · rfl
    · simp only [Option.map_some, readyCall, readyArgs, ready_closure]
      rfl
  · rcases a with ⟨span, _ | path⟩ | c <;> simp only [Option.map_some, readyCall, readyArgs, ready_closure] <;> rfl

/-- The first data call has to be given a closure without statements. -/
theorem responseData_ready (w : Workshop) (rules : Rules) (c : BuilderClosure) :
    match responseSetters (c.chain.find? "interaction_response_data") with
    | none => ∃ v, responseData (w.readyClosure rules c) = throw v
    | some calls => responseData (w.readyClosure rules c) = pure (w.readyCalls rules calls) := by
  rw [responseData, find?_readyClosure]
  rcases c.chain.find? "interaction_response_data" with _ | ⟨field, _ | ⟨a, _ | ⟨b, as⟩⟩⟩
  · rfl
  · exact ⟨_, rfl⟩
  · rcases a with ⟨span, path⟩ | data
    · exact ⟨_, rfl⟩
    · have hstmts : (w.readyClosure rules data).stmts.isEmpty = data.stmts.isEmpty :=
        isEmpty_stmts_ready data
      simp only [Option.map_some, readyCall, readyArgs, ready_closure, closureArg, responseSetters,
        refuseStmts, pure_bind, hstmts]
      split_ifs
      · rfl
      · exact ⟨_, rfl⟩
  · rcases a with ⟨span, path⟩ | data
    · exact ⟨_, rfl⟩
    · simp only [Option.map_some, readyCall, readyArgs, ready_closure]
      exact ⟨_, rfl⟩

theorem refuseOtherCalls_ready (w : Workshop) (rules : Rules) (c : BuilderClosure) :
    (∃ v, refuseOtherCalls (w.readyClosure rules c) = throw v) ∨
      refuseOtherCalls (w.readyClosure rules c) = pure () ∧
        ∀ call ∈ c.chain.calls, call.field = "kind" ∨ call.field = "interaction_response_data" := by
  rw [refuseOtherCalls, calls_readyClosure]
  split
  · next hnone =>
    refine .inr ⟨rfl, fun call hcall => ?_⟩
    by_contra hother
    exact List.find?_eq_none.1 hnone _ (List.mem_map_of_mem hcall) (decide_eq_true (not_or.1 hother))
  · exact .inl ⟨_, rfl⟩

/-- What a response opens to: no statements, no other calls, and the data of the first data call. -/
structure Opens (c : BuilderClosure) (calls : List BuilderCall) : Prop where
  stmts : c.stmts = []
  known : ∀ call ∈ c.chain.calls, call.field = "kind" ∨ call.field = "interaction_response_data"
  data : responseSetters (c.chain.find? "interaction_response_data") = some calls

/-- Behind the checks a response is written from its variant and its data. -/
theorem respond_eq (variant : ResponseVariant) (calls : List BuilderCall) (span : Span) :
    w.respond rules variant calls span =
      match variant.payload with
      | none => do
        if !(w.readyCalls rules calls).isEmpty then
          Rewrite.note (droppedNote variant span).message (some span)
        return "CreateInteractionResponse::" ++ variant.name
      | some payload => do
        let (args, rest) ← w.splitRequired payload (w.readyCalls rules calls) (some span)
        let close := if w.settings.multiline then "\n)" else ")"
        return "CreateInteractionResponse::" ++ variant.name ++ "(" ++ construct payload args ++
          (← w.setters rest) ++ close := by
  unfold respond
  cases variant.payload with
  | none =>
    have hempty : (w.readyCalls rules calls).isEmpty = calls.isEmpty := by
      rw [readyCalls_eq_map, List.isEmpty_map]
    have hne : calls ≠ [] ↔ !calls.isEmpty := by simp
    simp only [hempty, hne]
  | some payload =>
    have hgeneral : w.general (w.readyClosure rules (payloadClosure payload calls span)) = do
        let p ← w.splitRequired payload (w.readyCalls rules calls) (some span)
        return construct payload p.1 ++ (← w.setters p.2) := rfl
    simp only [hgeneral, bind_assoc, pure_bind]
    refine bind_congr fun p => bind_congr fun text => ?_
    unfold envelope
    simp only [String.append_assoc]

/-- A response is refused, or written with its first `kind` call and its first data call. -/
theorem response_cases (w : Workshop) (rules : Rules) (c : BuilderClosure) :
    (∃ v, w.response (w.readyClosure rules c) = throw v) ∨
      ∃ calls, Opens c calls ∧ w.response (w.readyClosure rules c) =
        w.respond rules (.askedBy (c.chain.find? "kind")) calls c.span := by
  have hstmts : (w.readyClosure rules c).stmts.isEmpty = c.stmts.isEmpty :=
    isEmpty_stmts_ready c
  have hdata := w.responseData_ready rules c
  unfold response refuseStmts
  by_cases hs : c.stmts.isEmpty
  · rw [hstmts, if_pos hs]
    obtain ⟨v, hv⟩ | ⟨hpure, hknown⟩ := w.refuseOtherCalls_ready rules c
    · exact .inl ⟨v, by rw [hv]; rfl⟩
    · cases hcalls : responseSetters (c.chain.find? "interaction_response_data") with
      | none =>
        rw [hcalls] at hdata
        obtain ⟨v, hv⟩ := hdata
        exact .inl ⟨v, by rw [hpure, hv]; rfl⟩
      | some calls =>
        rw [hcalls] at hdata
        refine .inr ⟨calls, ⟨List.isEmpty_iff.1 hs, hknown, hcalls⟩, ?_⟩
        rw [hpure, hdata, ofChain_ready, respond_eq]
        rfl
  · rw [hstmts, if_neg hs]
    exact .inl ⟨_, rfl⟩

theorem comesTo_respond (w : Workshop) (rules : Rules) (k : Int) (variant : ResponseVariant)
    (calls : List BuilderCall) (span : Span) :
    ∃ ns, ComesTo k (w.respond rules variant calls span)
        (.ok (w.responseText rules k variant calls span)) ns ∧
      (variant.payload = none → ns = if calls = [] then [] else [droppedNote variant span]) := by
  unfold respond responseText
  cases variant.payload with
  | none =>
    by_cases hcalls : calls = []
    · exact ⟨[], by simpa [hcalls] using .pure _, fun _ => by simp [hcalls]⟩
    · refine ⟨[droppedNote variant span], ?_, fun _ => by simp [hcalls]⟩
      rw [if_pos hcalls]
      exact (ComesTo.note (droppedNote variant span).message (some span)).bind_pure
        fun _ => "CreateInteractionResponse::" ++ variant.name
  | some payload =>
    exact ⟨_, (comesTo_general_flat rfl w rules).bind_pure (w.envelope variant), nofun⟩

/-- A closure with a rule is rewritten by it, from its own context. -/
theorem comesTo_rewriteClosure_rule {rule : Rule} {r : Except Violation String} {ns : List Note}
    (hrule : rules.find? c.builder = some rule)
    (h : ComesTo c.span.ctxt (rule.apply w (w.readyClosure rules c)) r ns) :
    ComesTo k (w.rewriteClosure rules c) r ns := by
  have hb : (w.readyClosure rules c).builder = c.builder := rfl
  unfold rewriteClosure closure
  rw [hb, hrule]
  exact (ComesTo.consult.bind h).within

/-- A response that is rewritten comes from its first `kind` call and its first data call. -/
theorem rewriteClosure_response {d after : Draft} {text : String}
    (hrule : rules.find? c.builder = some .response)
    (h : w.rewriteClosure rules c d = (.ok text, after)) :
    ∃ calls ns, Opens c calls ∧ after.notes = d.notes ++ ns ∧
      text = w.responseText rules c.span.ctxt (.askedBy (c.chain.find? "kind")) calls c.span ∧
      ((ResponseVariant.askedBy (c.chain.find? "kind")).payload = none → ns =
        if calls = [] then [] else [droppedNote (.askedBy (c.chain.find? "kind")) c.span]) := by
  obtain ⟨v, hv⟩ | ⟨calls, hopens, hcalls⟩ := response_cases w rules c
  · have hgivesUp : ComesTo c.span.ctxt (w.response (w.readyClosure rules c)) (.error v) [] := by
      rw [hv]
      exact .refuse v.reason v.span
    obtain ⟨consulted, hd⟩ := comesTo_rewriteClosure_rule (k := d.ctxt) hrule hgivesUp d rfl
    cases h.symm.trans hd
  · obtain ⟨ns, hcomes, hns⟩ := w.comesTo_respond rules c.span.ctxt
      (.askedBy (c.chain.find? "kind")) calls c.span
    rw [← hcalls] at hcomes
    obtain ⟨consulted, hd⟩ := comesTo_rewriteClosure_rule (k := d.ctxt) hrule hcomes d rfl
    cases h.symm.trans hd
    exact ⟨calls, ns, hopens, rfl, rfl, hns⟩

/-! ### The text tells the variant and its payload -/

theorem askedBy_mem (call : Option BuilderCall) :
    ResponseVariant.askedBy call ∈ ResponseVariant.byTag.map (·.2) := by
  unfold ResponseVariant.askedBy
  split
  · next path =>
    cases hv : path.getLast?.bind fun tag => Assoc.get? tag ResponseVariant.byTag with
    | none => simp [ResponseVariant.byTag]
    | some variant =>
      obtain ⟨tag, -, htag⟩ := Option.bind_eq_some_iff.1 hv
      exact List.mem_map_of_mem (Assoc.mem_of_get? htag)
  · simp [ResponseVariant.byTag]

/-- A variant is known by its name, and its name ends in front of the payload. -/
theorem byTag_names :
    (∀ variant ∈ ResponseVariant.byTag.map (·.2), '(' ∉ variant.name.toList) ∧
      ∀ variant ∈ ResponseVariant.byTag.map (·.2), ∀ variant' ∈ ResponseVariant.byTag.map (·.2),
        variant.name = variant'.name → variant = variant' := by
  decide

/-- Behind the name of its variant a response is at its end or opens a parenthesis. -/
theorem toList_responseText (w : Workshop) (rules : Rules) (k : Int) (variant : ResponseVariant)
    (calls : List BuilderCall) (span : Span) :
    ∃ rest : List Char, (w.responseText rules k variant calls span).toList =
        "CreateInteractionResponse::".toList ++ (variant.name.toList ++ rest) ∧
      ∀ a ∈ rest.head?, a = '(' := by
  unfold responseText
  cases variant.payload with
  | none => exact ⟨[], by simp only [String.toList_append, List.append_nil], nofun⟩
  | some payload =>
    refine ⟨'(' :: ((w.payloadText rules k payload calls span).toList ++
      (if w.settings.multiline then "\n)" else ")").toList), ?_, by simp⟩
    have hparen : "(".toList = '(' :: [] := rfl
    unfold envelope
    simp only [String.toList_append, List.append_assoc, hparen, List.cons_append, List.nil_append]

theorem takeWhile_name {variant : ResponseVariant}
    (h : variant ∈ ResponseVariant.byTag.map (·.2)) {rest : List Char}
    (hrest : ∀ a ∈ rest.head?, a = '(') :
    (variant.name.toList ++ rest).takeWhile (· ≠ '(') = variant.name.toList := by
  have hname : ∀ a ∈ variant.name.toList, decide (a ≠ '(') = true := fun a ha =>
    decide_eq_true fun he => byTag_names.1 variant h (he ▸ ha)
  rw [List.takeWhile_append_of_pos hname]
  cases rest with
  | nil => simp
  | cons a rest => simp [hrest a rfl]

/-- Two responses with the same text are of one variant, and their payloads have the same text. -/
theorem responseText_inj {variant variant' : ResponseVariant} {calls calls' : List BuilderCall}
    {span : Span} (hv : variant ∈ ResponseVariant.byTag.map (·.2))
    (hv' : variant' ∈ ResponseVariant.byTag.map (·.2)) :
    w.responseText rules k variant calls span = w.responseText rules k variant' calls' span ↔
      variant = variant' ∧ ∀ payload, variant.payload = some payload →
        w.payloadText rules k payload calls span = w.payloadText rules k payload calls' span := by
  constructor
  · intro h
    obtain ⟨rest, htext, hrest⟩ := w.toList_responseText rules k variant calls span
    obtain ⟨rest', htext', hrest'⟩ := w.toList_responseText rules k variant' calls' span
    have hnames : variant.name.toList ++ rest = variant'.name.toList ++ rest' := by
      rw [← List.append_cancel_left_eq, ← htext, ← htext', h]
    have hname : variant.name = variant'.name := by
      rw [← String.toList_inj, ← takeWhile_name hv hrest, ← takeWhile_name hv' hrest', hnames]
    obtain rfl := byTag_names.2 _ hv _ hv' hname
    refine ⟨rfl, fun payload hpayload => ?_⟩
    unfold responseText envelope at h
    rw [hpayload] at h
    exact (String.append_right_inj _).1 ((String.append_left_inj _).1 h)
  · rintro ⟨rfl, hpayload⟩
    unfold responseText
    split
    · rfl
    · next payload hp => rw [hpayload payload hp]

/-! ### The last calls -/

/-- A response that is written from a variant and the calls of a data closure, with the notes that are
taken. A call of the data is left out only where a later call of its name is not, or with a note. -/
structure WrittenFrom (w : Workshop) (rules : Rules) (c : BuilderClosure) (variant : ResponseVariant)
    (calls : List BuilderCall) (text : String) (notes : List Note) : Prop where
  text : text = w.responseText rules c.span.ctxt variant calls c.span
  kept : ∀ payload, variant.payload = some payload → ∀ before call after,
    calls = before ++ call :: after →
      call ∈ (payloadClosure payload calls c.span).setters w.settings ∨
      call.field ∈ w.settings.required payload ∧
        (payloadClosure payload calls c.span).chain.last? call.field = some call ∨
      ∃ later ∈ after, later.field = call.field
  dropped : variant.payload = none → calls ≠ [] → droppedNote variant c.span ∈ notes

/-- The last call of each name wins, as it does at runtime: the variant is that of the last `kind` call
and the payload is built from the last data call; besides them there are only calls that they
overwrite. -/
def LastCallsWin (w : Workshop) (rules : Rules) (c : BuilderClosure) (text : String)
    (notes : List Note) : Prop :=
  (∀ call ∈ c.chain.calls, call.field = "kind" ∨ call.field = "interaction_response_data") ∧
    ∃ calls, responseSetters (c.chain.last? "interaction_response_data") = some calls ∧
      w.WrittenFrom rules c (.askedBy (c.chain.last? "kind")) calls text notes

/-- The first calls say what the last ones say: they ask for one variant, and the payload is written
alike from the data of either. Where the variant carries no payload there is data to drop in the first if
there is in the last. -/
def FirstCallsAgree (w : Workshop) (rules : Rules) (c : BuilderClosure) : Prop :=
  let variant := ResponseVariant.askedBy (c.chain.last? "kind")
  .askedBy (c.chain.find? "kind") = variant ∧
    ∃ first last, responseSetters (c.chain.find? "interaction_response_data") = some first ∧
      responseSetters (c.chain.last? "interaction_response_data") = some last ∧
      match variant.payload with
      | none => last ≠ [] → first ≠ []
      | some payload => w.payloadText rules c.span.ctxt payload first c.span =
          w.payloadText rules c.span.ctxt payload last c.span

/-- Of the calls of a payload each is a setter, or the last of its name, or has a later one of its
name. -/
theorem payload_kept (settings : Settings) (payload : String) (calls : List BuilderCall) (span : Span)
    {before after : List BuilderCall} {call : BuilderCall} (h : calls = before ++ call :: after) :
    call ∈ (payloadClosure payload calls span).setters settings ∨
      call.field ∈ settings.required payload ∧
        (payloadClosure payload calls span).chain.last? call.field = some call ∨
      ∃ later ∈ after, later.field = call.field := by
  by_cases hlater : ∃ later ∈ after, later.field = call.field
  · exact .inr (.inr hlater)
  by_cases hrequired : call.field ∈ settings.required payload
  · refine .inr (.inl ⟨hrequired, ?_⟩)
    have hnone : after.reverse.find? (·.field = call.field) = none :=
      List.find?_eq_none.2 fun later hmem hfield =>
        hlater ⟨later, List.mem_reverse.1 hmem, of_decide_eq_true hfield⟩
    simp only [payloadClosure, Chain.last?, h, List.reverse_append, List.reverse_cons,
      List.find?_append, hnone, List.find?_cons, decide_true, Option.none_or, Option.some_or]
  · refine .inl (List.mem_filter.2 ⟨?_, by simpa [payloadClosure] using hrequired⟩)
    rw [payloadClosure, h]
    exact List.mem_append_right _ List.mem_cons_self

/-- A response that is rewritten has the last calls win exactly where its first calls agree with
them. -/
theorem lastCallsWin_iff {d after : Draft} {text : String}
    (hrule : rules.find? c.builder = some .response)
    (h : w.rewriteClosure rules c d = (.ok text, after)) :
    w.LastCallsWin rules c text (after.notes.drop d.notes.length) ↔ w.FirstCallsAgree rules c := by
  obtain ⟨first, ns, hopens, hnotes, htext, hns⟩ := rewriteClosure_response hrule h
  have hfirst := askedBy_mem (c.chain.find? "kind")
  have hlast := askedBy_mem (c.chain.last? "kind")
  rw [hnotes, List.drop_left]
  unfold LastCallsWin FirstCallsAgree
  generalize ResponseVariant.askedBy (c.chain.find? "kind") = variant at *
  generalize ResponseVariant.askedBy (c.chain.last? "kind") = variant' at *
  constructor
  · rintro ⟨-, last, hdata, hwritten⟩
    obtain ⟨rfl, hpayload⟩ := (responseText_inj hfirst hlast).1 (htext.symm.trans hwritten.text)
    refine ⟨rfl, first, last, hopens.data, hdata, ?_⟩
    split
    · next hnone =>
      intro hne hempty
      have hnote := hwritten.dropped hnone hne
      rw [hns hnone, if_pos hempty] at hnote
      cases hnote
    · next payload hp => exact hpayload payload hp
  · rintro ⟨rfl, first', last, hdata', hdata, hagree⟩
    obtain rfl : first = first' := Option.some.inj (hopens.data.symm.trans hdata')
    refine ⟨hopens.known, last, hdata, ?_, fun payload _ _ _ _ => payload_kept w.settings payload last _,
      fun hnone hne => ?_⟩
    · rw [htext, responseText_inj hfirst hfirst]
      refine ⟨rfl, fun payload hp => ?_⟩
      rwa [hp] at hagree
    · rw [hnone] at hagree
      rw [hns hnone, if_neg (hagree hne)]
      exact List.mem_singleton_self _

deriving instance DecidableEq for Except

/-- A response with calls on its binding. -/
def responseClosure (calls : List BuilderCall) : BuilderClosure where
  builder := "CreateInteractionResponse"
  binding := "r"
  stmts := []
  chain := ⟨"r", none, calls⟩
  span := ⟨0, 0, 0⟩

/-- A `kind` call that is given a path of one segment. -/
def kindCall (tag : String) : BuilderCall := ⟨"kind", [.literal ⟨0, 0, 0⟩ (some [tag])]⟩

/-- A call that sets the content to one copied letter. -/
def contentCall (lo : Int) : BuilderCall := ⟨"content", [.literal ⟨lo, lo + 1, 0⟩ none]⟩

/-- A data call whose closure has that call. -/
def dataCall (lo : Int) : BuilderCall where
  field := "interaction_response_data"
  args := [.closure ⟨"CreateInteractionResponseMessage", "d", [], ⟨"d", none, [contentCall lo]⟩,
    ⟨lo, lo + 1, 0⟩⟩]

/-- The text that the letters are copied from. -/
def responseWorkshop : Workshop := ⟨(SourceMap.add {} "response.rs" "x x").2, {}⟩

/-- A variant that is asked for twice, and the same data twice. -/
theorem lastCallsWin_twice :
    let c := responseClosure [kindCall "UpdateMessage", dataCall 1, dataCall 3, kindCall "UpdateMessage"]
    let text := "CreateInteractionResponse::UpdateMessage(CreateInteractionResponseMessage::new()" ++
      ".content(x))"
    Rules.find? {} c.builder = some .response ∧
    responseWorkshop.rewriteClosure {} c {} = (.ok text, ⟨0, [], true⟩) ∧
    responseWorkshop.LastCallsWin {} c text [] := by
  intro c text
  have hrule : Rules.find? {} c.builder = some .response := by decide +kernel
  have hrewrite : responseWorkshop.rewriteClosure {} c {} = (.ok text, ⟨0, [], true⟩) :=
    Prod.ext (by decide +kernel) (by decide +kernel)
  have hpayload : responseWorkshop.payloadText {} 0 "CreateInteractionResponseMessage"
      [contentCall 1] c.span = responseWorkshop.payloadText {} 0 "CreateInteractionResponseMessage"
      [contentCall 3] c.span := by
    decide +kernel
  exact ⟨hrule, hrewrite, (lastCallsWin_iff hrule hrewrite).2 ⟨rfl, _, _, rfl, rfl, hpayload⟩⟩

/-- Of two `kind` calls the first is written. -/
theorem not_lastCallsWin :
    let w : Workshop := ⟨{}, {}⟩
    let c := responseClosure [kindCall "Pong", kindCall "ChannelMessageWithSource"]
    Rules.find? {} c.builder = some .response ∧
    ∃ text after, w.rewriteClosure {} c {} = (.ok text, after) ∧
      ¬ w.LastCallsWin {} c text after.notes := by
  intro w c
  refine ⟨by decide +kernel, "CreateInteractionResponse::Pong", ⟨0, [], true⟩, rfl, ?_⟩
  rintro ⟨-, calls, hcalls, hwritten⟩
  obtain rfl : [] = calls := Option.some.inj hcalls
  exact absurd hwritten.text (by decide +kernel)

end Workshop

end BuilderMigration
