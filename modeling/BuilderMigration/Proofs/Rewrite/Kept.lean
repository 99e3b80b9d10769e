import BuilderMigration.Proofs.Rewrite.Response

/-! The calls that are kept: those behind a constructor, and those of the statements of a closure. Whatever
a closure or a chain is rewritten to, it has the text of each of them, in their order. -/

namespace BuilderMigration

/-! ### Texts within a text -/

/-- Some texts stand in a text, one behind the other. -/
def Carries : List String → String → Prop
  | [], _ => True
  | s :: ss, text => ∃ front back, text = front ++ s ++ back ∧ Carries ss back

namespace Carries

variable {ss ts : List String} {s t text : String}

theorem nil (text : String) : Carries [] text := trivial

theorem front (h : Carries ss text) (s : String) : Carries ss (s ++ text) := by
  cases ss with
  | nil => trivial
  | cons t ts =>
    obtain ⟨front, back, rfl, hback⟩ := h
    exact ⟨s ++ front, back, by simp only [String.append_assoc], hback⟩

theorem append (hs : Carries ss s) (ht : Carries ts t) : Carries (ss ++ ts) (s ++ t) := by
  induction ss generalizing s with
  | nil => exact ht.front s
  | cons u us ih =>
    obtain ⟨front, back, rfl, hback⟩ := hs
    exact ⟨front, back ++ t, by simp only [String.append_assoc], ih hback⟩

theorem back (h : Carries ss s) (t : String) : Carries ss (s ++ t) := by
  have happend := h.append (.nil t)
  rwa [List.append_nil] at happend

theorem self (s : String) : Carries [s] s := ⟨"", "", by simp, trivial⟩

/-- Texts one behind the other, each with some in front of it. -/
theorem join (p : String) (ss : List String) : Carries ss (String.join (ss.map (p ++ ·))) := by
  induction ss with
  | nil => trivial
  | cons s ss ih =>
    rw [List.map_cons, String.join_cons]
    exact ((self s).front p).append ih

theorem intercalate {sss : List (List String)} {texts : List String} (sep : String)
    (h : List.Forall₂ Carries sss texts) : Carries sss.flatten (String.intercalate sep texts) := by
  induction h with
  | nil => trivial
  | @cons ss text sss texts hs htexts ih =>
    cases htexts with
    | nil => simpa using hs
    | cons =>
      rw [String.intercalate_cons_cons, List.flatten_cons]
      exact (hs.back sep).append ih

end Carries

/-! ### Rewrites in a context -/

namespace Rewrite

variable {α β : Type} {k : Int} {x : Rewrite α} {f : α → Rewrite β} {a : α} {d d' : Draft} {ns : List Note}
  {R : α → Prop} {S : β → Prop}

/-- In a context the rewrite comes to a result, and what it returns has the property `R`. -/
def Writes (k : Int) (R : α → Prop) (x : Rewrite α) : Prop :=
  ∃ r ns, ComesTo k x r ns ∧ ∀ a, r = .ok a → R a

theorem Determined.writes (h : Determined R x) : Writes k R x := h k

theorem ComesTo.writes (h : ComesTo k x (.ok a) ns) (ha : R a) : Writes k R x :=
  ⟨_, _, h, fun _ hb => Except.ok.inj hb ▸ ha⟩

namespace Writes

theorem bind (hx : Writes k R x) (hf : ∀ a, R a → Writes k S (f a)) : Writes k S (x >>= f) := by
  obtain ⟨r, ns, hx, hr⟩ := hx
  cases r with
  | error v => exact ⟨.error v, ns, hx.bind_error, nofun⟩
  | ok a =>
    obtain ⟨s, ms, hf, hs⟩ := hf a (hr a rfl)
    exact ⟨s, ns ++ ms, hx.bind hf, hs⟩

theorem bind_pure (hx : Writes k R x) {g : α → β} (hg : ∀ a, R a → S (g a)) :
    Writes k S (x >>= fun a => Pure.pure (g a)) :=
  hx.bind fun a ha => (ComesTo.pure (g a)).writes (hg a ha)

theorem noteIf {p : Prop} [Decidable p] {message : String} {span : Option Span} (hx : Writes k R x) :
    Writes k R (if p then Rewrite.note message span >>= fun _ => x else x) := by
  split_ifs
  · exact (Determined.note message span).writes.bind fun _ _ => hx
  · exact hx

theorem ok (hx : Writes k R x) (hd : d.ctxt = k) (h : x d = (.ok a, d')) : R a := by
  obtain ⟨r, ns, hx, hr⟩ := hx
  obtain ⟨consulted, hrun⟩ := hx d hd
  exact hr a (Prod.mk.inj (hrun.symm.trans h)).1

end Writes

end Rewrite

open Rewrite

/-! ### Setters -/

namespace Workshop

variable {w : Workshop} {rules : Rules} {k : Int} {call : ReadyCall} {calls : List ReadyCall}
  {c : ReadyClosure}

/-- The text of a call from its dot on. -/
def dotText (w : Workshop) (k : Int) (call : ReadyCall) : String :=
  "." ++ call.field ++ "(" ++ w.textOf k call ++ ")"

theorem writes_setters (h : Determinate calls) :
    Writes k (Carries (calls.map (w.dotText k))) (w.setters calls) := by
  refine (comesTo_setters h).writes ?_
  have hjoin := Carries.join (if w.settings.multiline then "\n" else "") (calls.map (w.dotText k))
  rwa [List.map_map] at hjoin

theorem writes_setters_behind (h : Determinate calls) (head : String) :
    Writes k (Carries (calls.map (w.dotText k))) (do return head ++ (← w.setters calls)) :=
  (writes_setters h).bind_pure fun _ htext => htext.front head

end Workshop

/-! ### Buttons and select menus -/

/-- Whether a rule keeps a call of its closure as a setter. -/
def Rule.keeps : Rule → String → Bool
  | .button, field => field ≠ "url" && field ≠ "custom_id"
  | .selectMenu, field => field ≠ "custom_id" && field ≠ "options"
  | .components, _ | .actionRow, _ | .response, _ | .fixed _, _ => false

namespace Workshop

variable {w : Workshop} {rules : Rules} {k : Int} {call : ReadyCall} {calls : List ReadyCall}
  {c : ReadyClosure}

/-- Calls that a step puts to the others if it keeps them are all there at the end. -/
theorem determined_rest {step : Fields → ReadyCall → Rewrite Fields} {keep : ReadyCall → Bool}
    (h : ∀ f, ∀ call ∈ calls, Determined (fun f' : Fields =>
      f'.rest = f.rest ++ if keep call then [call] else []) (step f call)) (f : Fields) :
    Determined (fun f' : Fields => f'.rest = f.rest ++ calls.filter keep) (calls.foldlM step f) := by
  induction calls generalizing f with
  | nil => exact .pure (List.append_nil _).symm
  | cons call calls ih =>
    rw [List.foldlM_cons]
    refine (h f call List.mem_cons_self).bind fun f₁ h₁ => ?_
    refine (ih (fun f call hcall => h f call (List.mem_cons_of_mem _ hcall)) f₁).imp fun f' h' => ?_
    rw [h', h₁, List.append_assoc, List.filter_cons]
    split_ifs
    · rfl
    · rw [List.nil_append]

theorem determined_buttonCall_rest (h : ∀ a ∈ call.args, a.Determined) (f : Fields) :
    Determined (fun f' : Fields => f'.rest = f.rest ++ if Rule.button.keeps call.field then [call] else [])
      (w.buttonCall f call) := by
  have hargs := determined_argList (w := w) h
  unfold buttonCall
  by_cases hurl : call.field = "url"
  · rw [if_pos hurl]
    exact hargs.bind fun _ _ => .pure (by simp [Rule.keeps, hurl])
  · rw [if_neg hurl]
    by_cases hid : call.field = "custom_id"
    · rw [if_pos hid]
      exact hargs.bind fun _ _ => .pure (by simp [Rule.keeps, hid])
    · rw [if_neg hid]
      exact .pure (by simp [Rule.keeps, hurl, hid])

theorem determined_menuCall_rest (h : ∀ a ∈ call.args, a.Determined) (span : Span) (f : Fields) :
    Determined (fun f' : Fields =>
      f'.rest = f.rest ++ if Rule.selectMenu.keeps call.field then [call] else [])
      (w.menuCall span f call) := by
  unfold menuCall
  by_cases hid : call.field = "custom_id"
  · rw [if_pos hid]
    exact (determined_argList h).bind fun _ _ => .pure (by simp [Rule.keeps, hid])
  · rw [if_neg hid]
    by_cases hoptions : call.field = "options"
    · rw [if_pos hoptions]
      exact (determined_menuOptions h span).bind fun _ _ => .pure (by simp [Rule.keeps, hoptions])
    · rw [if_neg hoptions]
      exact .pure (by simp [Rule.keeps, hid, hoptions])

theorem writes_button (h : Determinate c.chain.calls) :
    Writes k (Carries ((c.chain.calls.filter (Rule.button.keeps ·.field)).map (w.dotText k)))
      (w.button c) := by
  refine (determined_refuseStmts c).writes.bind fun _ _ => ?_
  refine (determined_rest (fun f call hcall =>
    determined_buttonCall_rest (h call hcall) f) {}).writes.bind fun f hf => ?_
  have hrest : Determinate f.rest := hf ▸ fun call hcall => h call (List.mem_of_mem_filter hcall)
  rw [List.nil_append] at hf
  rw [← hf]
  split
  · exact .noteIf (writes_setters_behind hrest _)
  · exact .noteIf (writes_setters_behind hrest _)

theorem writes_selectMenu (h : Determinate c.chain.calls) :
    Writes k (Carries ((c.chain.calls.filter (Rule.selectMenu.keeps ·.field)).map (w.dotText k)))
      (w.selectMenu c) := by
  refine (determined_refuseStmts c).writes.bind fun _ _ => ?_
  refine (determined_rest (fun f call hcall =>
    determined_menuCall_rest (h call hcall) c.span f) {}).writes.bind fun f hf => ?_
  have hrest : Determinate f.rest := hf ▸ fun call hcall => h call (List.mem_of_mem_filter hcall)
  rw [List.nil_append] at hf
  rw [← hf]
  exact .noteIf (.noteIf (writes_setters_behind hrest _))

end Workshop

/-! ### Closures and chains -/

/-- The calls of a statement of a closure. -/
def Prelude.calls {α : Type} : Prelude α → List (Call α)
  | .verbatim _ => []
  | .assignment c _ => c.calls

/-- The calls that are kept of a closure, in their order: in the general form those of its statements and
the setters, in a response the setters of its payload, and else those that its rule keeps. -/
def BuilderClosure.kept (settings : Settings) (rules : Rules) (c : BuilderClosure) : List BuilderCall :=
  match rules.find? c.builder with
  | none => c.stmts.flatMap Prelude.calls ++ c.setters settings
  | some .response =>
    match (ResponseVariant.askedBy (c.chain.find? "kind")).payload with
    | none => []
    | some payload =>
      ((responseSetters (c.chain.find? "interaction_response_data")).getD []).filter
        fun call => !(settings.required payload).contains call.field
  | some rule => c.chain.calls.filter (rule.keeps ·.field)

namespace Workshop

variable {w : Workshop} {rules : Rules} {k : Int} {c : BuilderClosure} {text : String} {d d' : Draft}

/-- The text of a call from its dot on. -/
def callText (w : Workshop) (rules : Rules) (k : Int) (call : BuilderCall) : String :=
  "." ++ call.field ++ "(" ++ w.written rules k call ++ ")"

theorem dotText_ready (calls : List BuilderCall) :
    (calls.map (w.readyCall rules)).map (w.dotText k) = calls.map (w.callText rules k) := by
  rw [List.map_map]
  rfl

theorem carries_setters (w : Workshop) (rules : Rules) (k : Int) (c : BuilderClosure) :
    Carries ((c.setters w.settings).map (w.callText rules k)) (w.settersText rules k c) := by
  have hjoin := Carries.join (if w.settings.multiline then "\n" else "")
    ((c.setters w.settings).map (w.callText rules k))
  rwa [List.map_map] at hjoin

/-- A chain as a statement is assigned to the name that it begins with. -/
theorem comesTo_rewriteChain (w : Workshop) (rules : Rules) (k : Int) (chain : BuilderChain) :
    ComesTo k (w.rewriteChain rules chain)
      (.ok (chain.receiver ++ " = " ++ chain.receiver ++
        String.join (chain.calls.map (w.callText rules k)) ++ ";"))
      (chain.calls.flatMap (w.writtenNotes rules k)) := by
  have hcalls := (ComesTo.mapM fun call hcall => comesTo_dotCall (w := w) (k := k)
    (determinate_readyCalls w rules chain.calls call hcall)).bind_pure fun texts =>
      chain.receiver ++ " = " ++ chain.receiver ++ String.join texts ++ ";"
  rw [readyCalls_eq_map, List.map_map, List.flatMap_map] at hcalls
  rw [rewriteChain, readyChain, readyCalls_eq_map]
  exact hcalls

theorem carries_chainText (receiver : String) (ss : List String) :
    Carries ss (receiver ++ " = " ++ receiver ++ String.join ss ++ ";") := by
  have hjoin : Carries ss (String.join ss) := by simpa using Carries.join "" ss
  exact (hjoin.front _).back ";"

/-- The line of a statement has its calls. -/
theorem carries_lineOf (s : BuilderPrelude) :
    Carries (s.calls.map (w.callText rules k)) (w.lineOf k (w.readyPrelude rules s)) := by
  cases s with
  | verbatim span => trivial
  | assignment chain span =>
    have hline : w.lineOf k (w.readyPrelude rules (.assignment chain span)) = _ :=
      (comesTo_rewriteChain w rules k chain).value_eq
    rw [hline]
    exact carries_chainText chain.receiver _

/-- The general form of a closure has the calls of its statements and its setters. -/
theorem writes_general (w : Workshop) (rules : Rules) (k : Int) (c : BuilderClosure) :
    Writes k (Carries ((c.stmts.flatMap Prelude.calls ++ c.setters w.settings).map (w.callText rules k)))
      (w.general (w.readyClosure rules c)) := by
  have hsetters := carries_setters w rules k c
  by_cases hs : c.stmts = []
  · refine (comesTo_general_flat hs w rules).writes ?_
    rw [hs]
    exact hsetters.front _
  · refine (comesTo_general_block hs w rules).writes ?_
    have hlines : List.Forall₂ Carries (c.stmts.map fun s => s.calls.map (w.callText rules k))
        ((w.readyClosure rules c).stmts.map (w.lineOf k)) := by
      rw [readyClosure, readyStmts_eq_map, List.map_map, List.forall₂_map_left_iff,
        List.forall₂_map_right_iff, List.forall₂_same]
      exact fun s _ => carries_lineOf s
    have hflatten : (c.stmts.flatMap Prelude.calls ++ c.setters w.settings).map (w.callText rules k) =
        ([[], []] ++ (c.stmts.map fun s : BuilderPrelude => s.calls.map (w.callText rules k)) ++
          [(c.setters w.settings).map (w.callText rules k), []]).flatten := by
      simp [List.flatMap, Function.comp_def]
    rw [hflatten]
    exact .intercalate _ (List.rel_append (List.rel_append (.cons (.nil _) (.cons (.nil _) .nil)) hlines)
      (.cons (hsetters.front _) (.cons (.nil _) .nil)))

/-- What its rule makes of a closure is what the closure is rewritten to. -/
theorem writes_rewriteClosure_rule {rule : Rule} {R : String → Prop}
    (hrule : rules.find? c.builder = some rule)
    (h : Writes c.span.ctxt R (rule.apply w (w.readyClosure rules c))) :
    Writes k R (w.rewriteClosure rules c) := by
  obtain ⟨r, ns, hcomes, hr⟩ := h
  exact ⟨r, ns, comesTo_rewriteClosure_rule hrule hcomes, hr⟩

theorem carries_responseText (variant : ResponseVariant) (calls : List BuilderCall) (span : Span) :
    ∀ payload, variant.payload = some payload →
      Carries ((calls.filter fun call => !(w.settings.required payload).contains call.field).map
        (w.callText rules k)) (w.responseText rules k variant calls span) := by
  intro payload hpayload
  rw [responseText, hpayload]
  exact (((carries_setters w rules k (payloadClosure payload calls span)).front _).front _).back _

/-- What a closure is rewritten to has the calls that are kept of it. -/
theorem carries_kept (h : w.rewriteClosure rules c d = (.ok text, d')) :
    Carries ((c.kept w.settings rules).map (w.callText rules c.span.ctxt)) text := by
  have hready := (determinate_readyClosure w rules c).calls
  have hkept {rule : Rule} : ((w.readyClosure rules c).chain.calls.filter (rule.keeps ·.field)).map
      (w.dotText c.span.ctxt) =
        (c.chain.calls.filter (rule.keeps ·.field)).map (w.callText rules c.span.ctxt) := by
    rw [calls_readyClosure, List.filter_map, dotText_ready]
    rfl
  unfold BuilderClosure.kept
  cases hrule : rules.find? c.builder with
  | none =>
    obtain ⟨r, ns, hcomes, hr⟩ := writes_general w rules c.span.ctxt c
    exact Writes.ok ⟨r, ns, comesTo_rewriteClosure hrule hcomes, hr⟩ rfl h
  | some rule =>
    cases rule with
    | button =>
      have hwrites := writes_rewriteClosure_rule (k := d.ctxt) hrule (writes_button hready)
      rw [hkept] at hwrites
      exact hwrites.ok rfl h
    | selectMenu =>
      have hwrites := writes_rewriteClosure_rule (k := d.ctxt) hrule (writes_selectMenu hready)
      rw [hkept] at hwrites
      exact hwrites.ok rfl h
    | response =>
      obtain ⟨calls, -, hopens, -, rfl, -⟩ := rewriteClosure_response hrule h
      cases hpayload : (ResponseVariant.askedBy (c.chain.find? "kind")).payload with
      | none => trivial
      | some payload =>
        rw [hopens.data, Option.getD_some]
        exact carries_responseText _ calls c.span payload hpayload
    | components | actionRow | fixed => simp [Rule.keeps, Carries]

/-- What a chain is rewritten to has its calls. -/
theorem carries_chain {chain : BuilderChain} (h : w.rewriteChain rules chain d = (.ok text, d')) :
    Carries (chain.calls.map (w.callText rules d.ctxt)) text :=
  ((comesTo_rewriteChain w rules d.ctxt chain).writes (carries_chainText chain.receiver _)).ok rfl h

end Workshop

end BuilderMigration
