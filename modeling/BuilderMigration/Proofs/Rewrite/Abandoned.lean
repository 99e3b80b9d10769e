import BuilderMigration.Proofs.Rewrite.Response

/-! What is left behind of a closure that is given up inside an argument: its source text, a note that
says so, and the notes on all that was written of it before. -/

namespace BuilderMigration

namespace Rewrite

variable {α β γ : Type} {k : Int} {x : Rewrite α} {f : α → Rewrite β} {as : List α} {v : Violation}
  {r : Except Violation α} {ns : List Note} {R : α → Prop} {S : β → Prop}

/-! ### Results -/

/-- The result of a rewrite in a context. -/
def result (x : Rewrite α) (k : Int) : Except Violation α := (x { ctxt := k }).1

theorem Determined.comesTo_result (hx : Determined R x) (k : Int) :
    ComesTo k x (x.result k) (x.noted k) := by
  obtain ⟨r, ns, hx, -⟩ := hx k
  obtain ⟨consulted, hr⟩ := hx { ctxt := k } rfl
  rwa [result, noted, hr]

theorem ComesTo.result_eq (hx : ComesTo k x r ns) : x.result k = r := by
  obtain ⟨consulted, hr⟩ := hx { ctxt := k } rfl
  rw [result, hr]

theorem ComesTo.noted_eq (hx : ComesTo k x r ns) : x.noted k = ns := by
  obtain ⟨consulted, hr⟩ := hx { ctxt := k } rfl
  rw [noted, hr, List.nil_append]

/-- What comes behind a rewrite takes its notes only if there is a result to go on with. -/
theorem Determined.noted_bind (hx : Determined R x) (hf : ∀ a, R a → Determined S (f a)) (k : Int) :
    (x >>= f).noted k = x.noted k ++
      match x.result k with
      | .ok a => (f a).noted k
      | .error _ => [] := by
  obtain ⟨r, ns, hx, hr⟩ := hx k
  rw [hx.result_eq, hx.noted_eq]
  cases r with
  | ok a => exact (hx.bind ((hf a (hr a rfl)).comesTo_result k)).noted_eq
  | error v => rw [hx.bind_error.noted_eq, List.append_nil]

theorem noted_pure (a : α) (k : Int) : noted (pure a) k = [] := (ComesTo.pure a).noted_eq

theorem Determined.noted_bind_pure (hx : Determined R x) (g : α → β) (k : Int) :
    (x >>= fun a => Pure.pure (g a)).noted k = x.noted k := by
  rw [hx.noted_bind (fun a _ => Determined.done (g a))]
  cases x.result k <;> simp [noted_pure]

theorem Determined.result_bind (hx : Determined R x) (hf : ∀ a, R a → Determined S (f a)) (k : Int) :
    (x >>= f).result k =
      match x.result k with
      | .ok a => (f a).result k
      | .error v => .error v := by
  obtain ⟨r, ns, hx, hr⟩ := hx k
  rw [hx.result_eq]
  cases r with
  | ok a => exact (hx.bind ((hf a (hr a rfl)).comesTo_result k)).result_eq
  | error v => exact hx.bind_error.result_eq

/-- A note on a condition. -/
theorem Total.noteIf {p : Prop} [Decidable p] {message : String} {span : Option Span} (hx : Total x) :
    Total (if p then Rewrite.note message span >>= fun _ => x else x) := by
  split_ifs
  · exact (Total.note _ _).bind fun _ => hx
  · exact hx

theorem Total.foldlM {step : γ → α → Rewrite γ} (h : ∀ c a, Total (step c a)) (c : γ) :
    Total (as.foldlM step c) := by
  induction as generalizing c with
  | nil => exact .pure c
  | cons a as ih =>
    rw [List.foldlM_cons]
    exact (h c a).bind ih

/-- A rewrite that has taken no note where it gives up. -/
def Clean (x : Rewrite α) : Prop := ∀ k v, x.result k = .error v → x.noted k = []

namespace Clean

theorem refuse (reason : String) (span : Option Span) : Clean (Rewrite.refuse (α := α) reason span) :=
  fun _ _ _ => (ComesTo.refuse reason span).noted_eq

theorem of_total (h : Total x) : Clean x := by
  intro k v hv
  obtain ⟨a, d, ha⟩ := h { ctxt := k }
  rw [result, ha] at hv
  cases hv

end Clean

/-- Where the end is clean, what is given up has the notes of the beginning. -/
theorem Determined.noted_bind_clean (hx : Determined R x) (hf : ∀ a, R a → Determined S (f a))
    (hclean : ∀ a, R a → Clean (f a)) (h : (x >>= f).result k = .error v) :
    (x >>= f).noted k = x.noted k := by
  obtain ⟨r, ns, hcomes, hr⟩ := hx k
  rw [hx.result_bind hf, hcomes.result_eq] at h
  rw [hx.noted_bind hf, hcomes.result_eq]
  cases r with
  | ok a => simp only [hclean a (hr a rfl) k v h, List.append_nil]
  | error v => exact List.append_nil _

/-! ### Lists -/

/-- The elements that are worked on: all up to the first on which the rewrite gives up, and that one. -/
def tried (k : Int) (f : α → Rewrite β) : List α → List α
  | [] => []
  | a :: as =>
    match (f a).result k with
    | .ok _ => a :: tried k f as
    | .error _ => [a]

/-- The notes on them. -/
def triedNotes (k : Int) (f : α → Rewrite β) (as : List α) : List Note :=
  (tried k f as).flatMap fun a => (f a).noted k

theorem triedNotes_cons (a : α) (as : List α) :
    triedNotes k f (a :: as) = (f a).noted k ++
      match (f a).result k with
      | .ok _ => triedNotes k f as
      | .error _ => [] := by
  rw [triedNotes, tried]
  cases (f a).result k <;> simp [triedNotes]

theorem noted_mapM (h : ∀ a ∈ as, Determined (fun _ => True) (f a)) (k : Int) :
    (as.mapM f).noted k = triedNotes k f as := by
  induction as with
  | nil => rw [List.mapM_nil, noted_pure]; rfl
  | cons a as ih =>
    rw [List.forall_mem_cons] at h
    have hrest : Determined (fun _ => True) (as.mapM f) := .mapM h.2
    rw [List.mapM_cons, h.1.noted_bind (fun _ _ => hrest.bind fun _ _ => .done _), triedNotes_cons]
    cases (f a).result k with
    | ok b => simp only [hrest.noted_bind_pure (b :: ·), ih h.2]
    | error v => rfl

/-- The same holds where each result is put to those before. -/
theorem noted_foldlM {step : γ → α → Rewrite γ} {put : γ → β → γ}
    (hstep : ∀ c a, step c a = f a >>= fun b => pure (put c b))
    (h : ∀ a ∈ as, Determined S (f a)) (c : γ) (k : Int) :
    (as.foldlM step c).noted k = triedNotes k f as := by
  induction as generalizing c with
  | nil => rw [List.foldlM_nil, noted_pure]; rfl
  | cons a as ih =>
    rw [List.forall_mem_cons] at h
    have hrest (c : γ) : Determined (fun _ => True) (as.foldlM step c) :=
      .foldlM (fun c _ a ha => hstep c a ▸ (h.2 a ha).bind fun _ _ => .done _) trivial
    rw [List.foldlM_cons, hstep, bind_assoc, triedNotes_cons]
    simp only [pure_bind]
    rw [h.1.noted_bind fun b _ => hrest (put c b)]
    cases (f a).result k with
    | ok b => simp only [ih h.2]
    | error v => rfl

end Rewrite

open Rewrite

namespace Workshop

variable {w : Workshop} {rules : Rules} {c : ReadyClosure} {calls : List ReadyCall} {k : Int}

/-! ### Rules -/

/-- What two parts of a row make together. -/
def Row.put (row row' : Row) : Row :=
  ⟨row.buttons ++ row'.buttons, row'.menu <|> row.menu⟩

/-- What two parts of a button or a select menu make together. -/
def Fields.put (f f' : Fields) : Fields :=
  ⟨f'.first <|> f.first, f'.second <|> f.second, f.rest ++ f'.rest⟩

theorem rowCall_eq (span : Span) (row : Row) (call : ReadyCall) :
    w.rowCall span row call = w.rowCall span {} call >>= fun row' => pure (row.put row') := by
  unfold rowCall
  split_ifs <;> simp [Row.put, Rewrite.refuse]

theorem menuCall_eq (span : Span) (f : Fields) (call : ReadyCall) :
    w.menuCall span f call = w.menuCall span {} call >>= fun f' => pure (f.put f') := by
  unfold menuCall
  split_ifs <;> simp [Fields.put]

/-- A closure that is refused for its statements has nothing written of it. -/
theorem refuseStmts_bind {α : Type} (c : ReadyClosure) (f : Unit → Rewrite α) :
    (refuseStmts c >>= f) =
      if c.stmts.isEmpty then f ()
      else Rewrite.refuse ("statements inside a " ++ c.builder ++ " closure are not supported")
        (some c.span) := by
  unfold refuseStmts
  split_ifs
  · exact pure_bind ..
  · simp [Rewrite.refuse]

/-- The notes on what is written of a closure before its rule gives it up. -/
def leftBehind (w : Workshop) (k : Int) (c : ReadyClosure) (rule : Rule) : List Note :=
  if c.stmts.isEmpty then
    match rule with
    | .components => triedNotes k (w.componentRow c.span) c.chain.calls
    | .actionRow => triedNotes k (w.rowCall c.span {}) c.chain.calls
    | .selectMenu => triedNotes k (w.menuCall c.span {}) c.chain.calls
    | .button | .response | .fixed _ => []
  else []

section

variable (hc : Determinate c.chain.calls) {v : Violation}
include hc

theorem noted_components : (w.components c).noted k = w.leftBehind k c .components := by
  have hrows : ∀ call ∈ c.chain.calls,
      Rewrite.Determined (fun _ => True) (w.componentRow c.span call) :=
    fun call hcall => determined_componentRow (hc call hcall) c.span
  have hall := Rewrite.Determined.mapM hrows
  unfold components leftBehind
  rw [refuseStmts_bind]
  split_ifs
  · rw [hall.noted_bind_pure, noted_mapM hrows]
  · exact (ComesTo.refuse _ _).noted_eq

/-- At its end an action row is given up only if it has no call at all. -/
theorem noted_actionRow (h : (w.actionRow c).result k = .error v) :
    (w.actionRow c).noted k = w.leftBehind k c .actionRow := by
  have hcalls (call) (hcall : call ∈ c.chain.calls) (row : Row) :=
    determined_rowCall (w := w) (hc call hcall) c.span row
  have hrow : Rewrite.Determined (fun _ => True) (c.chain.calls.foldlM (w.rowCall c.span) {}) :=
    .foldlM (fun row _ call hcall => hcalls call hcall row) trivial
  have hnotes := noted_foldlM (rowCall_eq (w := w) c.span) (fun call hcall => hcalls call hcall {}) {} k
  unfold actionRow leftBehind at *
  rw [refuseStmts_bind] at h ⊢
  split_ifs at h ⊢
  · refine (hrow.noted_bind_clean (S := fun _ => True) (fun row _ => ?_) (fun row _ => ?_) h).trans
      hnotes
    · split
      · exact .refuse _ _
      · exact .done _
      · exact .noteIf (.done _)
    · split
      · exact .refuse _ _
      · exact .of_total (.pure _)
      · exact .of_total (.noteIf (.pure _))
  · exact (ComesTo.refuse _ _).noted_eq

theorem noted_selectMenu (h : (w.selectMenu c).result k = .error v) :
    (w.selectMenu c).noted k = w.leftBehind k c .selectMenu := by
  have hcalls (call) (hcall : call ∈ c.chain.calls) {f : Fields} (hf : Determinate f.rest) :=
    determined_menuCall (w := w) (hc call hcall) c.span hf
  have hfields : Rewrite.Determined (fun f : Fields => Determinate f.rest)
      (c.chain.calls.foldlM (w.menuCall c.span) {}) :=
    .foldlM (fun _ hf call hcall => hcalls call hcall hf) determinate_nil
  have hnotes := noted_foldlM (menuCall_eq (w := w) c.span)
    (fun call hcall => hcalls call hcall (f := {}) determinate_nil) {} k
  unfold selectMenu leftBehind at *
  rw [refuseStmts_bind] at h ⊢
  split_ifs at h ⊢
  · refine (hfields.noted_bind_clean (S := fun _ => True) (fun f hf => ?_) (fun f _ => ?_) h).trans
      hnotes
    · exact .noteIf (.noteIf ((determined_setters hf).bind fun _ _ => .done _))
    · exact .of_total (.noteIf (.noteIf ((w.total_setters f.rest).bind fun _ => .pure _)))
  · exact (ComesTo.refuse _ _).noted_eq

omit hc in
/-- A button is given up for its statements only. -/
theorem clean_button : Clean (w.button c) := by
  have hcall (f : Fields) (call : ReadyCall) : Total (w.buttonCall f call) := by
    unfold buttonCall
    split_ifs
    · exact (w.total_argList call.args).bind fun _ => .pure _
    · exact (w.total_argList call.args).bind fun _ => .pure _
    · exact .pure _
  unfold button
  rw [refuseStmts_bind]
  split_ifs
  · refine .of_total ((Total.foldlM hcall {}).bind fun f => ?_)
    have hrest := w.total_setters f.rest
    split
    · exact .noteIf (hrest.bind fun _ => .pure _)
    · exact .noteIf (hrest.bind fun _ => .pure _)
  · exact .refuse _ _

end

/-- A response is given up before anything of it is written. -/
theorem noted_response {c : BuilderClosure} {v : Violation}
    (h : (w.response (w.readyClosure rules c)).result k = .error v) :
    (w.response (w.readyClosure rules c)).noted k = [] := by
  obtain ⟨v, hv⟩ | ⟨calls, -, hcalls⟩ := response_cases w rules c
  · rw [hv]
    exact (ComesTo.refuse v.reason v.span).noted_eq
  · obtain ⟨ns, hcomes, -⟩ := w.comesTo_respond rules k
      (.askedBy (c.chain.find? "kind")) calls c.span
    rw [hcalls, hcomes.result_eq] at h
    cases h

/-- What a rule gives up has the notes on what was written before. -/
theorem noted_apply {c : BuilderClosure} {v : Violation} (rule : Rule)
    (h : (rule.apply w (w.readyClosure rules c)).result k = .error v) :
    (rule.apply w (w.readyClosure rules c)).noted k = w.leftBehind k (w.readyClosure rules c) rule := by
  have hc := (determinate_readyClosure w rules c).calls
  cases rule with
  | components => exact noted_components hc
  | actionRow => exact noted_actionRow hc h
  | selectMenu => exact noted_selectMenu hc h
  | button => exact (clean_button k v h).trans (ite_self _).symm
  | response => exact (noted_response h).trans (ite_self _).symm
  | fixed text => exact (nomatch h)

/-! ### Arguments -/

/-- The note on a closure that is left as it is. -/
def leftUnrewritten (c : BuilderClosure) (v : Violation) : Note :=
  ⟨"left unrewritten: " ++ v.reason, some (v.span.getD c.span)⟩

/-- A closure in an argument that is given up leaves one trace: wherever its source text is there, this is
the text of the argument, and the one note that is taken says that it is left unrewritten. -/
def LeavesOneTrace (w : Workshop) (rules : Rules) (c : BuilderClosure) : Prop :=
  ∀ (d after : Draft) (v : Violation) (text : String),
    w.rewriteClosure rules c d = (.error v, after) → w.resolve? c.span d.ctxt = some text →
      (w.arg (w.ready rules (.closure c)) d).1 = .ok (Text.trim text) ∧
      (w.arg (w.ready rules (.closure c)) d).2.notes = d.notes ++ [leftUnrewritten c v]

/-- A closure that is given up from one draft is given up by its rule, and from every draft. -/
theorem comesTo_givenUp {c : BuilderClosure} {d after : Draft} {v : Violation}
    (h : w.rewriteClosure rules c d = (.error v, after)) :
    ∃ rule, rules.find? c.builder = some rule ∧ ∀ k, ComesTo k (w.rewriteClosure rules c) (.error v)
      (w.leftBehind c.span.ctxt (w.readyClosure rules c) rule) := by
  obtain ⟨rule, hrule, -⟩ := (w.rewriteClosure_givesUp_iff rules c d).1 ⟨v, after, h⟩
  have happly := (determined_apply (w := w) (determinate_readyClosure w rules c).calls rule).comesTo_result
    c.span.ctxt
  have hv : (rule.apply w (w.readyClosure rules c)).result c.span.ctxt = .error v := by
    obtain ⟨consulted, hd⟩ := comesTo_rewriteClosure_rule hrule happly d rfl
    exact (congrArg Prod.fst (h.symm.trans hd)).symm
  rw [hv, noted_apply rule hv] at happly
  exact ⟨rule, hrule, fun k => comesTo_rewriteClosure_rule hrule happly⟩

/-- Source text that is there is copied without a note. -/
theorem comesTo_snippet {s : Span} {text : String} (h : w.resolve? s k = some text) :
    ComesTo k (w.snippet s) (.ok (Text.trim text)) [] := by
  refine .get fun d hd => ?_
  rw [excerpt, hd, h]
  exact .pure _

/-- The notes on what was written before stay in front of the one that is meant to be there. -/
theorem comesTo_arg_givenUp {c : BuilderClosure} {v : Violation} {text : String} {ns : List Note}
    (h : ComesTo k (w.rewriteClosure rules c) (.error v) ns) (htext : w.resolve? c.span k = some text) :
    ComesTo k (w.arg (w.ready rules (.closure c))) (.ok (Text.trim text))
      (ns ++ [leftUnrewritten c v]) := by
  rw [ready_closure]
  exact h.tryCatch_error ((ComesTo.note _ _).bind (comesTo_snippet htext))

/-- A closure leaves one trace exactly where no note is taken on anything that its rule writes of it before
giving it up. -/
theorem leavesOneTrace_iff (w : Workshop) (rules : Rules) (c : BuilderClosure) :
    w.LeavesOneTrace rules c ↔ ∀ rule, rules.find? c.builder = some rule →
      (∃ d, GivesUp (w.rewriteClosure rules c) d ∧ (w.resolve? c.span d.ctxt).isSome) →
        w.leftBehind c.span.ctxt (w.readyClosure rules c) rule = [] := by
  constructor
  · rintro h rule hrule ⟨d, ⟨v, after, hd⟩, htext⟩
    obtain ⟨text, htext⟩ := Option.isSome_iff_exists.1 htext
    obtain ⟨rule', hrule', hcomes⟩ := comesTo_givenUp hd
    obtain rfl : rule = rule' := Option.some.inj (hrule.symm.trans hrule')
    obtain ⟨consulted, harg⟩ := comesTo_arg_givenUp (hcomes d.ctxt) htext d rfl
    have hnotes := (h d after v text hd htext).2
    rw [harg] at hnotes
    simpa using hnotes
  · intro h d after v text hd htext
    obtain ⟨rule, hrule, hcomes⟩ := comesTo_givenUp hd
    obtain ⟨consulted, harg⟩ := comesTo_arg_givenUp (hcomes d.ctxt) htext d rfl
    rw [h rule hrule ⟨d, ⟨v, after, hd⟩, Option.isSome_iff_exists.2 ⟨text, htext⟩⟩] at harg
    rw [harg]
    exact ⟨rfl, rfl⟩

/-- A row of a button without an id, and of an input text, which is not supported. -/
def unsupportedRow : BuilderClosure where
  builder := "CreateActionRow"
  binding := "r"
  stmts := []
  chain := ⟨"r", none,
    [⟨"create_button", [.closure ⟨"CreateButton", "b", [], ⟨"b", none, []⟩, ⟨3, 4, 0⟩⟩]⟩,
     ⟨"create_input_text", [.closure ⟨"CreateInputText", "i", [], ⟨"i", none, []⟩, ⟨5, 6, 0⟩⟩]⟩]⟩
  span := ⟨1, 6, 0⟩

/-- The button is not written, but there is a note on its missing id. -/
theorem not_leavesOneTrace :
    ¬ LeavesOneTrace ⟨(SourceMap.add {} "row.rs" "r b i").2, {}⟩ {} unsupportedRow := by
  intro h
  have hnotes := (h {} ⟨0, [⟨missingField "CreateButton" "custom_id", some ⟨3, 4, 0⟩⟩], true⟩
    ⟨"input text components are not supported", some ⟨1, 6, 0⟩⟩ "r b i" ?_ (by decide +kernel)).2
  · exact absurd hnotes (by decide +kernel)
  · exact Prod.ext (by decide +kernel) (by decide +kernel)

end Workshop

end BuilderMigration
