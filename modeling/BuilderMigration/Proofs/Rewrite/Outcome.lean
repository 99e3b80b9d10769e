import BuilderMigration.Proofs.Rewrite.Follows
import BuilderMigration.Rewrite.Rules

/-! What a rewrite comes to. It looks at no more of its draft than the context: from all drafts of one
context it comes to the same result, with the same notes behind those that are there, and leaves the
context as it is. -/

namespace BuilderMigration

namespace Rewrite

variable {α β : Type} {k : Int} {x : Rewrite α} {f : α → Rewrite β} {a : α} {b : β} {v : Violation}
  {r : Except Violation α} {s : Except Violation β} {ns ms : List Note} {R : α → Prop} {S : β → Prop}

/-- In a context, the rewrite comes to a result and adds notes to those that are there. -/
def ComesTo (k : Int) (x : Rewrite α) (r : Except Violation α) (ns : List Note) : Prop :=
  ∀ d : Draft, d.ctxt = k → ∃ consulted, x d = (r, ⟨k, d.notes ++ ns, consulted⟩)

namespace ComesTo

theorem pure (a : α) : ComesTo k (pure a) (.ok a) [] := by
  rintro d rfl
  exact ⟨d.consulted, by rw [List.append_nil]; rfl⟩

theorem refuse (reason : String) (span : Option Span) :
    ComesTo k (Rewrite.refuse (α := α) reason span) (.error ⟨reason, span⟩) [] := by
  rintro d rfl
  exact ⟨d.consulted, by rw [List.append_nil]; rfl⟩

theorem note (message : String) (span : Option Span) :
    ComesTo k (Rewrite.note message span) (.ok ()) [⟨message, span⟩] := by
  rintro d rfl
  exact ⟨d.consulted, rfl⟩

theorem consult : ComesTo k consult (.ok ()) [] := by
  rintro d rfl
  exact ⟨true, by rw [List.append_nil]; rfl⟩

theorem bind (hx : ComesTo k x (.ok a) ns) (hf : ComesTo k (f a) s ms) :
    ComesTo k (x >>= f) s (ns ++ ms) := by
  intro d hd
  obtain ⟨consulted, hx⟩ := hx d hd
  rw [bind_of_ok hx, ← List.append_assoc]
  exact hf _ rfl

/-- A result that is put into a shape takes no more notes. -/
theorem bind_pure (hx : ComesTo k x (.ok a) ns) (g : α → β) :
    ComesTo k (x >>= fun a => Pure.pure (g a)) (.ok (g a)) ns := by
  have h := hx.bind (f := fun a => Pure.pure (g a)) (pure (g a))
  rwa [List.append_nil] at h

theorem bind_error (hx : ComesTo k x (.error v) ns) : ComesTo k (x >>= f) (.error v) ns := by
  intro d hd
  obtain ⟨consulted, hx⟩ := hx d hd
  exact ⟨consulted, bind_of_error hx⟩

/-- Of the draft nothing but the context is looked at. -/
theorem get {f : Draft → Rewrite β} (hf : ∀ d : Draft, d.ctxt = k → ComesTo k (f d) s ms) :
    ComesTo k (get >>= f) s ms := by
  intro d hd
  have hget : (MonadState.get : Rewrite Draft) d = (.ok d, d) := rfl
  rw [bind_of_ok hget]
  exact hf d hd d hd

theorem within {j : Int} (hx : ComesTo j x r ns) : ComesTo k (within j x) r ns := by
  rintro d rfl
  obtain ⟨consulted, hx⟩ := hx { d with ctxt := j } rfl
  exact ⟨consulted, by rw [Rewrite.within, hx]⟩

theorem tryCatch {handle : Violation → Rewrite α} (hx : ComesTo k x (.ok a) ns) :
    ComesTo k (tryCatch x handle) (.ok a) ns := by
  intro d hd
  obtain ⟨consulted, hx⟩ := hx d hd
  exact ⟨consulted, tryCatch_of_ok hx⟩

theorem tryCatch_error {handle : Violation → Rewrite α} (hx : ComesTo k x (.error v) ns)
    (hh : ComesTo k (handle v) r ms) : ComesTo k (MonadExcept.tryCatch x handle) r (ns ++ ms) := by
  intro d hd
  obtain ⟨consulted, hx⟩ := hx d hd
  rw [tryCatch_of_error hx, ← List.append_assoc]
  exact hh _ rfl

/-- One element after the other, each with its notes. -/
theorem mapM {as : List α} {value : α → β} {notes : α → List Note}
    (h : ∀ a ∈ as, ComesTo k (f a) (.ok (value a)) (notes a)) :
    ComesTo k (as.mapM f) (.ok (as.map value)) (as.flatMap notes) := by
  induction as with
  | nil => exact pure []
  | cons a as ih =>
    rw [List.forall_mem_cons] at h
    rw [List.mapM_cons]
    exact h.1.bind ((ih h.2).bind_pure (value a :: ·))

end ComesTo

/-- In every context the rewrite comes to a result, and what it returns has the property `R`. -/
def Determined (R : α → Prop) (x : Rewrite α) : Prop :=
  ∀ k, ∃ r ns, ComesTo k x r ns ∧ ∀ a, r = .ok a → R a

namespace Determined

theorem pure (h : R a) : Determined R (pure a) :=
  fun _ => ⟨_, _, .pure a, fun _ hb => Except.ok.inj hb ▸ h⟩

theorem imp {S : α → Prop} (hx : Determined R x) (h : ∀ a, R a → S a) : Determined S x := by
  intro k
  obtain ⟨r, ns, hx, hr⟩ := hx k
  exact ⟨r, ns, hx, fun a ha => h a (hr a ha)⟩

/-- Nothing is said of what it returns. -/
theorem done (a : α) : Determined (fun _ => True) (Pure.pure a) := pure trivial

theorem refuse (reason : String) (span : Option Span) :
    Determined R (Rewrite.refuse reason span) :=
  fun _ => ⟨_, _, .refuse reason span, nofun⟩

theorem note (message : String) (span : Option Span) :
    Determined (fun _ => True) (Rewrite.note message span) :=
  fun _ => ⟨_, _, .note message span, fun _ _ => trivial⟩

theorem consult : Determined (fun _ => True) consult :=
  fun _ => ⟨_, _, .consult, fun _ _ => trivial⟩

theorem bind (hx : Determined R x) (hf : ∀ a, R a → Determined S (f a)) :
    Determined S (x >>= f) := by
  intro k
  obtain ⟨r, ns, hx, hr⟩ := hx k
  cases r with
  | error v => exact ⟨.error v, ns, hx.bind_error, nofun⟩
  | ok a =>
    obtain ⟨s, ms, hf, hs⟩ := hf a (hr a rfl) k
    exact ⟨s, ns ++ ms, hx.bind hf, hs⟩

/-- A rewrite that looks at its draft for the context only. -/
theorem get {f : Draft → Rewrite β} (hf : ∀ d, Determined S (f d))
    (hctxt : ∀ d d' : Draft, d.ctxt = d'.ctxt → f d = f d') : Determined S (get >>= f) := by
  intro k
  obtain ⟨s, ms, hs, hS⟩ := hf { ctxt := k } k
  exact ⟨s, ms, .get fun d hd => hctxt { ctxt := k } d hd.symm ▸ hs, hS⟩

theorem within (hx : Determined R x) (j : Int) : Determined R (within j x) := by
  intro k
  obtain ⟨r, ns, hx, hr⟩ := hx j
  exact ⟨r, ns, hx.within, hr⟩

theorem tryCatch {handle : Violation → Rewrite α} (hx : Determined R x)
    (hh : ∀ v, Determined R (handle v)) : Determined R (tryCatch x handle) := by
  intro k
  obtain ⟨r, ns, hx, hr⟩ := hx k
  cases r with
  | ok a => exact ⟨.ok a, ns, hx.tryCatch, hr⟩
  | error v =>
    obtain ⟨r, ms, hh, hr⟩ := hh v k
    exact ⟨r, ns ++ ms, hx.tryCatch_error hh, hr⟩

theorem ite {p : Prop} [Decidable p] {y : Rewrite α} (hx : Determined R x) (hy : Determined R y) :
    Determined R (if p then x else y) := by
  by_cases h : p
  · simpa [h] using hx
  · simpa [h] using hy

/-- A note that is taken on a condition. -/
theorem noteIf {p : Prop} [Decidable p] {message : String} {span : Option Span}
    (hx : Determined R x) :
    Determined R (if p then Rewrite.note message span >>= fun _ => x else x) :=
  .ite ((note message span).bind fun _ _ => hx) hx

theorem mapM {as : List α} (h : ∀ a ∈ as, Determined (fun _ => True) (f a)) :
    Determined (fun _ => True) (as.mapM f) := by
  induction as with
  | nil => exact pure trivial
  | cons a as ih =>
    rw [List.forall_mem_cons] at h
    rw [List.mapM_cons]
    exact h.1.bind fun _ _ => (ih h.2).bind fun _ _ => pure trivial

theorem foldlM {as : List α} {step : β → α → Rewrite β}
    (h : ∀ b, S b → ∀ a ∈ as, Determined S (step b a)) (hb : S b) :
    Determined S (as.foldlM step b) := by
  induction as generalizing b with
  | nil => exact pure hb
  | cons a as ih =>
    rw [List.foldlM_cons]
    exact (h b hb a List.mem_cons_self).bind fun c hc =>
      ih (fun b hb a ha => h b hb a (List.mem_cons_of_mem _ ha)) hc

end Determined

/-! ### Values -/

/-- What a rewrite that never gives up comes to in a context. -/
def value [Inhabited α] (x : Rewrite α) (k : Int) : α :=
  match (x { ctxt := k }).1 with
  | .ok a => a
  | .error _ => default

/-- The notes that a rewrite takes in a context. -/
def noted (x : Rewrite α) (k : Int) : List Note := (x { ctxt := k }).2.notes

theorem Determined.comesTo [Inhabited α] (hx : Determined R x) (ht : Total x) (k : Int) :
    ComesTo k x (.ok (x.value k)) (x.noted k) := by
  obtain ⟨r, ns, hx, -⟩ := hx k
  obtain ⟨a, d, ha⟩ := ht { ctxt := k }
  obtain ⟨consulted, hr⟩ := hx { ctxt := k } rfl
  obtain ⟨rfl, rfl⟩ := Prod.mk.inj (hr.symm.trans ha)
  rwa [value, noted, hr]

theorem ComesTo.value_eq [Inhabited α] (hx : ComesTo k x (.ok a) ns) : x.value k = a := by
  obtain ⟨_, hr⟩ := hx { ctxt := k } rfl
  rw [value, hr]

end Rewrite

/-! ### Arguments and calls -/

open Rewrite

/-- An argument whose closure is determined, and so are those in it. -/
inductive Ready.Determined : Ready → Prop
  | literal (span : Span) (path : Option (List String)) : Ready.Determined (.literal span path)
  | closure {c : ReadyClosure} {rewritten : Rewrite String}
      (hr : Rewrite.Determined (fun _ => True) rewritten)
      (hcalls : ∀ call ∈ c.chain.calls, ∀ a ∈ call.args, Ready.Determined a) :
      Ready.Determined (.closure c rewritten)

/-- Calls of such arguments. -/
def Determinate (calls : List ReadyCall) : Prop := ∀ call ∈ calls, ∀ a ∈ call.args, a.Determined

theorem determinate_nil : Determinate [] := fun _ h => absurd h List.not_mem_nil

/-- A closure of such calls in its statements and behind them. -/
structure ReadyClosure.Determinate (c : ReadyClosure) : Prop where
  calls : BuilderMigration.Determinate c.chain.calls
  stmts : ∀ chain span, .assignment chain span ∈ c.stmts → BuilderMigration.Determinate chain.calls

namespace Workshop

variable {w : Workshop} {c : ReadyClosure} {call : ReadyCall} {calls : List ReadyCall}

/-- Text is looked up from the context. -/
theorem determined_snippet (s : Span) : Determined (fun _ => True) (w.snippet s) := by
  refine .get (fun d => ?_) fun d d' hd => by simp only [hd]
  exact .noteIf (.done _)

theorem determined_arg {a : Ready} (h : a.Determined) : Determined (fun _ => True) (w.arg a) := by
  cases h with
  | literal s path => exact determined_snippet s
  | closure hr =>
    exact .tryCatch hr fun v => (Determined.note _ _).bind fun _ _ => determined_snippet _

theorem determined_argList {as : List Ready} (h : ∀ a ∈ as, a.Determined) :
    Determined (fun _ => True) (w.argList as) :=
  (Determined.mapM fun a ha => determined_arg (h a ha)).bind fun _ _ => .done _

theorem determined_dotCall (h : ∀ a ∈ call.args, a.Determined) :
    Determined (fun _ => True) (w.dotCall call) :=
  (determined_argList h).bind fun _ _ => .done _

theorem determined_setters (h : Determinate calls) : Determined (fun _ => True) (w.setters calls) :=
  (Determined.mapM fun call hcall => determined_dotCall (h call hcall)).bind fun _ _ => .done _

theorem determined_divide (required : List String) (h : Determinate calls) :
    Determined (fun p => Determinate p.2) (w.divide required calls) := by
  induction calls with
  | nil => exact .pure h
  | cons call calls ih =>
    obtain ⟨hcall, hcalls⟩ := List.forall_mem_cons.1 h
    rw [divide]
    refine .ite ?_ ?_
    · exact (determined_argList hcall).bind fun _ _ => (ih hcalls).bind fun _ hp => .pure hp
    · exact (ih hcalls).bind fun _ hp => .pure (List.forall_mem_cons.2 ⟨hcall, hp⟩)

theorem determined_pick (builder : String) (span : Option Span) (found : List (String × String))
    (fields : List String) : Determined (fun _ => True) (pick builder span found fields) := by
  induction fields with
  | nil => exact .done _
  | cons field fields ih =>
    rw [pick]
    split
    · exact ih.bind fun _ _ => .done _
    · exact (Determined.note _ _).bind fun _ _ => ih

theorem determined_splitRequired (builder : String) (h : Determinate calls) (span : Option Span) :
    Determined (fun p => Determinate p.2) (w.splitRequired builder calls span) :=
  (determined_divide _ h).bind fun _ hp => (determined_pick builder span _ _).bind fun _ _ => .pure hp

theorem determined_chainStmt {chain : Chain Ready} (h : Determinate chain.calls) :
    Determined (fun _ => True) (w.chainStmt chain) :=
  (Determined.mapM fun call hcall => determined_dotCall (h call hcall)).bind fun _ _ => .done _

theorem determined_prelude {s : Prelude Ready}
    (h : ∀ chain span, s = .assignment chain span → Determinate chain.calls) :
    Determined (fun _ => True) (w.prelude s) := by
  cases s with
  | verbatim span =>
    refine .get (fun d => ?_) fun d d' hd => by simp only [hd]
    cases w.resolve? span d.ctxt with
    | none => exact (Determined.note _ _).bind fun _ _ => .done _
    | some text => exact .done _
  | assignment chain span => exact determined_chainStmt (h chain span rfl)

theorem determined_general (h : c.Determinate) : Determined (fun _ => True) (w.general c) := by
  refine (determined_splitRequired _ h.calls _).bind fun p hp => ?_
  have hstmts := h.stmts
  cases hc : c.stmts with
  | nil => exact (determined_setters hp).bind fun _ _ => .done _
  | cons s stmts =>
    rw [hc] at hstmts
    refine (Determined.mapM fun s hs => determined_prelude fun chain span he => ?_).bind fun _ _ =>
      (determined_setters hp).bind fun _ _ => .done _
    exact hstmts chain span (he ▸ hs)

/-! ### Rules -/

theorem determined_refuseStmts (c : ReadyClosure) :
    Determined (fun _ => True) (refuseStmts c) :=
  .ite (.done _) (.refuse _ _)

/-- What a call is given is a closure of it, with its rewrite. -/
theorem determined_closureArg (h : ∀ a ∈ call.args, a.Determined) (span : Span) :
    Determined (fun p => Determinate p.1.chain.calls ∧ Determined (fun _ => True) p.2)
      (closureArg call span) := by
  unfold closureArg
  split
  · next c rewritten hargs =>
    rw [hargs, List.forall_mem_singleton] at h
    cases h with
    | closure hr hcalls => exact .pure ⟨hcalls, hr⟩
  · exact .refuse _ _

theorem determined_literalArg (call : ReadyCall) (span : Span) :
    Determined Ready.Determined (literalArg call span) := by
  unfold literalArg
  split
  · exact .pure (.literal _ _)
  · exact .refuse _ _

/-- A call whose closure is written by its own rewrite. -/
theorem determined_closureThen {β : Type} (h : ∀ a ∈ call.args, a.Determined) (span : Span)
    (f : String → β) : Determined (fun _ => True)
      (do let p ← closureArg call span; return f (← p.2)) :=
  (determined_closureArg h span).bind fun _ hp => hp.2.bind fun _ _ => .done _

/-- A call whose value is copied. -/
theorem determined_literalThen {β : Type} (call : ReadyCall) (span : Span) (f : String → β) :
    Determined (fun _ => True)
      (do let value ← literalArg call span; return f (← w.arg value)) :=
  (determined_literalArg call span).bind fun _ ha => (determined_arg ha).bind fun _ _ => .done _

theorem determined_rowCall (h : ∀ a ∈ call.args, a.Determined) (span : Span) (row : Row) :
    Determined (fun _ => True) (w.rowCall span row call) :=
  .ite (determined_closureThen h span _) <| .ite (determined_literalThen call span _) <|
    .ite (determined_closureThen h span _) <| .ite (determined_literalThen call span _) <|
      .ite (.refuse _ _) (.refuse _ _)

theorem determined_actionRow (h : Determinate c.chain.calls) :
    Determined (fun _ => True) (w.actionRow c) := by
  refine (determined_refuseStmts c).bind fun _ _ => ?_
  refine (Determined.foldlM (fun row _ call hcall => determined_rowCall (h call hcall) c.span row)
    trivial).bind fun row _ => ?_
  split
  · exact .refuse _ _
  · exact .done _
  · exact .noteIf (.done _)

theorem determined_componentRow (h : ∀ a ∈ call.args, a.Determined) (span : Span) :
    Determined (fun _ => True) (w.componentRow span call) :=
  .ite ((determined_closureArg h span).bind fun _ hp => determined_actionRow hp.1) (.refuse _ _)

theorem determined_components (h : Determinate c.chain.calls) :
    Determined (fun _ => True) (w.components c) :=
  (determined_refuseStmts c).bind fun _ _ =>
    (Determined.mapM fun call hcall => determined_componentRow (h call hcall) c.span).bind
      fun _ _ => .done _

/-- The calls that are kept are among those that were there. -/
theorem determined_buttonCall (h : ∀ a ∈ call.args, a.Determined) {f : Fields}
    (hf : Determinate f.rest) : Determined (fun f => Determinate f.rest) (w.buttonCall f call) :=
  .ite ((determined_argList h).bind fun _ _ => .pure hf) <|
    .ite ((determined_argList h).bind fun _ _ => .pure hf) <|
      .pure (List.forall_mem_append.2 ⟨hf, List.forall_mem_singleton.2 h⟩)

theorem determined_button (h : Determinate c.chain.calls) :
    Determined (fun _ => True) (w.button c) := by
  refine (determined_refuseStmts c).bind fun _ _ => ?_
  refine (Determined.foldlM (S := fun f : Fields => Determinate f.rest)
    (fun f hf call hcall => determined_buttonCall (h call hcall) hf)
    determinate_nil).bind fun f hf => ?_
  split
  · exact .noteIf ((determined_setters hf).bind fun _ _ => .done _)
  · exact .noteIf ((determined_setters hf).bind fun _ _ => .done _)

theorem determined_menuOption (h : ∀ a ∈ call.args, a.Determined) (span : Span) :
    Determined (fun _ => True) (w.menuOption span call) :=
  .ite ((determined_closureArg h span).bind fun _ hp => hp.2) <|
    .ite ((determined_literalArg call span).bind fun _ ha => determined_arg ha) (.refuse _ _)

theorem determined_menuOptions (h : ∀ a ∈ call.args, a.Determined) (span : Span) :
    Determined (fun _ => True) (w.menuOptions span call) :=
  (determined_closureArg h span).bind fun p hp => (determined_refuseStmts p.1).bind fun _ _ =>
    (Determined.mapM fun call hcall => determined_menuOption (hp.1 call hcall) p.1.span).bind
      fun _ _ => .done _

theorem determined_menuCall (h : ∀ a ∈ call.args, a.Determined) (span : Span) {f : Fields}
    (hf : Determinate f.rest) :
    Determined (fun f => Determinate f.rest) (w.menuCall span f call) :=
  .ite ((determined_argList h).bind fun _ _ => .pure hf) <|
    .ite ((determined_menuOptions h span).bind fun _ _ => .pure hf) <|
      .pure (List.forall_mem_append.2 ⟨hf, List.forall_mem_singleton.2 h⟩)

theorem determined_selectMenu (h : Determinate c.chain.calls) :
    Determined (fun _ => True) (w.selectMenu c) := by
  refine (determined_refuseStmts c).bind fun _ _ => ?_
  refine (Determined.foldlM (S := fun f : Fields => Determinate f.rest)
    (fun f hf call hcall => determined_menuCall (h call hcall) c.span hf)
    determinate_nil).bind fun f hf => ?_
  exact .noteIf (.noteIf ((determined_setters hf).bind fun _ _ => .done _))

theorem determined_responseData (h : Determinate c.chain.calls) :
    Determined Determinate (responseData c) := by
  unfold responseData
  split
  · exact .pure nofun
  · next call hcall =>
    exact (determined_closureArg (h call (List.mem_of_find?_eq_some hcall)) c.span).bind fun p hp =>
      (determined_refuseStmts p.1).bind fun _ _ => .pure hp.1

theorem determined_refuseOtherCalls (c : ReadyClosure) :
    Determined (fun _ => True) (refuseOtherCalls c) := by
  unfold refuseOtherCalls
  split
  · exact .done _
  · exact .refuse _ _

theorem determined_response (h : Determinate c.chain.calls) :
    Determined (fun _ => True) (w.response c) := by
  refine (determined_refuseStmts c).bind fun _ _ => (determined_refuseOtherCalls c).bind fun _ _ =>
    (determined_responseData h).bind fun calls hcalls => ?_
  split
  · exact .noteIf (.done _)
  · exact (determined_splitRequired _ hcalls _).bind fun _ hp =>
      (determined_setters hp).bind fun _ _ => .done _

theorem determined_apply (h : Determinate c.chain.calls) (rule : Rule) :
    Determined (fun _ => True) (rule.apply w c) := by
  cases rule with
  | components => exact determined_components h
  | actionRow => exact determined_actionRow h
  | button => exact determined_button h
  | selectMenu => exact determined_selectMenu h
  | response => exact determined_response h
  | fixed text => exact .done _

/-- The rewrite of a closure is determined where those of the closures in it are. -/
theorem determined_closure (h : c.Determinate) (rules : Rules) :
    Determined (fun _ => True) (w.closure rules c) := by
  refine .within (Determined.consult.bind fun _ _ => ?_) _
  split
  · exact determined_apply h.calls _
  · exact determined_general h

/-! ### All arguments -/

variable (w) (rules : Rules)

mutual

theorem determined_ready : ∀ a : Arg, (w.ready rules a).Determined
  | .literal span path => .literal span path
  | .closure ⟨_, _, stmts, ⟨_, _, calls⟩, _⟩ =>
    have hcalls := determinate_readyCalls calls
    .closure (determined_closure ⟨hcalls, determinate_readyStmts stmts⟩ rules) hcalls

theorem determined_readyArgs : ∀ as : List Arg, ∀ a ∈ w.readyArgs rules as, a.Determined
  | [] => nofun
  | a :: as => List.forall_mem_cons.2 ⟨determined_ready a, determined_readyArgs as⟩

theorem determinate_readyCalls : ∀ calls : List BuilderCall, Determinate (w.readyCalls rules calls)
  | [] => nofun
  | ⟨_, args⟩ :: calls =>
    List.forall_mem_cons.2 ⟨determined_readyArgs args, determinate_readyCalls calls⟩

theorem determinate_readyStmts : ∀ (stmts : List BuilderPrelude) (chain : Chain Ready) (span : Span),
    .assignment chain span ∈ w.readyStmts rules stmts → Determinate chain.calls
  | [], _, _, h => nomatch h
  | .verbatim _ :: stmts, chain, span, h => by
    rcases List.mem_cons.1 h with h | h
    · cases h
    · exact determinate_readyStmts stmts chain span h
  | .assignment ⟨_, _, calls⟩ _ :: stmts, chain, span, h => by
    rcases List.mem_cons.1 h with h | h
    · cases h
      exact determinate_readyCalls calls
    · exact determinate_readyStmts stmts chain span h

end

theorem determinate_readyClosure (c : BuilderClosure) : (w.readyClosure rules c).Determinate :=
  ⟨determinate_readyCalls w rules c.chain.calls, determinate_readyStmts w rules c.stmts⟩

end Workshop

/-! ### Unwinding -/

/-- However it ends, the rewrite leaves a draft in the context it was in, and the notes that were there
in front of its own. -/
def Rewrite.Unwinds {α : Type} (x : Rewrite α) : Prop :=
  ∀ d, (x d).2.ctxt = d.ctxt ∧ d.notes <+: (x d).2.notes

theorem Rewrite.Determined.unwinds {α : Type} {R : α → Prop} {x : Rewrite α}
    (hx : Rewrite.Determined R x) : Unwinds x := by
  intro d
  obtain ⟨r, ns, hcomes, -⟩ := hx d.ctxt
  obtain ⟨consulted, hd⟩ := hcomes d rfl
  rw [hd]
  exact ⟨rfl, ns, rfl⟩

/-- Whether a closure is rewritten or given up, the context is that from before, and no note from before
is lost or changed. The same goes for every rule by itself, also where one works on a closure in the context
of another. -/
theorem Workshop.rewriteClosure_unwinds (w : Workshop) (rules : Rules) (c : BuilderClosure) :
    Unwinds (w.rewriteClosure rules c) ∧
      ∀ rule : Rule, Unwinds (rule.apply w (w.readyClosure rules c)) := by
  have hc := determinate_readyClosure w rules c
  exact ⟨(determined_closure hc rules).unwinds, fun rule => (determined_apply hc.calls rule).unwinds⟩

end BuilderMigration
