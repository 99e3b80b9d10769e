import BuilderMigration.Rewrite.Rules

/-! Rewrites that never give up. A chain and the general form of a closure are written whatever is in
them: only the rule of a builder gives up, and what gives up inside an argument is kept as written. -/

namespace BuilderMigration

namespace Rewrite

variable {α β γ : Type} {x : Rewrite α} {f : α → Rewrite β} {as : List α}

/-- A rewrite that comes to a result from every draft. -/
def Total (x : Rewrite α) : Prop := ∀ d, ∃ a d', x d = (.ok a, d')

/-- A rewrite that gives up on a draft. -/
def GivesUp (x : Rewrite α) (d : Draft) : Prop := ∃ v d', x d = (.error v, d')

theorem Total.not_givesUp (h : Total x) (d : Draft) : ¬ GivesUp x d := by
  obtain ⟨a, d', ha⟩ := h d
  rintro ⟨v, d'', hv⟩
  rw [ha] at hv
  cases hv

theorem givesUp_within {ctxt : Int} {d : Draft} :
    GivesUp (within ctxt x) d ↔ GivesUp x { d with ctxt := ctxt } := by
  unfold GivesUp within
  rcases x { d with ctxt := ctxt } with ⟨v | a, d'⟩
  · exact ⟨fun _ => ⟨v, d', rfl⟩, fun _ => ⟨v, _, rfl⟩⟩
  · exact ⟨fun ⟨_, _, h⟩ => (nomatch h), fun ⟨_, _, h⟩ => (nomatch h)⟩

variable {a : α} {v : Violation} {d d' : Draft}

theorem givesUp_consult {d : Draft} :
    GivesUp (consult >>= fun _ => x) d ↔ GivesUp x { d with consulted := true } := Iff.rfl

theorem bind_of_ok (h : x d = (.ok a, d')) : (x >>= f) d = f a d' := by
  simp only [bind, ExceptT.bind, ExceptT.mk, StateT.bind, h]
  rfl

theorem tryCatch_of_ok {handle : Violation → Rewrite α} (h : x d = (.ok a, d')) :
    tryCatch x handle d = (.ok a, d') := by
  simp only [tryCatch, tryCatchThe, MonadExceptOf.tryCatch, ExceptT.tryCatch, ExceptT.mk, bind,
    StateT.bind, h]
  rfl

theorem tryCatch_of_error {handle : Violation → Rewrite α} (h : x d = (.error v, d')) :
    tryCatch x handle d = handle v d' := by
  simp only [tryCatch, tryCatchThe, MonadExceptOf.tryCatch, ExceptT.tryCatch, ExceptT.mk, bind,
    StateT.bind, h]

namespace Total

theorem pure (a : α) : Total (pure a) := fun d => ⟨a, d, rfl⟩

theorem bind (hx : Total x) (hf : ∀ a, Total (f a)) : Total (x >>= f) := by
  intro d
  obtain ⟨a, d', ha⟩ := hx d
  rw [bind_of_ok ha]
  exact hf a d'

theorem get : Total get := fun d => ⟨d, d, rfl⟩

theorem note (message : String) (span : Option Span) : Total (Rewrite.note message span) :=
  fun d => ⟨(), { d with notes := d.notes ++ [⟨message, span⟩] }, rfl⟩

theorem mapM (hf : ∀ a, Total (f a)) : Total (as.mapM f) := by
  induction as with
  | nil => exact pure []
  | cons a as ih =>
    rw [List.mapM_cons]
    exact (hf a).bind fun b => ih.bind fun bs => pure (b :: bs)

/-- What gives up has something to fall back on. -/
theorem tryCatch {handle : Violation → Rewrite α} (h : ∀ v, Total (handle v)) :
    Total (tryCatch x handle) := by
  intro d
  cases hx : x d with
  | mk r d' =>
    cases r with
    | error v =>
      rw [tryCatch_of_error hx]
      exact h v d'
    | ok a => exact ⟨a, d', tryCatch_of_ok hx⟩

end Total

end Rewrite

namespace Workshop

open Rewrite

variable (w : Workshop)

theorem total_snippet (s : Span) : Total (w.snippet s) := by
  refine Total.get.bind fun d => ?_
  rcases w.excerpt s d.ctxt with ⟨text, missing⟩
  cases missing with
  | false => exact .pure text
  | true => exact (Total.note _ _).bind fun _ => .pure text

theorem total_arg (a : Ready) : Total (w.arg a) := by
  cases a with
  | literal s path => exact w.total_snippet s
  | closure c rewritten =>
    exact .tryCatch fun v => (Total.note _ _).bind fun _ => w.total_snippet c.span

theorem total_argList (as : List Ready) : Total (w.argList as) :=
  (Total.mapM w.total_arg).bind fun _ => .pure _

theorem total_dotCall (call : ReadyCall) : Total (w.dotCall call) :=
  (w.total_argList call.args).bind fun _ => .pure _

theorem total_setters (calls : List ReadyCall) : Total (w.setters calls) :=
  (Total.mapM w.total_dotCall).bind fun _ => .pure _

theorem total_divide (required : List String) (calls : List ReadyCall) :
    Total (w.divide required calls) := by
  induction calls with
  | nil => exact .pure _
  | cons call calls ih =>
    rw [divide]
    split
    · exact (w.total_argList call.args).bind fun _ => ih.bind fun _ => .pure _
    · exact ih.bind fun _ => .pure _

theorem total_pick (builder : String) (span : Option Span) (found : List (String × String))
    (fields : List String) : Total (pick builder span found fields) := by
  induction fields with
  | nil => exact .pure _
  | cons field fields ih =>
    rw [pick]
    split
    · exact ih.bind fun _ => .pure _
    · exact (Total.note _ _).bind fun _ => ih

theorem total_splitRequired (builder : String) (calls : List ReadyCall) (span : Option Span) :
    Total (w.splitRequired builder calls span) :=
  (w.total_divide _ calls).bind fun _ => (total_pick builder span _ _).bind fun _ => .pure _

/-- A chain is always written. -/
theorem total_chainStmt (c : Chain Ready) : Total (w.chainStmt c) :=
  (Total.mapM w.total_dotCall).bind fun _ => .pure _

theorem total_prelude (s : Prelude Ready) : Total (w.prelude s) := by
  cases s with
  | verbatim span =>
    refine Total.get.bind fun d => ?_
    cases w.resolve? span d.ctxt with
    | none => exact (Total.note _ _).bind fun _ => .pure _
    | some text => exact .pure _
  | assignment c span => exact w.total_chainStmt c

/-- So is the general form of a closure. -/
theorem total_general (c : ReadyClosure) : Total (w.general c) := by
  refine (w.total_splitRequired c.builder c.chain.calls (some c.span)).bind fun parts => ?_
  cases c.stmts with
  | nil => exact (w.total_setters _).bind fun _ => .pure _
  | cons s stmts =>
    exact (Total.mapM w.total_prelude).bind fun _ => (w.total_setters _).bind fun _ => .pure _

/-- A closure is left as it is only where the rule of its builder gives up. -/
theorem rewriteClosure_givesUp_iff (rules : Rules) (c : BuilderClosure) (d : Draft) :
    GivesUp (w.rewriteClosure rules c) d ↔
      ∃ rule, rules.find? c.builder = some rule ∧ GivesUp (rule.apply w (w.readyClosure rules c))
        { d with ctxt := c.span.ctxt, consulted := true } := by
  have hb : (w.readyClosure rules c).builder = c.builder := rfl
  rw [rewriteClosure, closure, givesUp_within, givesUp_consult, hb]
  cases rules.find? c.builder with
  | none => simpa using (w.total_general _).not_givesUp _
  | some rule =>
    constructor
    · intro h
      exact ⟨rule, rfl, h⟩
    · rintro ⟨_, hr, h⟩
      exact Option.some.inj hr ▸ h

end Workshop

end BuilderMigration
