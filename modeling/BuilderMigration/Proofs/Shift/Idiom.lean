import BuilderMigration.Proofs.Idiom.Parts
import BuilderMigration.Proofs.Idiom.Recognition
import BuilderMigration.Proofs.Shift.Tree

/-! Builders in a tree that stands elsewhere are recognised as the same builders, their spans moved. -/

namespace BuilderMigration

variable {k : Int} {settings : Settings}

theorem builderBinding?_shift (params : List Param) :
    builderBinding? settings (params.map (·.shift k)) = builderBinding? settings params := by
  match params with
  | [] => rfl
  | [⟨_, .binding .., _, ty⟩] =>
    simp only [List.map_cons, List.map_nil, Param.shift, Pattern.shift, builderBinding?]
    cases ty.bind _ <;> rfl
  | [⟨_, .other _, _, ty⟩] =>
    simp only [List.map_cons, List.map_nil, Param.shift, Pattern.shift, builderBinding?]
  | _ :: _ :: _ => rfl

/-- A chain begins without calls, so that no span in it moves. -/
theorem chainStart?_shift (strict : Bool) (e : Expr) :
    chainStart? settings strict (e.shift k) =
      (chainStart? settings strict e).map (BuilderChain.mapSpans (.shift k)) := by
  simp only [chainStart?, Expr.name?_shift, Expr.ty?_shift]
  cases e.name? with
  | none => rfl
  | some name =>
    cases e.ty?.bind (·.builder? settings) with
    | none => cases strict <;> rfl
    | some builder => rfl

theorem mapCallSpans_append (f : Span → Span) (calls more : List BuilderCall) :
    mapCallSpans f (calls ++ more) = mapCallSpans f calls ++ mapCallSpans f more := by
  induction calls with
  | nil => rfl
  | cons call calls ih => simp only [List.cons_append, mapCallSpans, ih]

theorem mapArgSpans_eq_map (f : Span → Span) (as : List Arg) :
    mapArgSpans f as = as.map (·.mapSpans f) := by
  induction as with
  | nil => rfl
  | cons a as ih => rw [mapArgSpans, ih, List.map_cons]

theorem BuilderChain.mapSpans_append (f : Span → Span) (c : BuilderChain) (field : String)
    (args : List Arg) : BuilderChain.mapSpans f (c.append ⟨field, args⟩) =
      (BuilderChain.mapSpans f c).append ⟨field, mapArgSpans f args⟩ := by
  simp only [mapSpans, Chain.append, mapCallSpans_append, mapCallSpans]

theorem Expr.opened_shift (e : Expr) :
    (e.shift k).opened = (shiftStmts k e.opened.1, e.opened.2.shift k) := by
  cases e with
  | block b =>
    obtain ⟨span, kind, stmts, tail⟩ := b
    cases kind <;> cases tail <;> rfl
  | _ => rfl

/-- An expression whose chain and whose builder stay the same when it is moved. -/
def Expr.Recognised (k : Int) (settings : Settings) (e : Expr) : Prop :=
  (∀ strict, chain? settings strict (e.shift k) =
      (chain? settings strict e).map (BuilderChain.mapSpans (.shift k))) ∧
    builderClosure? settings (e.shift k) =
      (builderClosure? settings e).map (BuilderClosure.mapSpans (.shift k))

theorem Expr.Recognised.classifyAll_shift {es : List Expr} (h : ∀ e ∈ es, e.Recognised k settings) :
    classifyAll settings (shiftExprs k es) = mapArgSpans (.shift k) (classifyAll settings es) := by
  simp only [classifyAll_eq_map, shiftExprs_eq_map, mapArgSpans_eq_map, List.map_map,
    List.map_inj_left, Function.comp_apply]
  intro e he
  rw [classifyArg, (h e he).2, classifyArg]
  cases builderClosure? settings e with
  | none => simp only [Option.map_none, Expr.span_shift, Expr.segments?_shift, Arg.mapSpans]
  | some c => rfl

theorem Expr.Recognised.stmtChain?_shift {s : Stmt} (h : ∀ span e, s = .semi span e → e.Recognised k settings)
    (strict : Bool) : stmtChain? settings strict (s.shift k) =
      (stmtChain? settings strict s).map (BuilderChain.mapSpans (.shift k)) := by
  cases s with
  | semi span e => exact (h span e rfl).1 strict
  | _ => rfl

theorem Expr.Recognised.preludes_shift {ss : List Stmt} (binding : String)
    (h : ∀ span e, .semi span e ∈ ss → e.Recognised k settings) :
    preludes settings binding (shiftStmts k ss) =
      mapPreludeSpans (.shift k) (preludes settings binding ss) := by
  simp only [preludes_eq_map, shiftStmts_eq_map, List.map_map]
  induction ss with
  | nil => rfl
  | cons s ss ih =>
    rw [List.map_cons, List.map_cons, ih fun span e he => h span e (List.mem_cons_of_mem _ he)]
    have hs := Expr.Recognised.stmtChain?_shift (s := s)
      (fun span e he => h span e (he ▸ List.mem_cons_self ..)) true
    simp only [Function.comp_apply, preludeOf, hs, Stmt.span_shift]
    cases stmtChain? settings true s with
    | none => rfl
    | some c =>
      simp only [Option.map_some, BuilderChain.mapSpans]
      split <;> rfl

theorem Expr.Recognised.closureTail?_shift {e : Expr} (h : e.Recognised k settings) (binding : String) :
    closureTail? settings binding (e.shift k) =
      (closureTail? settings binding e).map (BuilderChain.mapSpans (.shift k)) := by
  cases e with
  | methodCall span ty receiver method args => exact h.1 _
  | block b =>
    cases b
    rfl
  | path span ty segments =>
    have hname := Expr.name?_shift (k := k) (.path span ty segments)
    rw [Expr.shift] at hname
    simp only [Expr.shift, closureTail?, hname]
    split <;> rfl
  | _ => rfl

/-- Every expression is recognised as it is elsewhere. -/
theorem Expr.recognised (k : Int) (settings : Settings) (e : Expr) : e.Recognised k settings := by
  induction e using Expr.recognition_induction with
  | methodCall span ty receiver method args hr hargs =>
    refine ⟨fun strict => ?_, rfl⟩
    rw [Expr.shift, chain?_methodCall, chain?_methodCall, hr.1, chainStart?_shift,
      Expr.Recognised.classifyAll_shift hargs, ← Option.map_or, Option.map_map, Option.map_map]
    refine congrArg (Option.map · _) (funext fun c => ?_)
    exact (BuilderChain.mapSpans_append ..).symm
  | closure span params body captures hstmts htail =>
    refine ⟨fun strict => rfl, ?_⟩
    rw [Expr.shift, builderClosure?_closure, builderClosure?_closure, builderBinding?_shift,
      Expr.opened_shift]
    cases builderBinding? settings params with
    | none => rfl
    | some b =>
      simp only [Option.bind_some, htail.closureTail?_shift, Expr.Recognised.preludes_shift b.1 hstmts,
        Option.map_map]
      rfl
  | other e hcall hclosure =>
    cases e with
    | methodCall => exact (hcall _ _ _ _ _ rfl).elim
    | closure => exact (hclosure _ _ _ _ rfl).elim
    | _ => exact ⟨fun _ => rfl, rfl⟩

end BuilderMigration
