import BuilderMigration.Idiom.Recognize

/-! What recognition looks for, one shape at a time: a chain is a call behind a shorter chain or behind
a name, and a closure is its statements and a chain behind them. -/

namespace BuilderMigration

variable (settings : Settings)

/-- A call behind a chain, or the first call behind a name. -/
theorem chain?_methodCall (strict : Bool) (span : Span) (ty : Option Ty) (receiver : Expr)
    (method : String) (args : List Expr) :
    chain? settings strict (.methodCall span ty receiver method args) =
      ((chain? settings strict receiver).or (chainStart? settings strict receiver)).map
        (·.append ⟨method, classifyAll settings args⟩) := by
  cases receiver with
  | methodCall span' ty' inner method' args' =>
    have hstart : chainStart? settings strict (.methodCall span' ty' inner method' args') = none := rfl
    rw [chain?, hstart, Option.or_none]
    generalize chain? settings strict (.methodCall span' ty' inner method' args') = c
    cases c <;> rfl
  | _ =>
    simp only [chain?, Option.none_or]
    generalize chainStart? settings strict _ = c
    cases c <;> rfl

/-- A chain starts with a name and the builder that the name is known as. -/
theorem chainStart?_eq_some {strict : Bool} {e : Expr} {c : BuilderChain}
    (h : chainStart? settings strict e = some c) :
    ∃ name, e.name? = some name ∧ c = ⟨name, e.ty?.bind (·.builder? settings), []⟩ ∧
      (strict = true → (e.ty?.bind (·.builder? settings)).isSome = true) := by
  unfold chainStart? at h
  cases he : e.name? with
  | none => simp [he] at h
  | some name =>
    rw [he] at h
    cases hb : e.ty?.bind (·.builder? settings) with
    | none =>
      simp only [hb, Option.ite_none_left_eq_some] at h
      exact ⟨name, rfl, (Option.some.inj h.2).symm, fun hs => absurd hs h.1⟩
    | some builder =>
      simp only [hb] at h
      exact ⟨name, rfl, (Option.some.inj h).symm, fun _ => rfl⟩

/-- An argument is a builder closure or source text. -/
def classifyArg (e : Expr) : Arg :=
  match builderClosure? settings e with
  | some c => .closure c
  | none => .literal e.span e.segments?

theorem classifyAll_eq_map (es : List Expr) :
    classifyAll settings es = es.map (classifyArg settings) := by
  induction es with
  | nil => rw [classifyAll, List.map_nil]
  | cons e es ih =>
    rw [List.map_cons, ← ih]
    exact classifyAll.eq_2 settings e es

/-- The statements of a closure's body, and what it ends in. -/
def Expr.opened : Expr → List Stmt × Expr
  | .block (.mk _ .plain stmts (some tail)) => (stmts, tail)
  | body => ([], body)

/-- The chain that a closure ends in: calls, or the binding alone. -/
def closureTail? (binding : String) : Expr → Option BuilderChain
  | .methodCall span ty receiver method args =>
    chain? settings settings.strictReceivers (.methodCall span ty receiver method args)
  | e => if e.name? = some binding then some ⟨binding, none, []⟩ else none

/-- A closure with one builder for its parameter, whose body ends in a chain. -/
theorem builderClosure?_closure (span : Span) (params : List Param) (body : Expr) (captures : Bool) :
    builderClosure? settings (.closure span params body captures) =
      (builderBinding? settings params).bind fun b =>
        (closureTail? settings b.1 body.opened.2).map fun c =>
          ⟨b.2, b.1, preludes settings b.1 body.opened.1, c, span⟩ := by
  rw [builderClosure?]
  cases builderBinding? settings params with
  | none => rfl
  | some b =>
    rw [Option.bind_some]
    cases body with
    | methodCall span' ty receiver method args =>
      simp only [Expr.opened, closureTail?, preludes]
      generalize chain? settings settings.strictReceivers (.methodCall span' ty receiver method args) = c
      cases c <;> rfl
    | block b =>
      obtain ⟨s, kind, stmts, tail⟩ := b
      cases tail with
      | none =>
        simp only [Expr.opened, closureTail?, preludes]
        split <;> rfl
      | some tail =>
        cases kind with
        | plain =>
          cases tail with
          | methodCall span' ty receiver method args =>
            simp only [Expr.opened, closureTail?]
            generalize chain? settings settings.strictReceivers (.methodCall span' ty receiver method args) = c
            cases c <;> rfl
          | _ =>
            simp only [Expr.opened, closureTail?]
            split <;> rfl
        | _ =>
          simp only [Expr.opened, closureTail?, preludes]
          split <;> rfl
    | _ =>
      simp only [Expr.opened, closureTail?, preludes]
      split <;> rfl

/-- A statement of a closure: a chain on its binding, or any other. -/
def preludeOf (binding : String) (s : Stmt) : BuilderPrelude :=
  match stmtChain? settings true s with
  | some c => if c.receiver = binding then .assignment c s.span else .verbatim s.span
  | none => .verbatim s.span

theorem preludes_eq_map (binding : String) (ss : List Stmt) :
    preludes settings binding ss = ss.map (preludeOf settings binding) := by
  induction ss with
  | nil => rw [preludes, List.map_nil]
  | cons s ss ih =>
    rw [List.map_cons, ← ih]
    cases s with
    | semi span e =>
      cases e with
      | methodCall => rw [preludes]; rfl
      | _ => simp [preludes, preludeOf, stmtChain?, chain?]
    | _ => simp [preludes, preludeOf, stmtChain?]

/-! ### Induction -/

variable {settings}

theorem Expr.sizeOf_opened (e : Expr) :
    (∀ s ∈ e.opened.1, sizeOf s < sizeOf e) ∧ sizeOf e.opened.2 ≤ sizeOf e := by
  unfold opened
  split
  · next span stmts tail =>
    refine ⟨fun s hs => ?_, ?_⟩
    · have : sizeOf s < sizeOf stmts := List.sizeOf_lt_of_mem hs
      simp only [block.sizeOf_spec, Block.mk.sizeOf_spec]
      omega
    · simp only [block.sizeOf_spec, Block.mk.sizeOf_spec, Option.some.sizeOf_spec]
      omega
  · exact ⟨nofun, Nat.le_refl _⟩

/-- Induction along recognition: down the receivers and arguments of calls, and into the statements
and the end of the body of a closure. -/
@[elab_as_elim]
theorem Expr.recognition_induction {P : Expr → Prop}
    (methodCall : ∀ span ty receiver method args, P receiver → (∀ a ∈ args, P a) →
      P (.methodCall span ty receiver method args))
    (closure : ∀ span params body captures, (∀ span e, Stmt.semi span e ∈ body.opened.1 → P e) →
      P body.opened.2 → P (.closure span params body captures))
    (other : ∀ e, (∀ span ty receiver method args, e ≠ .methodCall span ty receiver method args) →
      (∀ span params body captures, e ≠ .closure span params body captures) → P e) : ∀ e, P e
  | .methodCall span ty receiver method args => by
    refine methodCall span ty receiver method args
      (recognition_induction methodCall closure other receiver) fun a ha => ?_
    have := List.sizeOf_lt_of_mem ha
    exact recognition_induction methodCall closure other a
  | .closure span params body captures => by
    have hbody := body.sizeOf_opened
    refine closure span params body captures (fun s e he => ?_)
      (recognition_induction methodCall closure other body.opened.2)
    have hlt : sizeOf e < sizeOf body := by
      have := hbody.1 _ he
      rw [Stmt.semi.sizeOf_spec] at this
      omega
    exact recognition_induction methodCall closure other e
  | .path .. => other _ nofun nofun
  | .lit .. => other _ nofun nofun
  | .block _ => other _ nofun nofun
  | .macroCall .. => other _ nofun nofun
  | .compound .. => other _ nofun nofun
termination_by e => sizeOf e
decreasing_by
  all_goals simp_wf
  all_goals omega

end BuilderMigration
