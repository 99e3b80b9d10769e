import BuilderMigration.Proofs.Likeness.Paths

/-! The productions of closures, of expressions with keywords and of primary expressions over tokens
that are like others. -/

namespace BuilderMigration.Grammar

open Parse

variable {M : Likeness} {b : Prop} {g : Grammar} {t t' : Token}

/-! ### Closures -/

theorem Respects.closureParam (hg : g.Respects M) :
    Alike M True True g.closureParam g.closureParam (Mapped M.param (Param.Written M.Named)) := by
  apply Alike.bind .skipAttributes
  intro _ _ _
  refine .lookHead (fun _ _ => ⟨_, rfl, rfl⟩) fun t t' ht => ?_
  have hlo : ((some t').map (·.lo)).getD 0 = M.place t.lo := ht.lo
  rw [hlo]
  apply Alike.bind (pattern_alike (by decide))
  rintro p _ ⟨rfl, hp⟩
  apply Alike.bind hg.declaredType
  rintro ty _ ⟨rfl, hty⟩
  apply Alike.bind (.spanFrom t.lo)
  rintro span _ rfl
  exact .pure ⟨rfl, hp, hty, nofun⟩

theorem Respects.closureParams (hg : g.Respects M) :
    Alike M b True g.closureParams g.closureParams
      (Mapped (List.map M.param) (∀ p ∈ ·, p.Written M.Named)) := by
  apply Alike.accepting (by decide)
  · exact .pure ⟨rfl, List.forall_mem_nil _⟩
  · apply Alike.bind (.expect (by decide))
    intro _ _ _
    apply Alike.bind (.commaList (by decide) hg.closureParam)
    rintro ⟨params, _⟩ ⟨_, _⟩ ⟨hparams, -⟩
    exact .bind (.expect (by decide)) fun _ _ _ => .pure hparams

theorem Respects.closure (hg : g.Respects M) (lo : Int) (bare captures : Bool) :
    Alike M b True (g.closure lo bare captures) (g.closure (M.place lo) bare captures)
      (Mapped M.expr (Expr.Written M.Named)) := by
  apply Alike.bind hg.closureParams
  rintro params _ ⟨rfl, hparams⟩
  have hend (body : Expr) (hbody : body.Written M.Named) : Alike M True True
      (pure (.closure ⟨lo, body.span.hi, 0⟩ params body captures) : Parse Expr)
      (pure (.closure ⟨M.place lo, (M.expr body).span.hi, 0⟩ (params.map M.param) (M.expr body)
        captures)) (Mapped M.expr (Expr.Written M.Named)) := by
    rw [Relabeling.span_expr]
    exact .pure ⟨rfl, hparams, hbody⟩
  apply Alike.bind (.accept (by decide))
  rintro arrow _ rfl
  apply Alike.ite
  · apply Alike.bind hg.ty
    intro _ _ _
    apply Alike.bind (hg.block .plain none)
    rintro body _ ⟨rfl, hbody⟩
    exact hend (.block body) hbody
  · apply Alike.bind (hg.expr bare)
    rintro body _ ⟨rfl, hbody⟩
    exact hend body hbody

/-! ### Expressions with keywords -/

/-- A compound over all that was read from a position on. -/
theorem compoundFrom_alike (lo : Int) (kind : CompoundKind) (parts : List Expr)
    (h : ∀ e ∈ parts, e.Written M.Named) :
    Alike M True True (do return .compound (← spanFrom lo) none kind parts : Parse Expr)
      (do return .compound (← spanFrom (M.place lo)) none kind (parts.map M.expr))
      (Mapped M.expr (Expr.Written M.Named)) := by
  apply Alike.bind (.spanFrom lo)
  rintro span _ rfl
  exact compound_alike _ _ _ h

theorem Respects.conditionalOf (hg : g.Respects M) :
    Alike M b True g.conditionalOf g.conditionalOf (Mapped M.expr (Expr.Written M.Named)) := by
  apply Alike.bind (.expect (by decide))
  intro start start' hstart
  rw [hstart.lo]
  apply Alike.bind (hg.expr true)
  rintro condition _ ⟨rfl, hcondition⟩
  apply Alike.bind (hg.block .plain none)
  rintro body _ ⟨rfl, hbody⟩
  have hnode (otherwise : List Expr) (h : ∀ e ∈ otherwise, e.Written M.Named) :=
    compoundFrom_alike start.lo .conditional
      (condition :: .block body :: otherwise) (by
        intro e he
        rcases List.mem_cons.1 he with rfl | he
        · exact hcondition
        rcases List.mem_cons.1 he with rfl | he
        · exact hbody
        · exact h e he)
  apply Alike.bind (.accept (by decide))
  rintro otherwise _ rfl
  apply Alike.ite
  · apply Alike.seeing (.nextIs (by decide))
    intro chained
    apply Alike.ite
    · apply Alike.bind hg.conditional
      rintro e _ ⟨rfl, he⟩
      exact hnode [e] (by simpa using he)
    · apply Alike.bind (hg.block .plain none)
      rintro block _ ⟨rfl, hblock⟩
      exact hnode [.block block] (by simpa [Expr.Written, Expr.Named] using hblock)
  · exact hnode [] (List.forall_mem_nil _)

theorem Respects.arm (hg : g.Respects M) :
    Alike M b True g.arm g.arm (Mapped (List.map M.expr) (∀ e ∈ ·, e.Written M.Named)) := by
  apply Alike.bind .skipAttributes
  intro _ _ _
  apply Alike.bind (.accept (by decide))
  intro _ _ _
  apply Alike.bind (pattern_alike (by decide))
  intro _ _ _
  have hrest {b : Prop} (guards : List Expr) (h : ∀ e ∈ guards, e.Written M.Named) : Alike M b True
      (do
        let _ ← expect "=>"
        let value ← g.statementExpr
        let _ ← accept ","
        return guards ++ [value])
      (do
        let _ ← expect "=>"
        let value ← g.statementExpr
        let _ ← accept ","
        return guards.map M.expr ++ [value])
      (Mapped (List.map M.expr) (∀ e ∈ ·, e.Written M.Named)) := by
    apply Alike.bind (.expect (by decide))
    intro _ _ _
    apply Alike.bind hg.statementExpr
    rintro value _ ⟨rfl, hvalue⟩
    apply Alike.bind (.accept (by decide))
    intro _ _ _
    refine .pure ⟨by simp, fun e he => ?_⟩
    rcases List.mem_append.1 he with he | he
    · exact h e he
    · exact List.mem_singleton.1 he ▸ hvalue
  apply Alike.bind (.accept (by decide))
  rintro guarded _ rfl
  apply Alike.ite
  · apply Alike.past (hg.expr false)
    rintro e _ ⟨rfl, he⟩
    exact hrest [e] (by simpa using he)
  · exact hrest [] nofun

theorem Respects.choice (hg : g.Respects M) :
    Alike M b True g.choice g.choice (Mapped M.expr (Expr.Written M.Named)) := by
  apply Alike.bind (.expect (by decide))
  intro start start' hstart
  rw [hstart.lo]
  apply Alike.bind (hg.expr true)
  rintro scrutinee _ ⟨rfl, hscrutinee⟩
  apply Alike.bind (.expect (by decide))
  intro _ _ _
  apply Alike.bind .skipAttributes
  intro _ _ _
  refine .bind (Alike.collect (m := List.map M.expr) (P := (∀ e ∈ ·, e.Written M.Named))
    (S := (· = ·)) ?_) ?_
  · apply Alike.seeing (.nextIs (by decide))
    intro closes
    apply Alike.ite (.pure (.stop rfl))
    exact .bind hg.arm fun _ _ h => .pure (.one h)
  · rintro ⟨arms, _⟩ ⟨_, _⟩ ⟨⟨rfl, harms⟩, -⟩
    apply Alike.bind (.expect (by decide))
    intro _ _ _
    have h := compoundFrom_alike start.lo .choice
      (scrutinee :: arms.flatten) (by
        intro e he
        rcases List.mem_cons.1 he with rfl | he
        · exact hscrutinee
        · obtain ⟨arm, harm, he⟩ := List.mem_flatten.1 he
          exact harms arm harm e he)
    rw [List.map_cons, List.map_flatten] at h
    exact h

theorem Respects.loop (hg : g.Respects M) (lo : Int) :
    Alike M b True (g.loop lo) (g.loop (M.place lo)) (Mapped M.expr (Expr.Written M.Named)) := by
  apply Alike.bind (.skip_succ 0)
  intro _ _ _
  apply Alike.bind (hg.block .plain none)
  rintro body _ ⟨rfl, hbody⟩
  exact compoundFrom_alike _ _ [.block body] (by simpa [Expr.Written, Expr.Named] using hbody)

theorem Respects.whileLoop (hg : g.Respects M) (lo : Int) :
    Alike M b True (g.whileLoop lo) (g.whileLoop (M.place lo))
      (Mapped M.expr (Expr.Written M.Named)) := by
  apply Alike.bind (.skip_succ 0)
  intro _ _ _
  apply Alike.bind (hg.expr true)
  rintro condition _ ⟨rfl, hcondition⟩
  apply Alike.bind (hg.block .plain none)
  rintro body _ ⟨rfl, hbody⟩
  exact compoundFrom_alike _ _ [condition, .block body]
    (by simpa [Expr.Written, Expr.Named] using ⟨hcondition, hbody⟩)

theorem Respects.forLoop (hg : g.Respects M) (lo : Int) :
    Alike M b True (g.forLoop lo) (g.forLoop (M.place lo))
      (Mapped M.expr (Expr.Written M.Named)) := by
  apply Alike.bind (.skip_succ 0)
  intro _ _ _
  apply Alike.bind (pattern_alike (by decide))
  intro _ _ _
  apply Alike.bind (.expect (by decide))
  intro _ _ _
  apply Alike.bind (hg.expr true)
  rintro iterated _ ⟨rfl, hiterated⟩
  apply Alike.bind (hg.block .plain none)
  rintro body _ ⟨rfl, hbody⟩
  exact compoundFrom_alike _ _ [iterated, .block body]
    (by simpa [Expr.Written, Expr.Named] using ⟨hiterated, hbody⟩)

theorem Respects.letCondition (hg : g.Respects M) (lo : Int) :
    Alike M b True (g.letCondition lo) (g.letCondition (M.place lo))
      (Mapped M.expr (Expr.Written M.Named)) := by
  apply Alike.bind (.skip_succ 0)
  intro _ _ _
  apply Alike.bind (pattern_alike (by decide))
  intro _ _ _
  apply Alike.bind (.expect (by decide))
  intro _ _ _
  apply Alike.bind (hg.operand _ true)
  rintro scrutinee _ ⟨rfl, hscrutinee⟩
  exact compoundFrom_alike _ _ [scrutinee] (by simpa using hscrutinee)

theorem Respects.jump (hg : g.Respects M) (lo : Int) (kind : CompoundKind) (bare : Bool) :
    Alike M b True (g.jump lo kind bare) (g.jump (M.place lo) kind bare)
      (Mapped M.expr (Expr.Written M.Named)) := by
  apply Alike.bind (.skip_succ 0)
  intro _ _ _
  extract_lets node rest node' rest'
  have hrest : Alike M True True (rest ()) (rest' ()) (Mapped M.expr (Expr.Written M.Named)) := by
    have hnone : Alike M True True (node []) (node' []) (Mapped M.expr (Expr.Written M.Named)) :=
      compoundFrom_alike _ _ [] nofun
    refine .ite (.seeing (canStart_sees bare) fun starts => .ite ?_ hnone) hnone
    apply Alike.bind (hg.expr bare)
    rintro e _ ⟨rfl, he⟩
    exact compoundFrom_alike _ _ [e] (by simpa using he)
  exact .ite (.bind (.acceptKind .lifetime) fun _ _ _ => hrest) hrest

/-! ### Primary expressions -/

theorem Respects.labeled (hg : g.Respects M) (ht : t.Like M t') (bare : Bool) :
    Alike M b True (g.labeled t bare) (g.labeled t' bare)
      (Mapped M.expr (Expr.Written M.Named)) := by
  apply Alike.bind (.skip_succ 0)
  intro _ _ _
  apply Alike.bind (.expect (by decide))
  intro _ _ _
  apply Alike.bind (hg.primary bare)
  rintro inner _ ⟨rfl, hinner⟩
  rw [ht.lo, Relabeling.span_expr]
  exact compound_alike ⟨t.lo, inner.span.hi, 0⟩ _ [inner] (by simpa using hinner)

theorem qualifiedPath_alike (lo : Int) :
    Alike M b True (qualifiedPath lo) (qualifiedPath (M.place lo))
      (Mapped M.expr (Expr.Written M.Named)) := by
  apply Alike.bind .skipGenerics
  intro _ _ _
  refine .bind (Alike.repeat ?_) fun _ _ _ => compoundFrom_alike _ _ [] nofun
  apply Alike.bind (.accept (by decide))
  rintro colons _ rfl
  exact .ite (.bind .expectName fun _ _ _ => .pure rfl) (.pure rfl)

theorem block_alike (hg : g.Respects M) (kind : BlockKind) (lo : Option Int) :
    Alike M b True (do return .block (← g.block kind lo) : Parse Expr)
      (do return .block (← g.block kind (lo.map M.place)))
      (Mapped M.expr (Expr.Written M.Named)) := by
  apply Alike.bind (hg.block kind lo)
  rintro body _ ⟨rfl, hbody⟩
  exact .pure ⟨rfl, hbody⟩

theorem Respects.punctPrimary (hg : g.Respects M) (ht : t.Like M t') (bare : Bool) :
    Alike M b True (g.punctPrimary t bare) (g.punctPrimary t' bare)
      (Mapped M.expr (Expr.Written M.Named)) := by
  have hbars : (t'.value = "|" || t'.value = "||") = (t.value = "|" || t.value = "||") := by
    simp only [ht.value_eq_iff (v := "|") (by decide), ht.value_eq_iff (v := "||") (by decide)]
  unfold Grammar.punctPrimary
  rw [hbars, ht.lo]
  apply Alike.ite (hg.closure t.lo bare false)
  apply Alike.asking (ht.value_eq_iff (by decide)) (block_alike hg _ none)
  apply Alike.asking (ht.value_eq_iff (by decide)) hg.parenthesised
  apply Alike.asking (ht.value_eq_iff (by decide)) hg.array
  apply Alike.asking (ht.value_eq_iff (by decide))
  · exact .bind .skipAttributes fun _ _ _ => hg.primary bare
  apply Alike.asking (ht.value_eq_iff (by decide)) (qualifiedPath_alike t.lo)
  apply Alike.asking (ht.value_eq_iff (by decide)) (hg.pathLike bare)
  exact .reject ht .unexpectedToken

/-- An expression behind a first token, or nothing at all and no token read. -/
def Perhaps (M : Likeness) (moved : Prop) (p p' : Parse (Option Expr)) : Prop :=
  ∀ c c', c.Beside M moved c' → p c = .ok (none, c) ∧ p' c' = .ok (none, c') ∨
    Ends M True (fun o o' => ∃ e : Expr, e.Written M.Named ∧ o = some e ∧ o' = some (M.expr e))
      (p c) (p' c')

namespace Perhaps

variable {p p' q q' : Parse (Option Expr)}

theorem nothing : Perhaps M b (pure none) (pure none) := fun _ _ _ => .inl ⟨rfl, rfl⟩

theorem read {p p' : Parse Expr} (h : Alike M b True p p' (Mapped M.expr (Expr.Written M.Named))) :
    Perhaps M b (do return some (← p)) (do return some (← p')) := by
  intro c c' hc
  refine .inr (Alike.bind h ?_ c c' hc)
  rintro e _ ⟨rfl, he⟩
  exact .pure ⟨e, he, rfl, rfl⟩

theorem seeing {α : Type} {look look' : Parse α} {f f' : α → Parse (Option Expr)}
    (hp : Sees M look look') (h : ∀ a, Perhaps M b (f a) (f' a)) :
    Perhaps M b (look >>= f) (look' >>= f') := by
  intro c c' hc
  obtain ⟨a, ha, ha'⟩ := hp c c' hc.rest
  rw [bind_apply, bind_apply, ha, ha']
  exact h a c c' hc

theorem asking {x x' : Prop} [Decidable x] [Decidable x'] (hx : x' ↔ x) (hp : Perhaps M b p p')
    (hq : Perhaps M b q q') : Perhaps M b (if x then p else q) (if x' then p' else q') := by
  by_cases h : x
  · simpa [h, hx.2 h] using hp
  · simpa [h, mt hx.1 h] using hq

theorem ite {x : Prop} [Decidable x] (hp : Perhaps M b p p') (hq : Perhaps M b q q') :
    Perhaps M b (if x then p else q) (if x then p' else q') :=
  asking Iff.rfl hp hq

/-- Reading on behind what may have been read. -/
theorem bind {β : Type} {S : β → β → Prop} {f f' : Option Expr → Parse β} {b' : Prop}
    (hp : Perhaps M b p p')
    (hsome : ∀ e : Expr, e.Written M.Named → Alike M True b' (f (some e)) (f' (some (M.expr e))) S)
    (hnone : Alike M b b' (f none) (f' none) S) : Alike M b b' (p >>= f) (p' >>= f') S := by
  intro c c' hc
  rw [bind_apply, bind_apply]
  rcases hp c c' hc with ⟨h, h'⟩ | h
  · rw [h, h']
    exact hnone c c' hc
  · generalize p c = r at h ⊢
    generalize p' c' = r' at h ⊢
    cases h with
    | error hf => exact .error hf
    | ok hq hd =>
      obtain ⟨e, he, rfl, rfl⟩ := hq
      exact hsome e he _ _ hd

end Perhaps

theorem Respects.someClosure (hg : g.Respects M) (n : Nat) (lo : Int) (bare captures : Bool) :
    Perhaps M b (do skip n; return some (← g.closure lo bare captures))
      (do skip n; return some (← g.closure (M.place lo) bare captures)) := by
  have h := Perhaps.read (b := b) (.bind (.skip n) fun _ _ _ => hg.closure lo bare captures)
  simpa only [bind_assoc] using h

theorem Respects.someBlock (hg : g.Respects M) (n : Nat) (lo : Int) (kind : BlockKind) :
    Perhaps M b (do skip n; return some (.block (← g.block kind (some lo))))
      (do skip n; return some (.block (← g.block kind (some (M.place lo))))) := by
  have h := Perhaps.read (b := b) (.bind (.skip n) fun _ _ _ =>
    block_alike hg kind (some lo))
  simpa only [bind_assoc, pure_bind, Option.map_some] using h

theorem Respects.async? (hg : g.Respects M) (lo : Int) (bare : Bool) :
    Perhaps M b (g.async? lo bare) (g.async? (M.place lo) bare) := by
  have hlast : Perhaps M b
      (do
        if ← looksAtOneOf 1 ["|", "||"] then
          skip 1
          return some (← g.closure lo bare false)
        return none)
      (do
        if ← looksAtOneOf 1 ["|", "||"] then
          skip 1
          return some (← g.closure (M.place lo) bare false)
        return none) :=
    .seeing (.looksAtOneOf 1 (by decide)) fun _ => .ite (hg.someClosure 1 lo bare false) .nothing
  apply Perhaps.seeing (.looksAt 1 (by decide))
  intro brace
  apply Perhaps.ite (hg.someBlock 1 lo .async)
  apply Perhaps.seeing (.looksAt 1 (by decide))
  intro captures
  refine .ite ?_ hlast
  apply Perhaps.seeing (.looksAt 2 (by decide))
  intro brace
  apply Perhaps.ite (hg.someBlock 2 lo .async)
  exact .seeing (.looksAtOneOf 2 (by decide)) fun _ => .ite (hg.someClosure 2 lo bare true) hlast

theorem Respects.marked? (hg : g.Respects M) (ht : t.Like M t') (bare : Bool) :
    Perhaps M b (g.marked? t bare) (g.marked? t' bare) := by
  have hunsafe : t'.value = "unsafe" ↔ t.value = "unsafe" := ht.value_eq_iff (by decide)
  have hconst : t'.value = "const" ↔ t.value = "const" := ht.value_eq_iff (by decide)
  unfold Grammar.marked?
  simp only [ht.lo, hunsafe, hconst]
  apply Perhaps.asking (ht.value_eq_iff (by decide))
  · refine .seeing (.looksAtOneOf 1 (by decide)) fun _ => ?_
    exact .ite (hg.someClosure 1 t.lo bare true) .nothing
  apply Perhaps.asking (ht.value_eq_iff (by decide)) (hg.async? t.lo bare)
  refine .ite (.seeing (.looksAt 1 (by decide)) fun _ => ?_) .nothing
  exact .ite (hg.someBlock 1 t.lo _) .nothing

theorem Respects.plainWord (hg : g.Respects M) (ht : t.Like M t') (bare : Bool) :
    Alike M b True (g.plainWord t bare) (g.plainWord t' bare)
      (Mapped M.expr (Expr.Written M.Named)) := by
  have hjump : jump? t'.value = jump? t.value := ht.lookup (by decide)
  unfold Grammar.plainWord
  rw [hjump, ht.lo]
  apply Alike.asking (ht.value_eq_iff (by decide)) hg.conditionalOf
  apply Alike.asking (ht.value_eq_iff (by decide)) hg.choice
  apply Alike.asking (ht.value_eq_iff (by decide)) (hg.loop t.lo)
  apply Alike.asking (ht.value_eq_iff (by decide)) (hg.whileLoop t.lo)
  apply Alike.asking (ht.value_eq_iff (by decide)) (hg.forLoop t.lo)
  apply Alike.asking (ht.value_eq_iff (by decide)) (hg.letCondition t.lo)
  cases jump? t.value with
  | some kind => exact hg.jump t.lo kind bare
  | none => exact hg.pathLike bare

theorem Respects.wordPrimary (hg : g.Respects M) (ht : t.Like M t') (bare : Bool) :
    Alike M b True (g.wordPrimary t bare) (g.wordPrimary t' bare)
      (Mapped M.expr (Expr.Written M.Named)) := by
  have hbool : (t'.value = "true" || t'.value = "false") = (t.value = "true" || t.value = "false") := by
    simp only [ht.value_eq_iff (v := "true") (by decide), ht.value_eq_iff (v := "false") (by decide)]
  unfold Grammar.wordPrimary
  rw [hbool, ht.lo, ht.hi]
  apply Alike.ite (.bind (.skip_succ 0) fun _ _ _ => .pure ⟨rfl, trivial⟩)
  exact (hg.marked? ht bare).bind (fun e he => .pure ⟨rfl, he⟩) (hg.plainWord ht bare)

theorem Respects.primaryOf (hg : g.Respects M) (bare : Bool) :
    Alike M b True (g.primaryOf bare) (g.primaryOf bare)
      (Mapped M.expr (Expr.Written M.Named)) := by
  apply Alike.look 0 (.rejectEnd _)
  intro t t' ht
  have hlit (kind : LitKind) : Alike M b True
      (do skip 1; return .lit ⟨t.lo, t.hi, 0⟩ kind : Parse Expr)
      (do skip 1; return .lit ⟨t'.lo, t'.hi, 0⟩ kind)
      (Mapped M.expr (Expr.Written M.Named)) := by
    rw [ht.lo, ht.hi]
    exact .bind (.skip_succ 0) fun _ _ _ => .pure ⟨rfl, trivial⟩
  simp only [ht.kind]
  cases t.kind with
  | string => exact hlit .string
  | char => exact hlit .char
  | number => exact hlit .number
  | lifetime => exact hg.labeled ht bare
  | punct => exact hg.punctPrimary ht bare
  | ident => exact hg.wordPrimary ht bare

end BuilderMigration.Grammar
