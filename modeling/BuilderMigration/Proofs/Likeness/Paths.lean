import BuilderMigration.Grammar.Expressions
import BuilderMigration.Proofs.Likeness.Types

/-! What expressions look ahead for, and the productions of their lists, paths, struct literals and macro
calls, over tokens that are like others. -/

namespace BuilderMigration.Grammar

open Parse

variable {M : Likeness} {b : Prop} {g : Grammar}

/-! ### Operators -/

theorem assignWidth_sees : Sees M assignWidth assignWidth := by
  rintro ⟨_, last⟩ ⟨_, last'⟩ h
  cases h with
  | nil => exact ⟨0, rfl, rfl⟩
  | @cons t t' _ _ ht hjoin h =>
    apply SeesFrom.look 0
    simp only [List.getElem?_cons_zero, ht.kind]
    refine .cond (fun _ => .pure _ _ _) fun hpunct => ?_
    rw [ht.value (by simp_all)]
    refine .ite (.pure _ _ _) (.look 1 ?_)
    cases h with
    | nil => exact .pure _ _ _
    | @cons u u' _ _ hu hjoin' h =>
      have htouch : t'.touches u' = t.touches u := Together.touches (.cons ht hjoin (.cons hu hjoin' h))
      have hle : (u'.value == "<=") = (u.value == "<=") := hu.beq (by decide)
      have hge : (u'.value == ">=") = (u.value == ">=") := hu.beq (by decide)
      simp only [List.getElem?_cons_succ, List.getElem?_cons_zero, htouch, hle, hge]
      exact .ite (.pure _ _ _) (.pure _ _ _)

theorem pendingOperator_sees : Sees M pendingOperator pendingOperator := by
  rintro ⟨_, last⟩ ⟨_, last'⟩ h
  cases h with
  | nil => exact ⟨none, rfl, rfl⟩
  | @cons t t' _ _ ht hjoin h =>
    apply SeesFrom.look 0
    simp only [List.getElem?_cons_zero, ht.kind]
    refine .cond (fun _ => .pure _ _ _) fun hpunct => ?_
    rw [ht.value (by simp_all)]
    refine .cond (fun hangle => .look 1 ?_) fun _ => .pure _ _ _
    have hasked : Asked t.value := by
      simp only [Bool.or_eq_true, beq_iff_eq] at hangle
      rcases hangle with h | h <;> rw [h] <;> decide
    cases h with
    | nil => exact .pure _ _ _
    | @cons u u' _ _ hu hjoin' h =>
      have htouch : t'.touches u' = t.touches u := Together.touches (.cons ht hjoin (.cons hu hjoin' h))
      have hle : (u'.value == "<=") = (u.value == "<=") := hu.beq (by decide)
      have hge : (u'.value == ">=") = (u.value == ">=") := hu.beq (by decide)
      simp only [List.getElem?_cons_succ, List.getElem?_cons_zero, htouch, hu.beq hasked, hle, hge]
      exact .ite (.ite (.pure _ _ _) (.ite (.pure _ _ _) (.pure _ _ _))) (.pure _ _ _)

theorem canStart_sees (bare : Bool) : Sees M (canStart bare) (canStart bare) := by
  refine .look 0 (.pure _) fun t t' ht => ?_
  simp only [ht.kind]
  cases hk : t.kind with
  | punct =>
    rw [ht.value (by simp [hk])]
    exact .ite (.pure _) (.pure _)
  | ident =>
    have hwords : ∀ v ∈ ["as", "else", "in"], Asked v := by decide
    simp only [ht.contains hwords]
    exact .pure _
  | _ => exact .pure _

theorem opensStruct_sees : Sees M opensStruct opensStruct := by
  refine .look 1 (.pure _) fun t t' ht => ?_
  simp only [ht.isPunct, ht.kind]
  refine .ite (.pure _) (.ite (.look 2 (.pure _) fun u u' hu => ?_) (.pure _))
  simp only [Option.any_some, hu.isPunct]
  exact .pure _

/-! ### Lists of expressions -/

/-- Arguments and the position behind them. -/
def ArgsAlike (M : Likeness) (r r' : List Expr × Int) : Prop :=
  Mapped (List.map M.expr) (∀ e ∈ ·, e.Written M.Named) r.1 r'.1 ∧ M.place r.2 = r'.2

theorem Respects.callArgs (hg : g.Respects M) :
    Alike M b True g.callArgs g.callArgs (ArgsAlike M) := by
  apply Alike.bind (.expect (by decide))
  intro _ _ _
  apply Alike.bind (.commaList (by decide) (hg.expr false))
  rintro ⟨args, _⟩ ⟨_, _⟩ ⟨hargs, -⟩
  apply Alike.bind (.expect (by decide))
  intro close close' hclose
  exact .pure ⟨hargs, hclose.hi.symm⟩

/-- A compound of the parts that some others are mapped to. -/
theorem compound_alike (span : Span) (kind : CompoundKind) (parts : List Expr)
    (h : ∀ e ∈ parts, e.Written M.Named) :
    Alike M b b (pure (.compound span none kind parts) : Parse Expr)
      (pure (.compound (M.span span) none kind (parts.map M.expr)))
      (Mapped M.expr (Expr.Written M.Named)) := by
  refine .pure ⟨?_, ?_⟩
  · rw [Relabeling.expr, M.exprs_eq_map]
  · rw [Expr.Written, Expr.Named]
    exact ⟨by simp, exprsNamed_iff.2 h⟩

theorem Respects.parenthesised (hg : g.Respects M) :
    Alike M b True g.parenthesised g.parenthesised (Mapped M.expr (Expr.Written M.Named)) := by
  apply Alike.bind (.expect (by decide))
  intro start start' hstart
  apply Alike.bind (.commaList (by decide) (hg.expr false))
  rintro ⟨elems, trailing⟩ ⟨_, _⟩ ⟨⟨rfl, helems⟩, rfl⟩
  apply Alike.bind (.expect (by decide))
  intro close close' hclose
  rw [hstart.lo, hclose.hi]
  obtain _ | ⟨e, _ | ⟨e', es⟩⟩ := elems <;> cases trailing <;> exact compound_alike _ _ _ helems

theorem Respects.array (hg : g.Respects M) :
    Alike M b True g.array g.array (Mapped M.expr (Expr.Written M.Named)) := by
  apply Alike.bind (.expect (by decide))
  intro start start' hstart
  refine .bind (Alike.collect (m := M.expr) (P := Expr.Written M.Named)
    (S := Mapped (List.map M.expr) (∀ e ∈ ·, e.Written M.Named)) ?_) ?_
  · apply Alike.seeing (.nextIs (by decide))
    intro closes
    apply Alike.ite (.pure (.stop ⟨rfl, nofun⟩))
    apply Alike.bind (hg.expr false)
    rintro e _ ⟨rfl, he⟩
    apply Alike.bind (.accept (by decide))
    rintro semicolon _ rfl
    apply Alike.ite
    · apply Alike.bind (hg.expr false)
      rintro e' _ ⟨rfl, he'⟩
      exact .pure (.last ⟨rfl, he⟩ ⟨rfl, by simpa using he'⟩)
    apply Alike.bind (.accept (by decide))
    rintro comma _ rfl
    exact .ite (.pure (.one ⟨rfl, he⟩)) (.pure (.last ⟨rfl, he⟩ ⟨rfl, nofun⟩))
  · rintro ⟨elems, more⟩ ⟨_, _⟩ ⟨⟨rfl, helems⟩, rfl, hmore⟩
    apply Alike.bind (.expect (by decide))
    intro close close' hclose
    rw [hstart.lo, hclose.hi, ← List.map_append]
    refine compound_alike _ _ _ fun e he => ?_
    rcases List.mem_append.1 he with he | he
    · exact helems e he
    · exact hmore e he

/-! ### Paths, struct literals and macro calls -/

theorem pathNames_alike :
    Alike M b True pathNames pathNames (Mapped (List.map M.name) (∀ s ∈ ·, M.Named s)) := by
  apply Alike.bind (.accept (by decide))
  rintro _ _ -
  have hturn {b : Prop} : Alike M b True
      (do
        let name ← expectName
        if (← nextIs "::") && (← looksAt 1 "<") then
          skip 1
          skipGenerics
        if (← nextIs "::") && (← looksAtKind 1 .ident) then
          skip 1
          return .one name
        return .last name () : Parse (Turn String Unit))
      (do
        let name ← expectName
        if (← nextIs "::") && (← looksAt 1 "<") then
          skip 1
          skipGenerics
        if (← nextIs "::") && (← looksAtKind 1 .ident) then
          skip 1
          return .one name
        return .last name ())
      (Turn.Like (Mapped M.name M.Named) fun _ _ => True) := by
    apply Alike.bind .expectName
    rintro name _ ⟨rfl, hname⟩
    apply Alike.seeing (.nextIs (by decide))
    intro colons
    apply Alike.seeing (.looksAt 1 (by decide))
    intro angle
    refine .ite ?_ (nameEnd_alike hname)
    apply Alike.bind (.skip 1)
    intro _ _ _
    exact .bind .skipGenerics fun _ _ _ => nameEnd_alike hname
  apply Alike.bind (.collect_of hturn hturn)
  rintro ⟨names, _⟩ ⟨_, _⟩ ⟨⟨rfl, hnames⟩, -⟩
  exact .pure ⟨rfl, hnames⟩

theorem Respects.structLiteral (hg : g.Respects M) (lo : Int) :
    Alike M b True (g.structLiteral lo) (g.structLiteral (M.place lo))
      (Mapped M.expr (Expr.Written M.Named)) := by
  apply Alike.bind (.expect (by decide))
  intro _ _ _
  refine .bind (Alike.collect (m := List.map M.expr) (P := (∀ e ∈ ·, e.Written M.Named))
    (S := Mapped (List.map M.expr) (∀ e ∈ ·, e.Written M.Named)) ?_) ?_
  · apply Alike.seeing (.nextIs (by decide))
    intro closes
    apply Alike.ite (.pure (.stop ⟨rfl, nofun⟩))
    apply Alike.bind .skipAttributes
    intro _ _ _
    apply Alike.bind (.accept (by decide))
    rintro base _ rfl
    apply Alike.ite
    · apply Alike.seeing (.nextIs (by decide))
      intro closes
      apply Alike.ite (.pure (.stop ⟨rfl, nofun⟩))
      apply Alike.bind (hg.expr false)
      rintro e _ ⟨rfl, he⟩
      exact .pure (.stop ⟨rfl, by simpa using he⟩)
    apply Alike.bind (.skip 1)
    intro _ _ _
    apply Alike.bind (.accept (by decide))
    rintro colon _ rfl
    extract_lets rest
    have hrest (value : List Expr) (hvalue : ∀ e ∈ value, e.Written M.Named) :
        Alike M True True (rest value) (rest (value.map M.expr))
          (Turn.Like (Mapped (List.map M.expr) (∀ e ∈ ·, e.Written M.Named))
            (Mapped (List.map M.expr) (∀ e ∈ ·, e.Written M.Named))) := by
      apply Alike.bind (.accept (by decide))
      rintro comma _ rfl
      exact .ite (.pure (.one ⟨rfl, hvalue⟩)) (.pure (.last ⟨rfl, hvalue⟩ ⟨rfl, nofun⟩))
    apply Alike.ite
    · apply Alike.bind (hg.expr false)
      rintro e _ ⟨rfl, he⟩
      exact hrest [e] (by simpa using he)
    · exact hrest [] nofun
  · rintro ⟨fields, base⟩ ⟨_, _⟩ ⟨⟨rfl, hfields⟩, rfl, hbase⟩
    apply Alike.bind (.expect (by decide))
    intro close close' hclose
    rw [hclose.hi]
    have hparts : ∀ e ∈ fields.flatten ++ base, e.Written M.Named := by
      intro e he
      rcases List.mem_append.1 he with he | he
      · obtain ⟨field, hfield, he⟩ := List.mem_flatten.1 he
        exact hfields field hfield e he
      · exact hbase e he
    have h := compound_alike (M := M) (b := True) ⟨lo, close.hi, 0⟩ .structLit _ hparts
    rw [List.map_append, List.map_flatten] at h
    exact h

theorem Respects.macroList (hg : g.Respects M) (d : Delimiter) :
    Alike M b True (g.macroList d) (g.macroList d)
      (Mapped (List.map M.expr) (∀ e ∈ ·, e.Written M.Named)) := by
  have hclosing : Asked d.closing := by cases d <;> decide
  apply Alike.bind (.skip_succ 0)
  intro _ _ _
  refine .bind (Alike.collect (m := M.expr) (P := Expr.Written M.Named) (S := (· = ·)) ?_) ?_
  · apply Alike.seeing (.nextIs hclosing)
    intro closes
    apply Alike.ite (.pure (.stop rfl))
    apply Alike.bind (hg.expr false)
    intro e e' he
    apply Alike.bind (.accept (by decide))
    rintro comma _ rfl
    apply Alike.ite (.pure (.one he))
    apply Alike.bind (.accept (by decide))
    rintro semicolon _ rfl
    exact .ite (.pure (.one he)) (.pure (.last he rfl))
  · rintro ⟨args, _⟩ ⟨_, _⟩ ⟨hargs, -⟩
    exact .bind (.expect hclosing) fun _ _ _ => .pure hargs

/-- The first reading of a group leaves no trace where the second one begins. -/
theorem Respects.macroArgs (hg : g.Respects M) (d : Delimiter) :
    Alike M b True (g.macroArgs d) (g.macroArgs d)
      (Mapped (List.map M.expr) (∀ e ∈ ·, e.Written M.Named)) :=
  .orElse (hg.macroList d) (.bind .skipGroup fun _ _ _ => .pure ⟨rfl, nofun⟩)

theorem Respects.pathLike (hg : g.Respects M) (bare : Bool) :
    Alike M b True (g.pathLike bare) (g.pathLike bare)
      (Mapped M.expr (Expr.Written M.Named)) := by
  refine .lookHead (fun _ _ => ⟨_, rfl, rfl⟩) fun t t' ht => ?_
  have hlo : ((some t').map (·.lo)).getD 0 = M.place t.lo := ht.lo
  rw [hlo]
  apply Alike.bind pathNames_alike
  rintro names _ ⟨rfl, hnames⟩
  apply Alike.seeing (.nextIs (by decide))
  intro bang
  extract_lets path rest path' rest'
  have hpath : Alike M True True (path ()) (path' ()) (Mapped M.expr (Expr.Written M.Named)) := by
    apply Alike.bind (.spanFrom t.lo)
    rintro span _ rfl
    exact .pure ⟨rfl, nofun, hnames⟩
  have hrest : Alike M True True (rest ()) (rest' ()) (Mapped M.expr (Expr.Written M.Named)) := by
    apply Alike.seeing (.nextIs (by decide))
    intro brace
    refine .ite (.seeing opensStruct_sees fun opens => .ite ?_ hpath) hpath
    exact hg.structLiteral t.lo
  refine .ite (.look 1 hrest fun u u' hu => ?_) hrest
  simp only [Option.bind_some, hu.opens?]
  cases u.opens? with
  | none => exact hrest
  | some d =>
    apply Alike.bind (.skip 1)
    intro _ _ _
    apply Alike.bind (hg.macroArgs d)
    rintro args _ ⟨rfl, hargs⟩
    apply Alike.bind (.spanFrom t.lo)
    rintro span _ rfl
    refine .pure ⟨?_, ?_⟩
    · rw [Relabeling.expr, M.exprs_eq_map]
    · rw [Expr.Written, Expr.Named]
      exact exprsNamed_iff.2 hargs

end BuilderMigration.Grammar
