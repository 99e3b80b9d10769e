import BuilderMigration.Proofs.Rewrite.Abandoned

/-! Components: which closures become rows of components, and what each row holds. -/

namespace BuilderMigration

namespace Rewrite

variable {α β γ : Type} {k : Int} {x : Rewrite α} {f : α → Rewrite β} {as : List α}
  {R : α → Prop} {S : β → Prop}

/-! ### Success -/

/-- A rewrite that comes to a value in a context. -/
def Succeeds (k : Int) (x : Rewrite α) : Prop := ∃ a, x.result k = .ok a

theorem succeeds_pure (k : Int) (a : α) : Succeeds k (pure a) := ⟨a, (ComesTo.pure a).result_eq⟩

theorem not_succeeds_refuse (reason : String) (span : Option Span) :
    ¬ Succeeds k (refuse (α := α) reason span) := by
  rintro ⟨a, ha⟩
  rw [(ComesTo.refuse reason span).result_eq] at ha
  cases ha

theorem Total.succeeds (h : Total x) (k : Int) : Succeeds k x := by
  obtain ⟨a, d, ha⟩ := h { ctxt := k }
  exact ⟨a, by rw [result, ha]⟩

theorem Succeeds.of_bind (h : Succeeds k (x >>= f)) : Succeeds k x := by
  obtain ⟨b, hb⟩ := h
  cases hx : x { ctxt := k } with
  | mk r d =>
    cases r with
    | ok a => exact ⟨a, congrArg Prod.fst hx⟩
    | error v => rw [result, bind_of_error hx] at hb; cases hb

/-- From a draft of the context the rewrite comes to a value if and only if it succeeds there. -/
theorem Determined.succeeds_iff (hx : Determined R x) (d : Draft) :
    Succeeds d.ctxt x ↔ ∃ a after, x d = (.ok a, after) := by
  obtain ⟨consulted, hd⟩ := hx.comesTo_result d.ctxt d rfl
  rw [hd]
  exact ⟨fun ⟨a, ha⟩ => ⟨a, _, by rw [ha]⟩, fun ⟨a, _, ha⟩ => ⟨a, congrArg Prod.fst ha⟩⟩

theorem Determined.succeeds_bind (hx : Determined R x) (hf : ∀ a, R a → Determined S (f a)) :
    Succeeds k (x >>= f) ↔ ∃ a, x.result k = .ok a ∧ Succeeds k (f a) := by
  unfold Succeeds
  rw [hx.result_bind hf]
  cases x.result k <;> simp

theorem Determined.succeeds_bind_pure (hx : Determined R x) (g : α → β) :
    Succeeds k (x >>= fun a => Pure.pure (g a)) ↔ Succeeds k x := by
  rw [hx.succeeds_bind fun a _ => .done (g a)]
  exact exists_congr fun a => and_iff_left (succeeds_pure k (g a))

theorem succeeds_mapM (h : ∀ a ∈ as, Determined (fun _ => True) (f a)) :
    Succeeds k (as.mapM f) ↔ ∀ a ∈ as, Succeeds k (f a) := by
  induction as with
  | nil => exact iff_of_true (succeeds_pure k []) nofun
  | cons a as ih =>
    rw [List.forall_mem_cons] at h ⊢
    have hrest : Determined (fun _ => True) (as.mapM f) := .mapM h.2
    rw [List.mapM_cons, h.1.succeeds_bind fun _ _ => hrest.bind fun _ _ => .done _]
    simp only [hrest.succeeds_bind_pure, ih h.2, exists_and_right]
    rfl

/-- The same holds where each result is put to those before. -/
theorem succeeds_foldlM {step : γ → α → Rewrite γ} {put : γ → β → γ}
    (hstep : ∀ c a, step c a = f a >>= fun b => pure (put c b))
    (h : ∀ a ∈ as, Determined S (f a)) (c : γ) :
    Succeeds k (as.foldlM step c) ↔ ∀ a ∈ as, Succeeds k (f a) := by
  induction as generalizing c with
  | nil => exact iff_of_true (succeeds_pure k c) nofun
  | cons a as ih =>
    rw [List.forall_mem_cons] at h ⊢
    have hrest (c : γ) : Determined (fun _ => True) (as.foldlM step c) :=
      .foldlM (fun c _ a ha => hstep c a ▸ (h.2 a ha).bind fun _ _ => .done _) trivial
    rw [List.foldlM_cons, hstep, bind_assoc]
    simp only [pure_bind]
    rw [h.1.succeeds_bind fun b _ => hrest (put c b)]
    simp only [ih h.2, exists_and_right]
    rfl

theorem ComesTo.foldlM {step : γ → α → Rewrite γ} {put : γ → β → γ}
    (hstep : ∀ c a, step c a = f a >>= fun b => Pure.pure (put c b)) {value : α → β}
    {notes : α → List Note} (h : ∀ a ∈ as, ComesTo k (f a) (.ok (value a)) (notes a)) (c : γ) :
    ComesTo k (as.foldlM step c) (.ok ((as.map value).foldl put c)) (as.flatMap notes) := by
  induction as generalizing c with
  | nil => exact pure c
  | cons a as ih =>
    rw [List.forall_mem_cons] at h
    rw [List.foldlM_cons, hstep]
    exact (h.1.bind_pure (put c)).bind (ih h.2 (put c (value a)))

end Rewrite

open Rewrite

/-! ### Parts -/

/-- What a row is made of: buttons and select menus, built in a closure or given as a value. -/
inductive RowPart where
  | createButton (c : BuilderClosure)
  | addButton (span : Span) (path : Option (List String))
  | createSelectMenu (c : BuilderClosure)
  | addSelectMenu (span : Span) (path : Option (List String))

namespace RowPart

/-- The call that puts a part into a row. -/
def call : RowPart → BuilderCall
  | createButton c => ⟨"create_button", [.closure c]⟩
  | addButton span path => ⟨"add_button", [.literal span path]⟩
  | createSelectMenu c => ⟨"create_select_menu", [.closure c]⟩
  | addSelectMenu span path => ⟨"add_select_menu", [.literal span path]⟩

def isButton : RowPart → Bool
  | createButton _ | addButton _ _ => true
  | createSelectMenu _ | addSelectMenu _ _ => false

/-- A closure is rewritten as it is anywhere else, a value is copied. -/
def rewrite (w : Workshop) (rules : Rules) : RowPart → Rewrite String
  | createButton c | createSelectMenu c => w.rewriteClosure rules c
  | addButton span _ | addSelectMenu span _ => w.snippet span

/-- A row of one part. -/
def row (p : RowPart) (text : String) : Workshop.Row :=
  if p.isButton then ⟨[text], none⟩ else ⟨[], some text⟩

end RowPart

/-- A closure for a row and its parts. -/
structure ActionRow where
  closure : BuilderClosure
  parts : List RowPart

namespace ActionRow

/-- The call that adds a row to components. -/
def call (row : ActionRow) : BuilderCall := ⟨"create_action_row", [.closure row.closure]⟩

def buttons (row : ActionRow) : List RowPart := row.parts.filter (·.isButton)

def menus (row : ActionRow) : List RowPart := row.parts.filter (!·.isButton)

/-- A row that can be written: there are no statements, its calls are those of its parts, there is a part,
and each closure in it can be rewritten. -/
structure Fits (w : Workshop) (rules : Rules) (row : ActionRow) : Prop where
  stmts : row.closure.stmts = []
  calls : row.closure.chain.calls = row.parts.map (·.call)
  nonempty : row.parts ≠ []
  parts : ∀ p ∈ row.parts, Total (p.rewrite w rules)

/-- The note on a select menu beside buttons. -/
def droppedMenu (span : Span) : Note :=
  ⟨"an action row holds either buttons or a select menu; the select menu was dropped", some span⟩

variable (w : Workshop) (rules : Rules) (k : Int)

/-- All buttons in their order; without a button the last select menu. -/
def text (row : ActionRow) : String :=
  match row.buttons, row.menus.getLast? with
  | [], some menu => "CreateActionRow::SelectMenu(" ++ (menu.rewrite w rules).value k ++ ")"
  | buttons, _ =>
    "CreateActionRow::Buttons(" ++ w.vector (buttons.map fun p => (p.rewrite w rules).value k) ++ ")"

/-- The notes on the parts, and one on the select menus that buttons push out. -/
def notes (row : ActionRow) : List Note :=
  (row.parts.flatMap fun p => (p.rewrite w rules).noted k) ++
    if row.buttons ≠ [] ∧ row.menus ≠ [] then [droppedMenu row.closure.span] else []

end ActionRow

/-- Components that consist of rows which can be written. -/
structure BuilderClosure.HasRows (w : Workshop) (rules : Rules) (c : BuilderClosure)
    (rows : List ActionRow) : Prop where
  stmts : c.stmts = []
  calls : c.chain.calls = rows.map (·.call)
  rows : ∀ row ∈ rows, row.Fits w rules

namespace Workshop

variable {w : Workshop} {rules : Rules} {k : Int} {c : BuilderClosure} {call : BuilderCall}

/-! ### Single arguments -/

theorem not_succeeds_throw {α β : Type} (v : Violation) (f : α → Rewrite β) :
    ¬ Succeeds k ((throw v : Rewrite α) >>= f) := by
  rintro ⟨a, ha⟩
  cases ha

theorem closureArg_of_succeeds {α : Type} {span : Span} {f : ReadyClosure × Rewrite String → Rewrite α}
    (h : Succeeds k (closureArg (w.readyCall rules call) span >>= f)) :
    ∃ c, call.args = [.closure c] := by
  obtain ⟨field, _ | ⟨⟨s, path⟩ | c, _ | ⟨b, as⟩⟩⟩ := call
  · exact (not_succeeds_throw _ _ h).elim
  · exact (not_succeeds_throw _ _ h).elim
  · exact (not_succeeds_throw _ _ h).elim
  · exact ⟨c, rfl⟩
  · simp only [readyCall, readyArgs, ready_closure] at h
    exact (not_succeeds_throw _ _ h).elim

theorem literalArg_of_succeeds {α : Type} {span : Span} {f : Ready → Rewrite α}
    (h : Succeeds k (literalArg (w.readyCall rules call) span >>= f)) :
    ∃ s path, call.args = [.literal s path] := by
  obtain ⟨field, _ | ⟨⟨s, path⟩ | c, _ | ⟨b, as⟩⟩⟩ := call
  · exact (not_succeeds_throw _ _ h).elim
  · exact ⟨s, path, rfl⟩
  · exact (not_succeeds_throw _ _ h).elim
  · simp only [readyCall, readyArgs, ready_closure] at h
    exact (not_succeeds_throw _ _ h).elim
  · simp only [readyCall, readyArgs, ready_closure] at h
    exact (not_succeeds_throw _ _ h).elim

/-! ### Parts of a row -/

/-- A part is put into a row by its text alone. -/
theorem rowCall_part (p : RowPart) (span : Span) :
    w.rowCall span {} (w.readyCall rules p.call) =
      p.rewrite w rules >>= fun text => pure (p.row text) := by
  cases p with
  | createButton c | createSelectMenu c =>
    simp [rowCall, RowPart.call, readyCall, readyArgs, ready_closure, closureArg, RowPart.rewrite,
      RowPart.row, RowPart.isButton]
  | addButton s path | addSelectMenu s path =>
    simp [rowCall, RowPart.call, readyCall, readyArgs, ready, literalArg, arg, RowPart.rewrite,
      RowPart.row, RowPart.isButton]

/-- A call that is not refused is that of a part. -/
theorem exists_part {span : Span} (h : Succeeds k (w.rowCall span {} (w.readyCall rules call))) :
    ∃ p : RowPart, call = p.call := by
  have hfield : (w.readyCall rules call).field = call.field := rfl
  unfold rowCall at h
  rw [hfield] at h
  obtain ⟨field, args⟩ := call
  split_ifs at h with hcreateButton haddButton hcreateMenu haddMenu
  · obtain ⟨c, rfl⟩ := closureArg_of_succeeds h
    exact ⟨.createButton c, by rw [RowPart.call, ← hcreateButton]⟩
  · obtain ⟨s, path, rfl⟩ := literalArg_of_succeeds h
    exact ⟨.addButton s path, by rw [RowPart.call, ← haddButton]⟩
  · obtain ⟨c, rfl⟩ := closureArg_of_succeeds h
    exact ⟨.createSelectMenu c, by rw [RowPart.call, ← hcreateMenu]⟩
  · obtain ⟨s, path, rfl⟩ := literalArg_of_succeeds h
    exact ⟨.addSelectMenu s path, by rw [RowPart.call, ← haddMenu]⟩
  · exact (not_succeeds_refuse _ _ h).elim
  · exact (not_succeeds_refuse _ _ h).elim

theorem determined_part (w : Workshop) (rules : Rules) (p : RowPart) :
    Rewrite.Determined (fun _ => True) (p.rewrite w rules) := by
  cases p with
  | createButton c | createSelectMenu c =>
    exact determined_closure (determinate_readyClosure w rules c) rules
  | addButton s path | addSelectMenu s path => exact determined_snippet s

/-- A value is always copied. -/
theorem total_value (w : Workshop) (rules : Rules) (span : Span) (path : Option (List String)) :
    Total ((RowPart.addButton span path).rewrite w rules) ∧
      Total ((RowPart.addSelectMenu span path).rewrite w rules) :=
  ⟨w.total_snippet span, w.total_snippet span⟩

/-- A closure is rewritten in its own context, so it does not matter where this is tried. -/
theorem succeeds_part (p : RowPart) : Succeeds k (p.rewrite w rules) ↔ Total (p.rewrite w rules) := by
  refine ⟨fun h => ?_, fun h => h.succeeds k⟩
  cases p with
  | createButton c | createSelectMenu c =>
    exact fun d => ((determined_part w rules (.createButton c)).succeeds_iff d).1 h
  | addButton s path => exact (total_value w rules s path).1
  | addSelectMenu s path => exact (total_value w rules s path).2

theorem succeeds_rowCall (span : Span) :
    Succeeds k (w.rowCall span {} (w.readyCall rules call)) ↔
      ∃ p : RowPart, call = p.call ∧ Total (p.rewrite w rules) := by
  have hpart (p : RowPart) : Succeeds k (w.rowCall span {} (w.readyCall rules p.call)) ↔
      Total (p.rewrite w rules) := by
    rw [rowCall_part, (determined_part w rules p).succeeds_bind_pure, succeeds_part]
  constructor
  · intro h
    obtain ⟨p, rfl⟩ := exists_part h
    exact ⟨p, rfl, (hpart p).1 h⟩
  · rintro ⟨p, rfl, h⟩
    exact (hpart p).2 h

theorem comesTo_rowCall {p : RowPart} (h : Total (p.rewrite w rules)) (span : Span) :
    ComesTo k (w.rowCall span {} (w.readyCall rules p.call))
      (.ok (p.row ((p.rewrite w rules).value k))) ((p.rewrite w rules).noted k) := by
  rw [rowCall_part]
  exact ((determined_part w rules p).comesTo h k).bind_pure p.row

/-! ### Rows -/

/-- All parts of a row together. -/
theorem foldl_put (text : RowPart → String) (parts : List RowPart) (row : Row) :
    (parts.map fun p => p.row (text p)).foldl Row.put row =
      ⟨row.buttons ++ (parts.filter (·.isButton)).map text,
        ((parts.filter (!·.isButton)).getLast?.map text) <|> row.menu⟩ := by
  induction parts generalizing row with
  | nil => simp
  | cons p parts ih =>
    rw [List.map_cons, List.foldl_cons, ih]
    cases hp : p.isButton with
    | true => simp [Row.put, RowPart.row, hp]
    | false =>
      cases hmenus : (parts.filter (!·.isButton)).getLast? <;>
        simp [Row.put, RowPart.row, hp, List.getLast?_cons, hmenus]

/-- Calls that are all of a kind come from a list of that kind. -/
theorem exists_map_eq {α β : Type} {f : α → β} {P : α → Prop} {bs : List β}
    (h : ∀ b ∈ bs, ∃ a, b = f a ∧ P a) : ∃ as : List α, bs = as.map f ∧ ∀ a ∈ as, P a := by
  induction bs with
  | nil => exact ⟨[], rfl, nofun⟩
  | cons b bs ih =>
    rw [List.forall_mem_cons] at h
    obtain ⟨⟨a, rfl, ha⟩, h⟩ := h
    obtain ⟨as, rfl, has⟩ := ih h
    exact ⟨a :: as, rfl, List.forall_mem_cons.2 ⟨ha, has⟩⟩

theorem menus_ne_nil {row : ActionRow} (hparts : row.parts ≠ []) (h : row.buttons = []) :
    row.menus ≠ [] := by
  rw [ActionRow.buttons, List.filter_eq_nil_iff] at h
  rw [ActionRow.menus, Ne, List.filter_eq_nil_iff]
  intro hmenus
  obtain ⟨p, hp⟩ := List.exists_mem_of_ne_nil _ hparts
  exact hmenus p hp (by simpa using h p hp)

/-- A row that can be written has all its buttons, or the last of its select menus. -/
theorem comesTo_actionRow {row : ActionRow} (h : row.Fits w rules) :
    ComesTo k (w.actionRow (w.readyClosure rules row.closure))
      (.ok (row.text w rules k)) (row.notes w rules k) := by
  have hfold : ComesTo k
      ((w.readyClosure rules row.closure).chain.calls.foldlM (w.rowCall row.closure.span) {})
      (.ok ⟨row.buttons.map fun p => (p.rewrite w rules).value k,
        row.menus.getLast?.map fun p => (p.rewrite w rules).value k⟩)
      (row.parts.flatMap fun p => (p.rewrite w rules).noted k) := by
    have hparts := ComesTo.foldlM (k := k) (fun row' p => rowCall_eq (w := w) row.closure.span row'
      (w.readyCall rules (RowPart.call p))) (fun p hp => comesTo_rowCall (h.parts p hp) _) {}
    have hempty (menu : Option String) : (menu <|> none) = menu := by cases menu <;> rfl
    rw [foldl_put, List.nil_append, hempty] at hparts
    rw [calls_readyClosure, h.calls, List.map_map, List.foldlM_map]
    exact hparts
  have hspan : (w.readyClosure rules row.closure).span = row.closure.span := rfl
  unfold actionRow ActionRow.notes
  rw [refuseStmts_bind, isEmpty_stmts_ready, h.stmts, hspan, List.isEmpty_nil, if_pos rfl]
  refine hfold.bind ?_
  unfold ActionRow.text
  cases hbuttons : row.buttons with
  | nil =>
    obtain ⟨menu, hmenu⟩ := Option.ne_none_iff_exists'.1
      (mt List.getLast?_eq_none_iff.1 (menus_ne_nil h.nonempty hbuttons))
    rw [hmenu, if_neg fun hboth => hboth.1 rfl]
    exact .pure _
  | cons p ps =>
    cases hmenu : row.menus.getLast? with
    | none =>
      rw [if_neg fun hboth => hboth.2 (List.getLast?_eq_none_iff.1 hmenu)]
      exact .pure _
    | some menu =>
      have hmenus : row.menus ≠ [] := fun hnil => by simp [hnil] at hmenu
      rw [if_pos ⟨List.cons_ne_nil _ _, hmenus⟩]
      exact (ComesTo.note (ActionRow.droppedMenu row.closure.span).message _).bind_pure fun _ => _

theorem succeeds_actionRow (c : BuilderClosure) :
    Succeeds k (w.actionRow (w.readyClosure rules c)) ↔
      ∃ parts, ActionRow.Fits w rules ⟨c, parts⟩ := by
  constructor
  · intro h
    unfold actionRow at h
    rw [refuseStmts_bind, isEmpty_stmts_ready, calls_readyClosure, List.foldlM_map] at h
    split_ifs at h with hstmts
    · have hcalls := (succeeds_foldlM
        (fun row call => rowCall_eq (w := w) _ row (w.readyCall rules call))
        (fun call hcall => determined_rowCall
          ((determinate_readyClosure w rules c).calls _
            (calls_readyClosure c ▸ List.mem_map_of_mem hcall)) _ {}) {}).1 h.of_bind
      obtain ⟨parts, hparts, htotal⟩ :=
        exists_map_eq fun call hcall => (succeeds_rowCall _).1 (hcalls call hcall)
      refine ⟨parts, List.isEmpty_iff.1 hstmts, hparts, ?_, htotal⟩
      rintro rfl
      rw [hparts] at h
      exact not_succeeds_refuse _ _ h
    · exact (not_succeeds_refuse _ _ h).elim
  · rintro ⟨parts, h⟩
    exact ⟨_, (comesTo_actionRow h).result_eq⟩

/-! ### Components -/

theorem componentRow_row (row : ActionRow) (span : Span) :
    w.componentRow span (w.readyCall rules row.call) =
      w.actionRow (w.readyClosure rules row.closure) := by
  simp [componentRow, ActionRow.call, readyCall, readyArgs, ready_closure, closureArg]

/-- A call that is not refused is that of a row which can be written. -/
theorem exists_row {span : Span} (h : Succeeds k (w.componentRow span (w.readyCall rules call))) :
    ∃ row : ActionRow, call = row.call ∧ row.Fits w rules := by
  have hfield : (w.readyCall rules call).field = call.field := rfl
  unfold componentRow at h
  rw [hfield] at h
  obtain ⟨field, args⟩ := call
  split_ifs at h with hrow
  · obtain ⟨c, rfl⟩ := closureArg_of_succeeds h
    simp only [readyCall, readyArgs, ready_closure, closureArg, pure_bind] at h
    obtain ⟨parts, hfits⟩ := (succeeds_actionRow c).1 h
    exact ⟨⟨c, parts⟩, by rw [ActionRow.call, ← hrow], hfits⟩
  · exact (not_succeeds_refuse _ _ h).elim

/-- Components that have rows are the vector of them. -/
theorem comesTo_components {rows : List ActionRow} (h : c.HasRows w rules rows) :
    ComesTo k (w.components (w.readyClosure rules c))
      (.ok (w.vector (rows.map (·.text w rules k)))) (rows.flatMap (·.notes w rules k)) := by
  have hspan : (w.readyClosure rules c).span = c.span := rfl
  have hrows : ComesTo k ((w.readyClosure rules c).chain.calls.mapM (w.componentRow c.span))
      (.ok (rows.map (·.text w rules k))) (rows.flatMap (·.notes w rules k)) := by
    rw [calls_readyClosure, h.calls, List.map_map, List.mapM_map]
    refine .mapM fun row hrow => ?_
    rw [Function.comp_apply, Function.comp_apply, componentRow_row]
    exact comesTo_actionRow (h.rows row hrow)
  unfold components
  rw [refuseStmts_bind, isEmpty_stmts_ready, h.stmts, hspan, List.isEmpty_nil, if_pos rfl]
  exact hrows.bind_pure w.vector

theorem exists_rows (h : Succeeds k (w.components (w.readyClosure rules c))) :
    ∃ rows, c.HasRows w rules rows := by
  unfold components at h
  rw [refuseStmts_bind, isEmpty_stmts_ready, calls_readyClosure, List.mapM_map] at h
  split_ifs at h with hstmts
  · have hcalls := (succeeds_mapM fun call hcall => determined_componentRow
      ((determinate_readyClosure w rules c).calls _
        (calls_readyClosure c ▸ List.mem_map_of_mem hcall)) _).1 h.of_bind
    obtain ⟨rows, hrows, hfits⟩ := exists_map_eq fun call hcall => exists_row (hcalls call hcall)
    exact ⟨rows, List.isEmpty_iff.1 hstmts, hrows, hfits⟩
  · exact (not_succeeds_refuse _ _ h).elim

/-- Components are written if and only if they have rows that can be written, and otherwise given up.
Then they are the vector of their rows in their order, with the notes on each. -/
theorem components_exact (w : Workshop) (rules : Rules) (c : BuilderClosure) (d : Draft) :
    ((∃ text after, w.components (w.readyClosure rules c) d = (.ok text, after)) ↔
      ∃ rows, c.HasRows w rules rows) ∧
    ((¬ ∃ rows, c.HasRows w rules rows) → GivesUp (w.components (w.readyClosure rules c)) d) ∧
    ∀ rows, c.HasRows w rules rows → ∃ consulted,
      w.components (w.readyClosure rules c) d =
        (.ok (w.vector (rows.map (·.text w rules d.ctxt))),
          ⟨d.ctxt, d.notes ++ rows.flatMap (·.notes w rules d.ctxt), consulted⟩) := by
  have hdetermined := determined_components (w := w) (determinate_readyClosure w rules c).calls
  have hiff : (∃ text after, w.components (w.readyClosure rules c) d = (.ok text, after)) ↔
      ∃ rows, c.HasRows w rules rows := by
    rw [← hdetermined.succeeds_iff]
    exact ⟨exists_rows, fun ⟨rows, h⟩ => ⟨_, (comesTo_components h).result_eq⟩⟩
  refine ⟨hiff, fun hno => ?_, fun rows h => comesTo_components h d rfl⟩
  rcases hd : w.components (w.readyClosure rules c) d with ⟨v | text, after⟩
  · exact ⟨v, after, hd⟩
  · exact (hno (hiff.1 ⟨text, after, hd⟩)).elim

/-- A row of parts. -/
def rowOf (parts : List RowPart) : ActionRow :=
  ⟨⟨"CreateActionRow", "r", [], ⟨"r", none, parts.map (·.call)⟩, ⟨3, 6, 0⟩⟩, parts⟩

theorem fits_rowOf {parts : List RowPart} (hne : parts ≠ [])
    (h : ∀ p ∈ parts, Total (p.rewrite w rules)) : (rowOf parts).Fits w rules :=
  ⟨rfl, rfl, hne, h⟩

/-- Components of rows. -/
def componentsOf (rows : List ActionRow) : BuilderClosure :=
  ⟨"CreateComponents", "c", [], ⟨"c", none, rows.map (·.call)⟩, ⟨1, 6, 0⟩⟩

/-- A button with an id. -/
def idButton : BuilderClosure :=
  ⟨"CreateButton", "b", [], ⟨"b", none, [⟨"custom_id", [.literal ⟨1, 2, 0⟩ none]⟩]⟩, ⟨1, 2, 0⟩⟩

/-- A row of a button, a select menu and a second button, and a row of two select menus. -/
def twoRows : List ActionRow :=
  [rowOf [.createButton idButton, .addSelectMenu ⟨3, 4, 0⟩ none, .addButton ⟨5, 6, 0⟩ none],
   rowOf [.addSelectMenu ⟨3, 4, 0⟩ none, .addSelectMenu ⟨5, 6, 0⟩ none]]

/-- The text that the arguments are copied from. -/
def rowsWorkshop : Workshop := ⟨(SourceMap.add {} "rows.rs" "i m n").2, {}⟩

/-- The select menu of the first row is dropped, and of those in the second the last is kept. -/
theorem components_twoRows :
    (componentsOf twoRows).HasRows rowsWorkshop {} twoRows ∧ ∃ consulted,
      rowsWorkshop.components (rowsWorkshop.readyClosure {} (componentsOf twoRows)) {} =
        (.ok ("vec![CreateActionRow::Buttons(vec![CreateButton::new(i), n]), " ++
          "CreateActionRow::SelectMenu(n)]"), ⟨0, [ActionRow.droppedMenu ⟨3, 6, 0⟩], consulted⟩) := by
  have hbutton : Total (RowPart.rewrite rowsWorkshop {} (.createButton idButton)) :=
    (succeeds_part (k := 0) _).1 ⟨"CreateButton::new(i)", by decide +kernel⟩
  have hvalue := total_value rowsWorkshop {}
  have hrows : (componentsOf twoRows).HasRows rowsWorkshop {} twoRows := by
    refine ⟨rfl, rfl, ?_⟩
    simp only [twoRows, List.forall_mem_cons]
    refine ⟨fits_rowOf (List.cons_ne_nil _ _) ?_, fits_rowOf (List.cons_ne_nil _ _) ?_,
      List.forall_mem_nil _⟩
    · simp only [List.forall_mem_cons]
      exact ⟨hbutton, (hvalue _ _).2, (hvalue _ _).1, List.forall_mem_nil _⟩
    · simp only [List.forall_mem_cons]
      exact ⟨(hvalue _ _).2, (hvalue _ _).2, List.forall_mem_nil _⟩
  obtain ⟨consulted, h⟩ := (components_exact rowsWorkshop {} (componentsOf twoRows) {}).2.2 twoRows hrows
  have hnotes : twoRows.flatMap (·.notes rowsWorkshop {} 0) = [ActionRow.droppedMenu ⟨3, 6, 0⟩] := by
    decide +kernel
  exact ⟨hrows, consulted, h.trans (Prod.ext (congrArg Except.ok (by decide +kernel))
    (congrArg (fun ns => (⟨0, ns, consulted⟩ : Draft)) hnotes))⟩

end Workshop

end BuilderMigration
