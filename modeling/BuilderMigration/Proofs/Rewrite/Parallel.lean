import BuilderMigration.Proofs.Rewrite.Follows
import BuilderMigration.Rewrite.Rules

/-! The same closures written by two workshops, side by side. How the texts of the two are related is
left open: a relation that holds of what is copied, and that passes from the parts of a text to the
text, holds of what is written. -/

namespace BuilderMigration

open Rewrite

/-! ### Texts in parallel -/

/-- The variants of a response. -/
def ResponseVariant.all : List ResponseVariant := byTag.map (·.2)

theorem ResponseVariant.ofChain_mem (c : Chain Ready) : ofChain c ∈ all := by
  unfold ofChain
  cases h : (tag? c).bind fun tag => Assoc.get? tag byTag with
  | none => simp [all, byTag]
  | some v =>
    obtain ⟨tag, -, h⟩ := Option.bind_eq_some_iff.1 h
    exact List.mem_map_of_mem (f := (·.2)) (Assoc.mem_of_get? h)

/-- What a component is wrapped in. -/
def componentOpenings : List String :=
  ["CreateActionRow::SelectMenu(", "CreateActionRow::Buttons(", "CreateButton::new_link("]

/-- The builders whose constructors are written whatever they were called. -/
def writtenBuilders : List String :=
  ["CreateButton", "CreateSelectMenu"] ++ ResponseVariant.all.filterMap (·.payload)

/-- How what two workshops write is related: arguments and statements, setters, and values that
setters can be put behind. Names are written as they are. Each relation passes from the parts of a text
to the text, in the layout of either workshop. -/
structure Parallel (w w' : Workshop) where
  Name : String → Prop
  Arg : String → String → Prop
  Setters : String → String → Prop
  Value : String → String → Prop
  required : w.settings.required = w'.settings.required
  name : ∀ builder ∈ writtenBuilders, Name builder
  value {a b : String} (h : Value a b) : Arg a b
  list {as bs : List String} (h : List.Forall₂ Arg as bs) :
    Arg (String.intercalate ", " as) (String.intercalate ", " bs)
  setter {field a b : String} (hf : Name field) (h : Arg a b) :
    Setters ("." ++ field ++ "(" ++ a ++ ")") ("." ++ field ++ "(" ++ b ++ ")")
  setters {as bs : List String} (h : List.Forall₂ Setters as bs) :
    Setters (String.join (if w.settings.multiline then as.map ("\n" ++ ·) else as))
      (String.join (if w'.settings.multiline then bs.map ("\n" ++ ·) else bs))
  chain {receiver : String} {as bs : List String} (hr : Name receiver)
    (h : List.Forall₂ Setters as bs) :
    Value (receiver ++ " = " ++ receiver ++ String.join as ++ ";")
      (receiver ++ " = " ++ receiver ++ String.join bs ++ ";")
  construct {builder : String} {as bs : List String} (hb : Name builder)
    (h : List.Forall₂ Arg as bs) :
    Value (Workshop.construct builder as) (Workshop.construct builder bs)
  set {a b s t : String} (h : Value a b) (hs : Setters s t) : Value (a ++ s) (b ++ t)
  block {binding a b s t : String} {as bs : List String} (hn : Name binding) (h : Value a b)
    (hl : List.Forall₂ Arg as bs) (hs : Setters s t) :
    Value (String.intercalate "\n"
        (["\x7b", "let mut " ++ binding ++ " = " ++ a ++ ";"] ++ as ++ [binding ++ s, "\x7d"]))
      (String.intercalate "\n"
        (["\x7b", "let mut " ++ binding ++ " = " ++ b ++ ";"] ++ bs ++ [binding ++ t, "\x7d"]))
  vector {as bs : List String} (h : List.Forall₂ Arg as bs) : Value (w.vector as) (w'.vector bs)
  wrap {opening a b : String} (ho : opening ∈ componentOpenings) (h : Arg a b) :
    Value (opening ++ a ++ ")") (opening ++ b ++ ")")
  menuKind {a b : String} (h : Arg a b) :
    Arg ("CreateSelectMenuKind::String \x7b options: " ++ a ++ " \x7d")
      ("CreateSelectMenuKind::String \x7b options: " ++ b ++ " \x7d")
  variant {v : ResponseVariant} (hv : v ∈ ResponseVariant.all) :
    Value ("CreateInteractionResponse::" ++ v.name) ("CreateInteractionResponse::" ++ v.name)
  response {v : ResponseVariant} {a b s t : String} (hv : v ∈ ResponseVariant.all) (h : Value a b)
    (hs : Setters s t) :
    Value ("CreateInteractionResponse::" ++ v.name ++ "(" ++ a ++ s
        ++ (if w.settings.multiline then "\n)" else ")"))
      ("CreateInteractionResponse::" ++ v.name ++ "(" ++ b ++ t
        ++ (if w'.settings.multiline then "\n)" else ")"))

namespace Parallel

variable {w w' : Workshop} (P : Parallel w w') {F : Frame}

/-- What is shown of text that may be missing. -/
inductive Shown : Option String → Option String → Prop
  | text {a b : String} (h : P.Arg (Text.trim a) (Text.trim b)) : Shown (some a) (some b)
  | missing (h : P.Arg w.settings.placeholder w'.settings.placeholder)
      (hs : P.Arg (w.settings.placeholder ++ ";") (w'.settings.placeholder ++ ";")) :
      Shown none none

/-- Text that is copied from two places, seen from related contexts. -/
def Copied (F : Frame) (s s' : Span) : Prop :=
  F.span s s' ∧
    ∀ k k', F.ctxt k k' → P.Shown (w.resolve? s k) (w'.resolve? s' k')

/-- Texts may differ, and none is without a partner. -/
def Lax (F : Frame) : Prop := F.lax ∧ ∀ a, ∃ b, P.Arg a b

/-! ### Closures in parallel -/

/-- Two arguments that are written by themselves. A closure that cannot be rewritten is copied, perhaps
from lax text. -/
inductive Argument (F : Frame) : Ready → Ready → Prop
  | literal {s s' : Span} {path : Option (List String)} (h : P.Copied F s s') :
      Argument F (.literal s path) (.literal s' path)
  | closure {c c' : ReadyClosure} {rewritten rewritten' : Rewrite String}
      (hs : F.span c.span c'.span) (ht : P.Lax F ∨ P.Copied F c.span c'.span)
      (hr : Follows F P.Value rewritten rewritten') :
      Argument F (.closure c rewritten) (.closure c' rewritten')

inductive MethodCall (F : Frame) : ReadyCall → ReadyCall → Prop
  | mk {field : String} {args args' : List Ready} (hf : P.Name field)
      (h : List.Forall₂ (P.Argument F) args args') : MethodCall F ⟨field, args⟩ ⟨field, args'⟩

abbrev Calls (F : Frame) : List ReadyCall → List ReadyCall → Prop := List.Forall₂ (P.MethodCall F)

inductive Statement (F : Frame) : Prelude Ready → Prelude Ready → Prop
  | verbatim {s s' : Span} (h : P.Copied F s s') : Statement F (.verbatim s) (.verbatim s')
  | assignment {receiver : String} {base : Option String} {calls calls' : List ReadyCall}
      {s s' : Span} (hr : P.Name receiver) (h : P.Calls F calls calls') :
      Statement F (.assignment ⟨receiver, base, calls⟩ s) (.assignment ⟨receiver, base, calls'⟩ s')

/-- What two closures have in common that are refused if they hold statements. -/
structure Heads (F : Frame) (c c' : ReadyClosure) : Prop where
  builder : c.builder = c'.builder
  isEmpty : c.stmts.isEmpty = c'.stmts.isEmpty
  span : F.span c.span c'.span

/-- What they have in common where their calls are taken into the text around them. -/
structure Flat (F : Frame) (c c' : ReadyClosure) : Prop extends Heads F c c' where
  calls : P.Calls F c.chain.calls c'.chain.calls

/-- Two arguments whose calls, if they are closures, are taken into the text around them. -/
inductive Merged (F : Frame) : Ready → Ready → Prop
  | literal {s s' : Span} {path : Option (List String)} :
      Merged F (.literal s path) (.literal s' path)
  | closure {c c' : ReadyClosure} {rewritten rewritten' : Rewrite String} (h : P.Flat F c c') :
      Merged F (.closure c rewritten) (.closure c' rewritten')

/-- Two calls of a closure: the arguments of those among `merges` are taken in, all others are written
by themselves. -/
structure Merging (F : Frame) (merges : String → Bool) (call call' : ReadyCall) : Prop where
  field : call.field = call'.field
  alone : merges call.field = false → P.MethodCall F call call'
  merged : merges call.field = true → List.Forall₂ (P.Merged F) call.args call'.args

/-- Two closures whose calls and statements are in parallel. -/
structure Closures (F : Frame) (merges : String → Bool) (c c' : ReadyClosure) : Prop where
  builder : c.builder = c'.builder
  binding : c.binding = c'.binding
  builder_name : P.Name c.builder
  binding_name : P.Name c.binding
  span : F.span c.span c'.span
  stmts : List.Forall₂ (P.Statement F) c.stmts c'.stmts
  merging : List.Forall₂ (P.Merging F merges) c.chain.calls c'.chain.calls

variable {P} {merges : String → Bool} {c c' : ReadyClosure} {call call' : ReadyCall}
  {calls calls' : List ReadyCall}

theorem MethodCall.field (h : P.MethodCall F call call') : call.field = call'.field := by
  obtain ⟨-, -⟩ := h
  rfl

theorem MethodCall.args (h : P.MethodCall F call call') :
    List.Forall₂ (P.Argument F) call.args call'.args := by
  obtain ⟨-, h⟩ := h
  exact h

theorem Closures.heads (h : P.Closures F merges c c') : Heads F c c' where
  builder := h.builder
  isEmpty := by
    have hs := h.stmts
    generalize c.stmts = stmts at hs ⊢
    generalize c'.stmts = stmts' at hs ⊢
    cases hs <;> rfl
  span := h.span

/-- Where no call takes its arguments in. -/
theorem Closures.flat (h : P.Closures F (fun _ => false) c c') : P.Flat F c c' :=
  ⟨h.heads, h.merging.imp fun _ _ hcall => hcall.alone rfl⟩

/-! ### Arguments and calls -/

theorem follows_snippet {s s' : Span} (h : P.Copied F s s') :
    Follows F P.Arg (w.snippet s) (w'.snippet s') := by
  refine Follows.get.bind fun d d' hd => ?_
  have hshown := h.2 d.ctxt d'.ctxt hd
  unfold Workshop.excerpt
  generalize w.resolve? s d.ctxt = a at hshown
  generalize w'.resolve? s' d'.ctxt = b at hshown
  cases hshown with
  | text h => exact .pure h
  | missing hp => exact (Follows.note _ h.1).bind fun _ _ _ => .pure hp

theorem steady_snippet {R : String → String → Prop} (hR : ∀ a, ∃ b, R a b) (s : Span) (d : Draft) :
    Steady R d (w.snippet s d) := by
  have hrun : w.snippet s = get >>= fun d => do
      if (w.excerpt s d.ctxt).2 then
        Rewrite.note "original source text is unavailable; a placeholder was emitted" (some s)
      return (w.excerpt s d.ctxt).1 := rfl
  have hget : (get : Rewrite Draft) d = (.ok d, d) := rfl
  rw [hrun, bind_of_ok hget]
  cases (w.excerpt s d.ctxt).2 with
  | false => exact ⟨rfl, Nat.le_refl _, fun a _ => hR a⟩
  | true =>
    have hlength := Follows.length_note
      "original source text is unavailable; a placeholder was emitted" (some s) d
    exact ⟨rfl, Nat.le_trans (Nat.le_succ _) (Nat.le_of_eq hlength.symm), fun a _ => hR a⟩

theorem follows_arg {a a' : Ready} (h : P.Argument F a a') :
    Follows F P.Arg (w.arg a) (w'.arg a') := by
  cases h with
  | literal h => exact follows_snippet h
  | @closure c c' rewritten rewritten' hs ht hr =>
    refine (hr.imp fun _ _ => P.value).tryCatch fun v v' hv => ?_
    obtain ⟨hlax, hpartner⟩ | ht := ht
    · exact .noted hlax _ fun d _ _ => steady_snippet hpartner c.span d
    · rw [hv.reason]
      exact (Follows.note _ (hv.span_getD hs)).bind fun _ _ _ => follows_snippet ht

theorem follows_argList {as as' : List Ready} (h : List.Forall₂ (P.Argument F) as as') :
    Follows F P.Arg (w.argList as) (w'.argList as') :=
  (Follows.mapM h fun _ _ => follows_arg).bind fun _ _ h => .pure (P.list h)

theorem follows_dotCall (h : P.MethodCall F call call') :
    Follows F P.Setters (w.dotCall call) (w'.dotCall call') := by
  obtain ⟨hf, h⟩ := h
  exact (follows_argList h).bind fun _ _ h => .pure (P.setter hf h)

theorem follows_setters (h : P.Calls F calls calls') :
    Follows F P.Setters (w.setters calls) (w'.setters calls') :=
  (Follows.mapM h fun _ _ => follows_dotCall).bind fun _ _ h => .pure (P.setters h)

/-! ### Required fields and setters -/

/-- What was found for the fields of a constructor. -/
abbrev Found (P : Parallel w w') : List (String × String) → List (String × String) → Prop :=
  List.Forall₂ fun e e' => e.1 = e'.1 ∧ P.Arg e.2 e'.2

theorem Found.get? {found found' : List (String × String)} (h : Found P found found')
    (field : String) : Option.Rel P.Arg (Assoc.get? field found) (Assoc.get? field found') := by
  induction h with
  | nil => exact .none
  | @cons e e' found found' he _ ih =>
    obtain ⟨key, text⟩ := e
    obtain ⟨key', text'⟩ := e'
    obtain ⟨rfl, htext⟩ := he
    rw [Assoc.get?, Assoc.get?]
    split
    · exact .some htext
    · exact ih

theorem follows_divide (required : List String) (h : P.Calls F calls calls') :
    Follows F (fun p q => Found P p.1 q.1 ∧ P.Calls F p.2 q.2) (w.divide required calls)
      (w'.divide required calls') := by
  induction h with
  | nil => exact .pure ⟨.nil, .nil⟩
  | @cons call call' calls calls' hcall _ ih =>
    rw [Workshop.divide, Workshop.divide, ← hcall.field]
    refine .ite ?_ ?_
    · exact (follows_argList hcall.args).bind fun _ _ htext => ih.bind fun _ _ h =>
        .pure ⟨.cons ⟨rfl, htext⟩ h.1, h.2⟩
    · exact ih.bind fun _ _ h => .pure ⟨h.1, .cons hcall h.2⟩

theorem follows_pick (builder : String) {s s' : Span} (hs : F.span s s')
    {found found' : List (String × String)} (h : Found P found found') (fields : List String) :
    Follows F (List.Forall₂ P.Arg) (Workshop.pick builder (some s) found fields)
      (Workshop.pick builder (some s') found' fields) := by
  induction fields with
  | nil => exact .pure .nil
  | cons field fields ih =>
    have hget := Found.get? (List.rel_reverse h) field
    rw [Workshop.pick, Workshop.pick]
    generalize Assoc.get? field found.reverse = text at hget
    generalize Assoc.get? field found'.reverse = text' at hget
    cases hget with
    | some htext => exact ih.bind fun _ _ h => .pure (.cons htext h)
    | none => exact (Follows.note _ hs).bind fun _ _ _ => ih

theorem follows_splitRequired (builder : String) {s s' : Span} (hs : F.span s s')
    (h : P.Calls F calls calls') :
    Follows F (fun p q => List.Forall₂ P.Arg p.1 q.1 ∧ P.Calls F p.2 q.2)
      (w.splitRequired builder calls (some s)) (w'.splitRequired builder calls' (some s')) := by
  rw [Workshop.splitRequired, Workshop.splitRequired, P.required]
  exact (follows_divide _ h).bind fun _ _ h => (follows_pick builder hs h.1 _).bind fun _ _ hargs =>
    .pure ⟨hargs, h.2⟩

/-! ### Statements and closures -/

theorem follows_chainStmt {receiver : String} (base base' : Option String) (hr : P.Name receiver)
    (h : P.Calls F calls calls') :
    Follows F P.Value (w.chainStmt ⟨receiver, base, calls⟩) (w'.chainStmt ⟨receiver, base', calls'⟩) :=
  (Follows.mapM h fun _ _ => follows_dotCall).bind fun _ _ h => .pure (P.chain hr h)

theorem follows_prelude {s s' : Prelude Ready} (h : P.Statement F s s') :
    Follows F P.Arg (w.prelude s) (w'.prelude s') := by
  cases h with
  | @verbatim s s' h =>
    refine Follows.get.bind fun d d' hd => ?_
    have hshown := h.2 d.ctxt d'.ctxt hd
    generalize w.resolve? s d.ctxt = a at hshown
    generalize w'.resolve? s' d'.ctxt = b at hshown
    cases hshown with
    | text h => exact .pure h
    | missing _ hp => exact (Follows.note _ h.1).bind fun _ _ _ => .pure hp
  | assignment hr h => exact (follows_chainStmt _ _ hr h).imp fun _ _ => P.value

theorem follows_general (h : P.Closures F (fun _ => false) c c') :
    Follows F P.Value (w.general c) (w'.general c') := by
  have hcalls := h.flat.calls
  obtain ⟨builder, binding, stmts, chain, span⟩ := c
  obtain ⟨builder', binding', stmts', chain', span'⟩ := c'
  obtain ⟨rfl, rfl, hbuilder, hbinding, hspan, hstmts, -⟩ := h
  refine (follows_splitRequired builder hspan hcalls).bind fun p q h => ?_
  have hhead := P.construct hbuilder h.1
  cases hstmts with
  | nil => exact (follows_setters h.2).bind fun _ _ hs => .pure (P.set hhead hs)
  | cons hstmt hstmts =>
    exact (Follows.mapM (.cons hstmt hstmts) fun _ _ => follows_prelude).bind fun _ _ hlines =>
      (follows_setters h.2).bind fun _ _ hs => .pure (P.block hbinding hhead hlines hs)

/-! ### Shapes -/

theorem follows_refuseStmts (h : Heads F c c') :
    Follows F (fun _ _ => True) (Workshop.refuseStmts c) (Workshop.refuseStmts c') := by
  rw [Workshop.refuseStmts, Workshop.refuseStmts, h.builder, h.isEmpty]
  exact .ite (.pure trivial) (.refuse _ h.span)

/-- Closures that are given, each with its own rewrite. -/
theorem follows_closureArg {s s' : Span} (hs : F.span s s') (h : P.MethodCall F call call') :
    Follows F (fun p q => Follows F P.Value p.2 q.2) (Workshop.closureArg call s)
      (Workshop.closureArg call' s') := by
  have hrefuse (reason : String) : Follows F (fun p q => Follows F P.Value p.2 q.2)
      (refuse (α := ReadyClosure × Rewrite String) reason (some s))
      (refuse (α := ReadyClosure × Rewrite String) reason (some s')) := .refuse reason hs
  obtain ⟨-, h⟩ := h
  cases h with
  | nil => exact hrefuse _
  | cons harg hargs =>
    cases hargs with
    | cons => cases harg <;> exact hrefuse _
    | nil =>
      cases harg with
      | literal => exact hrefuse _
      | closure _ _ hr => exact .pure hr

/-- Closures that are given, to be taken into the text around them. -/
theorem follows_mergedArg {s s' : Span} (hs : F.span s s') (hf : call.field = call'.field)
    (h : List.Forall₂ (P.Merged F) call.args call'.args) :
    Follows F (fun p q => P.Flat F p.1 q.1) (Workshop.closureArg call s)
      (Workshop.closureArg call' s') := by
  obtain ⟨field, args⟩ := call
  obtain ⟨field', args'⟩ := call'
  obtain rfl : field = field' := hf
  have hrefuse (reason : String) : Follows F (fun p q => P.Flat F p.1 q.1)
      (refuse (α := ReadyClosure × Rewrite String) reason (some s))
      (refuse (α := ReadyClosure × Rewrite String) reason (some s')) := .refuse reason hs
  cases h with
  | nil => exact hrefuse _
  | cons harg hargs =>
    cases hargs with
    | cons => cases harg <;> exact hrefuse _
    | nil =>
      cases harg with
      | literal => exact hrefuse _
      | closure h => exact .pure h

theorem follows_literalArg {s s' : Span} (hs : F.span s s') (h : P.MethodCall F call call') :
    Follows F (P.Argument F) (Workshop.literalArg call s) (Workshop.literalArg call' s') := by
  have hrefuse (reason : String) : Follows F (P.Argument F) (refuse reason (some s))
      (refuse reason (some s')) := .refuse reason hs
  obtain ⟨-, h⟩ := h
  cases h with
  | nil => exact hrefuse _
  | cons harg hargs =>
    cases hargs with
    | cons => cases harg <;> exact hrefuse _
    | nil =>
      cases harg with
      | literal h => exact .pure (.literal h)
      | closure => exact hrefuse _

/-! ### Rows of components -/

structure Rows (P : Parallel w w') (row row' : Workshop.Row) : Prop where
  buttons : List.Forall₂ P.Arg row.buttons row'.buttons
  menu : Option.Rel P.Arg row.menu row'.menu

theorem follows_rowCall {s s' : Span} (hs : F.span s s') {row row' : Workshop.Row}
    (hrow : Rows P row row') (h : P.MethodCall F call call') :
    Follows F (Rows P) (w.rowCall s row call) (w'.rowCall s' row' call') := by
  have hclosure {next next' : String → Workshop.Row}
      (hnext : ∀ a b, P.Arg a b → Rows P (next a) (next' b)) : Follows F (Rows P)
        (do let p ← Workshop.closureArg call s; return next (← p.2))
        (do let p ← Workshop.closureArg call' s'; return next' (← p.2)) :=
    (follows_closureArg hs h).bind fun _ _ hp => hp.bind fun _ _ h =>
      .pure (hnext _ _ (P.value h))
  have hvalue {next next' : String → Workshop.Row}
      (hnext : ∀ a b, P.Arg a b → Rows P (next a) (next' b)) : Follows F (Rows P)
        (do let value ← Workshop.literalArg call s; return next (← w.arg value))
        (do let value ← Workshop.literalArg call' s'; return next' (← w'.arg value)) :=
    (follows_literalArg hs h).bind fun _ _ ha => (follows_arg ha).bind fun _ _ h =>
      .pure (hnext _ _ h)
  have hbutton (a b : String) (hab : P.Arg a b) : Rows P
      { row with buttons := row.buttons ++ [a] } { row' with buttons := row'.buttons ++ [b] } :=
    ⟨List.rel_append hrow.buttons (.cons hab .nil), hrow.menu⟩
  have hmenu (a b : String) (hab : P.Arg a b) : Rows P { row with menu := some a }
      { row' with menu := some b } := ⟨hrow.buttons, .some hab⟩
  rw [Workshop.rowCall, Workshop.rowCall, ← h.field]
  exact .ite (hclosure hbutton) (.ite (hvalue hbutton) (.ite (hclosure hmenu) (.ite (hvalue hmenu)
    (.ite (.refuse _ hs) (.refuse _ hs)))))

theorem follows_actionRow (h : P.Flat F c c') :
    Follows F P.Value (w.actionRow c) (w'.actionRow c') := by
  refine (follows_refuseStmts h.toHeads).bind fun _ _ _ => ?_
  refine (Follows.foldlM (S := Rows P) h.calls (fun _ _ _ _ => follows_rowCall h.span)
    ⟨.nil, .none⟩).bind fun row row' hrow => ?_
  obtain ⟨buttons, menu⟩ := row
  obtain ⟨buttons', menu'⟩ := row'
  obtain ⟨hbuttons, hmenu⟩ := hrow
  have hopen (opening : String) (ho : opening ∈ componentOpenings) {a b : String} (h : P.Arg a b) :
      P.Value (opening ++ a ++ ")") (opening ++ b ++ ")") := P.wrap ho h
  cases hbuttons with
  | nil =>
    cases hmenu with
    | none => exact .refuse _ h.span
    | some hmenu => exact .pure (hopen _ (by simp [componentOpenings]) hmenu)
  | cons hbutton hbuttons =>
    have hvector := hopen "CreateActionRow::Buttons(" (by simp [componentOpenings])
      (P.value (P.vector (.cons hbutton hbuttons)))
    cases hmenu with
    | none => exact .pure hvector
    | some => exact (Follows.note _ h.span).bind fun _ _ _ => .pure hvector

theorem follows_componentRow {s s' : Span} (hs : F.span s s')
    (h : P.Merging F (· = "create_action_row") call call') :
    Follows F P.Arg (w.componentRow s call) (w'.componentRow s' call') := by
  rw [Workshop.componentRow, Workshop.componentRow, ← h.field]
  split
  · next hf =>
    exact (follows_mergedArg hs h.field (h.merged (by simp [hf]))).bind fun _ _ hp =>
      (follows_actionRow hp).imp fun _ _ => P.value
  · exact .refuse _ hs

theorem follows_components (h : P.Closures F (· = "create_action_row") c c') :
    Follows F P.Value (w.components c) (w'.components c') := by
  refine (follows_refuseStmts h.heads).bind fun _ _ _ => ?_
  exact (Follows.mapM h.merging fun _ _ => follows_componentRow h.span).bind fun _ _ h =>
    .pure (P.vector h)

/-! ### Buttons and select menus -/

structure FieldsBeside (P : Parallel w w') (F : Frame) (p q : Workshop.Fields) : Prop where
  first : Option.Rel P.Arg p.first q.first
  second : Option.Rel P.Arg p.second q.second
  rest : P.Calls F p.rest q.rest

theorem FieldsBeside.append {p q : Workshop.Fields} (h : FieldsBeside P F p q)
    (hc : P.MethodCall F call call') :
    FieldsBeside P F { p with rest := p.rest ++ [call] } { q with rest := q.rest ++ [call'] } :=
  ⟨h.first, h.second, List.rel_append h.rest (.cons hc .nil)⟩

theorem follows_buttonCall {p q : Workshop.Fields} (h : FieldsBeside P F p q)
    (hc : P.MethodCall F call call') :
    Follows F (FieldsBeside P F) (w.buttonCall p call) (w'.buttonCall q call') := by
  rw [Workshop.buttonCall, Workshop.buttonCall, ← hc.field]
  refine .ite ?_ (.ite ?_ (.pure (h.append hc)))
  · exact (follows_argList hc.args).bind fun _ _ ha => .pure ⟨.some ha, h.second, h.rest⟩
  · exact (follows_argList hc.args).bind fun _ _ ha => .pure ⟨h.first, .some ha, h.rest⟩

theorem follows_settersBehind {head head' : String} (hhead : P.Value head head')
    (h : P.Calls F calls calls') :
    Follows F P.Value (do return head ++ (← w.setters calls))
      (do return head' ++ (← w'.setters calls')) :=
  (follows_setters h).bind fun _ _ hs => .pure (P.set hhead hs)

theorem follows_button (h : P.Flat F c c') : Follows F P.Value (w.button c) (w'.button c') := by
  refine (follows_refuseStmts h.toHeads).bind fun _ _ _ => ?_
  refine (Follows.foldlM h.calls (fun _ _ _ _ => follows_buttonCall) ⟨.none, .none, .nil⟩).bind ?_
  rintro ⟨first, second, rest⟩ ⟨first', second', rest'⟩ ⟨hfirst, hsecond, hrest⟩
  have hlink {url url' : String} (hurl : P.Arg url url') := follows_settersBehind
    (P.wrap (show "CreateButton::new_link(" ∈ componentOpenings by simp [componentOpenings]) hurl)
    hrest
  have hbutton {ids ids' : List String} (hids : List.Forall₂ P.Arg ids ids') := follows_settersBehind
    (P.construct (P.name "CreateButton" (by simp [writtenBuilders])) hids) hrest
  cases hfirst with
  | some hurl =>
    cases hsecond with
    | none => exact hlink hurl
    | some => exact (Follows.note _ h.span).bind fun _ _ _ => hlink hurl
  | none =>
    cases hsecond with
    | none => exact (Follows.note _ h.span).bind fun _ _ _ => hbutton .nil
    | some hid => exact hbutton (.cons hid .nil)

theorem follows_menuOption {s s' : Span} (hs : F.span s s') (h : P.MethodCall F call call') :
    Follows F P.Arg (w.menuOption s call) (w'.menuOption s' call') := by
  rw [Workshop.menuOption, Workshop.menuOption, ← h.field]
  refine .ite ?_ (.ite ?_ (.refuse _ hs))
  · exact (follows_closureArg hs h).bind fun _ _ hp => hp.imp fun _ _ => P.value
  · exact (follows_literalArg hs h).bind fun _ _ => follows_arg

theorem follows_menuOptions {s s' : Span} (hs : F.span s s') (hf : call.field = call'.field)
    (h : List.Forall₂ (P.Merged F) call.args call'.args) :
    Follows F P.Arg (w.menuOptions s call) (w'.menuOptions s' call') :=
  (follows_mergedArg hs hf h).bind fun _ _ hp => (follows_refuseStmts hp.toHeads).bind fun _ _ _ =>
    (Follows.mapM hp.calls fun _ _ => follows_menuOption hp.span).bind fun _ _ h =>
      .pure (P.value (P.vector h))

theorem follows_menuCall {s s' : Span} (hs : F.span s s') {p q : Workshop.Fields}
    (h : FieldsBeside P F p q) (hc : P.Merging F (· = "options") call call') :
    Follows F (FieldsBeside P F) (w.menuCall s p call) (w'.menuCall s' q call') := by
  rw [Workshop.menuCall, Workshop.menuCall, ← hc.field]
  split
  · next hf =>
    have hargs := (hc.alone (by simp [hf])).args
    exact (follows_argList hargs).bind fun _ _ ha => .pure ⟨.some ha, h.second, h.rest⟩
  · split
    · next hf =>
      exact (follows_menuOptions hs hc.field (hc.merged (by simp [hf]))).bind fun _ _ ho =>
        .pure ⟨h.first, .some ho, h.rest⟩
    · next hf => exact .pure (h.append (hc.alone (by simp [hf])))

theorem follows_selectMenu (h : P.Closures F (· = "options") c c') :
    Follows F P.Value (w.selectMenu c) (w'.selectMenu c') := by
  refine (follows_refuseStmts h.heads).bind fun _ _ _ => ?_
  refine (Follows.foldlM h.merging (fun _ _ _ _ => follows_menuCall h.span)
    ⟨.none, .none, .nil⟩).bind ?_
  rintro ⟨first, second, rest⟩ ⟨first', second', rest'⟩ ⟨hfirst, hsecond, hrest⟩
  have hmenu {ids ids' : List String} {options options' : String} (hids : List.Forall₂ P.Arg ids ids')
      (ho : P.Arg options options') := follows_settersBehind
    (P.construct (P.name "CreateSelectMenu" (by simp [writtenBuilders]))
      (List.rel_append hids (.cons (P.menuKind ho) .nil))) hrest
  cases hfirst with
  | none =>
    refine (Follows.note _ h.span).bind fun _ _ _ => ?_
    cases hsecond with
    | none => exact (Follows.note _ h.span).bind fun _ _ _ => hmenu .nil (P.value (P.vector .nil))
    | some ho => exact hmenu .nil ho
  | some hid =>
    cases hsecond with
    | none => exact (Follows.note _ h.span).bind fun _ _ _ => hmenu (.cons hid .nil) (P.value (P.vector .nil))
    | some ho => exact hmenu (.cons hid .nil) ho

/-! ### Responses -/

/-- The first call of a kind, and its partner. -/
theorem find?_beside (h : List.Forall₂ (P.Merging F merges) calls calls') (p : String → Bool) :
    Option.Rel (P.Merging F merges) (calls.find? fun call => p call.field)
      (calls'.find? fun call => p call.field) := by
  induction h with
  | nil => exact .none
  | @cons call call' calls calls' hcall _ ih =>
    rw [List.find?_cons, List.find?_cons, ← hcall.field]
    cases p call.field with
    | true => exact .some hcall
    | false => exact ih

theorem ofChain_eq (h : P.Closures F (· = "interaction_response_data") c c') :
    ResponseVariant.ofChain c.chain = ResponseVariant.ofChain c'.chain := by
  have hkind := find?_beside h.merging (· = "kind")
  suffices h : ResponseVariant.tag? c.chain = ResponseVariant.tag? c'.chain by
    rw [ResponseVariant.ofChain, h, ResponseVariant.ofChain]
  rw [ResponseVariant.tag?, ResponseVariant.tag?, Chain.find?, Chain.find?]
  generalize hcall : c.chain.calls.find? _ = call at hkind ⊢
  generalize c'.chain.calls.find? _ = call' at hkind ⊢
  cases hkind with
  | none => rfl
  | some hmerging =>
    have hfield := List.find?_some hcall
    obtain ⟨-, hargs⟩ := hmerging.alone (by simp_all)
    cases hargs with
    | nil => rfl
    | cons harg hargs =>
      cases harg with
      | closure => cases hargs <;> rfl
      | @literal _ _ path => cases hargs <;> cases path <;> rfl

theorem follows_responseData (h : P.Closures F (· = "interaction_response_data") c c') :
    Follows F (P.Calls F) (Workshop.responseData c) (Workshop.responseData c') := by
  have hdata := find?_beside h.merging (· = "interaction_response_data")
  rw [Workshop.responseData, Workshop.responseData, Chain.find?, Chain.find?]
  generalize hcall : c.chain.calls.find? _ = call at hdata ⊢
  generalize c'.chain.calls.find? _ = call' at hdata ⊢
  cases hdata with
  | none => exact .pure .nil
  | some hmerging =>
    have hfield := List.find?_some hcall
    exact (follows_mergedArg h.span hmerging.field (hmerging.merged hfield)).bind
      fun _ _ hp => (follows_refuseStmts hp.toHeads).bind fun _ _ _ => .pure hp.calls

theorem follows_refuseOtherCalls (h : P.Closures F merges c c') :
    Follows F (fun _ _ => True) (Workshop.refuseOtherCalls c) (Workshop.refuseOtherCalls c') := by
  have hother := find?_beside h.merging fun field =>
    field ≠ "kind" ∧ field ≠ "interaction_response_data"
  rw [Workshop.refuseOtherCalls, Workshop.refuseOtherCalls]
  generalize List.find? _ _ = call at *
  generalize List.find? _ _ = call' at *
  cases hother with
  | none => exact .pure trivial
  | some hcall =>
    dsimp only
    rw [hcall.field]
    exact .refuse _ h.span

theorem follows_response (h : P.Closures F (· = "interaction_response_data") c c') :
    Follows F P.Value (w.response c) (w'.response c') := by
  refine (follows_refuseStmts h.heads).bind fun _ _ _ =>
    (follows_refuseOtherCalls h).bind fun _ _ _ => ?_
  rw [ofChain_eq h]
  refine (follows_responseData h).bind fun calls calls' hcalls => ?_
  have hvariant := ResponseVariant.ofChain_mem c'.chain
  generalize ResponseVariant.ofChain c'.chain = variant at hvariant ⊢
  have hname := P.variant hvariant
  have hresponse {a b s t : String} := P.response (a := a) (b := b) (s := s) (t := t) hvariant
  have hbuilder : ∀ payload, variant.payload = some payload → P.Name payload := fun payload hp =>
    P.name payload (List.mem_append_right _ (List.mem_filterMap.2 ⟨variant, hvariant, hp⟩))
  rcases variant with ⟨name, _ | payload⟩
  · cases hcalls with
    | nil => exact .pure hname
    | cons => exact (Follows.note _ h.span).bind fun _ _ _ => .pure hname
  · refine (follows_splitRequired payload h.span hcalls).bind fun p q hpq => ?_
    exact (follows_setters hpq.2).bind fun _ _ hs =>
      .pure (hresponse (P.construct (hbuilder payload rfl) hpq.1) hs)

end Parallel

/-! ### Rules -/

/-- The calls whose closures a rule takes into the text that it writes. -/
def Rule.merges : Rule → String → Bool
  | .components => (· = "create_action_row")
  | .selectMenu => (· = "options")
  | .response => (· = "interaction_response_data")
  | .actionRow | .button | .fixed _ => fun _ => false

/-- The calls whose closures the text for a builder takes in. -/
def Rules.merges (rules : Rules) (builder : String) : String → Bool :=
  match rules.find? builder with
  | some rule => rule.merges
  | none => fun _ => false

namespace Parallel

variable {w w' : Workshop} {P : Parallel w w'} {F : Frame} {c c' : ReadyClosure}

theorem follows_apply (rule : Rule) (hfixed : ∀ text, rule = .fixed text → P.Value text text)
    (h : P.Closures F rule.merges c c') : Follows F P.Value (rule.apply w c) (rule.apply w' c') := by
  cases rule with
  | components => exact follows_components h
  | actionRow => exact follows_actionRow h.flat
  | button => exact follows_button h.flat
  | selectMenu => exact follows_selectMenu h
  | response => exact follows_response h
  | fixed text => exact .pure (hfixed text rfl)

/-- Closures in parallel are rewritten to texts in parallel. -/
theorem follows_closure {K : Int → Int → Prop} (rules : Rules)
    (hfixed : ∀ builder text, rules.find? builder = some (.fixed text) → P.Value text text)
    (hK : K c.span.ctxt c'.span.ctxt)
    (h : P.Closures (F.from K) (rules.merges c.builder) c c') :
    Follows F P.Value (w.closure rules c) (w'.closure rules c') := by
  rw [Workshop.closure, Workshop.closure]
  refine .within hK (Follows.consult.bind fun _ _ _ => ?_)
  rw [← h.builder]
  unfold Rules.merges at h
  cases hrule : rules.find? c.builder with
  | some rule =>
    rw [hrule] at h
    exact follows_apply rule (fun text ht => hfixed c.builder text (ht ▸ hrule)) h
  | none =>
    rw [hrule] at h
    exact follows_general h

end Parallel

end BuilderMigration
