import BuilderMigration.Proofs.Idiom.Lifts
import BuilderMigration.Proofs.Migration.Walk
import BuilderMigration.Proofs.Rewrite.General
import BuilderMigration.Proofs.Typing.BuilderNames

/-! What the chain at the end of a closure is applied to. The source may end in a chain on any builder
in view; the general form writes the closure's own binding there, or the constructor in its place. -/

namespace BuilderMigration

open Rewrite

variable {settings : Settings} {N : String → Prop} {Q : Ty → Prop}

/-- The name that a closure ends in: the one that the chain at its end is made on, or the name alone. -/
def Expr.endName? : Expr → Option String
  | .closure _ _ body _ => body.opened.2.chainName?.or body.opened.2.name?
  | _ => none

/-- It is the receiver of the chain that recognition finds. -/
theorem endName?_of_builderClosure? {e : Expr} {c : BuilderClosure}
    (h : builderClosure? settings e = some c) : e.endName? = some c.chain.receiver := by
  obtain ⟨p, body, captures, rfl, -, hchain, -⟩ := builderClosure?_eq_some_iff.1 h
  rw [Expr.endName?]
  rcases closureTail?_eq_some_iff.1 hchain with hchain | ⟨hname, hc⟩
  · obtain ⟨base, hbase, hbegins, -⟩ := chain?_eq_some_iff.1 hchain
    rw [Expr.chainName?, hbase, Option.bind_some, hbegins.1, Option.some_or]
  · rw [Expr.chainName?, Expr.base?_of_name? hname, hname, hc]
    rfl

/-! ### Names of a file -/

theorem Expr.Named.base {e base : Expr} (h : e.Named N Q) (hbase : e.base? = some base) :
    base.Named N Q := by
  induction e using Expr.base?.induct with
  | case1 span ty receiver method args ih =>
    rw [Expr.Named] at h
    rcases Option.or_eq_some_iff.1 hbase with hbase | ⟨-, hbase⟩
    · exact ih h.2.1 hbase
    · cases hbase
      exact h.2.1
  | case2 e he =>
    cases e with
    | methodCall span ty receiver method args => exact (he span ty receiver method args rfl).elim
    | _ => cases hbase

theorem Expr.Named.endName? {e : Expr} {name : String} (h : e.Named N Q)
    (hname : e.endName? = some name) : N name := by
  cases e with
  | closure span params body captures =>
    rw [Expr.Named] at h
    have hend := h.2.opened.2
    rcases Option.or_eq_some_iff.1 hname with hname | ⟨-, hname⟩
    · obtain ⟨base, hbase, hname⟩ := Option.bind_eq_some_iff.1 hname
      exact (hend.base hbase).name? hname
    · exact hend.name? hname
  | _ => cases hname

/-! ### Last lines -/

/-- What stands behind the last newline of a text, save what is known to be the same behind it. -/
theorem eq_of_lastLine {a b x y s : String} (hx : IsWord x) (hy : IsWord y)
    (h : a ++ "\n" ++ (x ++ s) ++ "\n\x7d" = b ++ "\n" ++ (y ++ s) ++ "\n\x7d") : x = y := by
  have hline {a x : String} (hx : IsWord x) :
      (a ++ "\n" ++ x).toList.reverse.takeWhile (· ≠ '\n') = x.toList.reverse := by
    have hword : ∀ c ∈ x.toList.reverse, (decide (c ≠ '\n')) = true := fun c hc => by
      have hchar := hx.isNameChar c (List.mem_reverse.1 hc)
      rw [decide_eq_true_eq]
      rintro rfl
      exact absurd hchar (by decide)
    rw [String.toList_append, List.reverse_append, List.takeWhile_append_of_pos hword]
    simp
  have hlines : a ++ "\n" ++ x = b ++ "\n" ++ y := by
    simpa only [← String.append_assoc, String.append_left_inj] using h
  rw [← String.toList_inj, ← List.reverse_inj, ← hline hx (a := a), hlines, hline hy]

/-! ### The object of a chain -/

/-- The text of a closure applies the chain that the closure ends in to what the source applies it to.
Without statements this has to be the closure's own binding, for which the constructor stands. With
statements it is what the last expression of the block begins with. -/
structure Workshop.KeepsObject (w : Workshop) (rules : Rules) (e : Expr) (c : BuilderClosure)
    (text : String) : Prop where
  flat (hs : c.stmts = []) : e.endName? = some c.binding ∧
    ∃ args, text = c.builder ++ "::new(" ++ args ++ ")" ++ w.settersText rules c.span.ctxt c
  block (hs : c.stmts ≠ []) : ∃ name front, e.endName? = some name ∧
    text = front ++ "\n" ++ (name ++ w.settersText rules c.span.ctxt c) ++ "\n\x7d"

variable {w : Workshop} {rules : Rules} {code path text : String} {m : Module} {e : Expr}
  {c : BuilderClosure}

/-- The binding of a recognised closure is a name of its tree. -/
theorem Expr.Named.binding (h : e.Named N Q) (hself : N "self")
    (hc : builderClosure? settings e = some c) : N c.binding := by
  obtain ⟨p, body, captures, rfl, hp, -⟩ := builderClosure?_eq_some_iff.1 hc
  rw [Expr.Named] at h
  have hpattern := (h.1 p (List.mem_singleton_self p)).pattern
  cases hp with
  | mk => exact hpattern.elim id fun h => h ▸ hself

/-- A block ends in the closure's own binding. -/
theorem Workshop.general_lastLine (w : Workshop) (rules : Rules) {c : BuilderClosure} (k : Int)
    (hs : c.stmts ≠ []) : ∃ front notes, ComesTo k (w.general (w.readyClosure rules c))
      (.ok (front ++ "\n" ++ (c.binding ++ w.settersText rules k c) ++ "\n\x7d")) notes := by
  have hlast (line : String) : String.intercalate "\n" [line, "\x7d"] = line ++ "\n\x7d" := by
    rw [String.intercalate_cons_cons, String.intercalate_singleton, String.append_assoc]
    rfl
  have hblock := comesTo_general_block (k := k) hs w rules
  rw [String.intercalate_append_of_ne_nil (by simp) (by simp), hlast, ← String.append_assoc] at hblock
  exact ⟨_, _, hblock⟩

/-- A closure whose builder has no rule comes to what its general form comes to. -/
theorem Workshop.eq_of_rewriteClosure {d d' : Draft} {s : String} {ns : List Note}
    (hrun : w.rewriteClosure rules c d = (.ok text, d')) (hrule : rules.find? c.builder = none)
    (h : ComesTo c.span.ctxt (w.general (w.readyClosure rules c)) (.ok s) ns) : text = s := by
  obtain ⟨_, hs⟩ := comesTo_rewriteClosure hrule h d rfl
  rw [hrun] at hs
  exact Except.ok.inj (Prod.mk.inj hs).1

/-- The object is kept only where the source has the closure's own binding. -/
theorem Workshop.KeepsObject.endName? (h : w.KeepsObject rules e c text) (hnamed : e.Named IsWord Q)
    (hc : builderClosure? w.settings e = some c) (hrule : rules.find? c.builder = none)
    {d d' : Draft} (hrun : w.rewriteClosure rules c d = (.ok text, d')) :
    e.endName? = some c.binding := by
  by_cases hs : c.stmts = []
  · exact (h.flat hs).1
  · obtain ⟨front, notes, hblock⟩ := w.general_lastLine rules c.span.ctxt hs
    obtain ⟨name, front', hname, htext⟩ := h.block hs
    have hsame := htext.symm.trans (eq_of_rewriteClosure hrun hrule hblock)
    have hbinding : IsWord c.binding := hnamed.binding (by decide) hc
    rw [hname, eq_of_lastLine (hnamed.endName? hname) hbinding hsame]

/-- The chain at the end of a closure keeps its object just if the source makes it on the closure's own
binding. -/
theorem Workshop.keepsObject_iff (hread : readModule code 1 path = .ok m)
    (he : .expr e ∈ (m.resolved w.settings).tree.preorder)
    (hc : builderClosure? w.settings e = some c) (hrule : rules.find? c.builder = none)
    {d d' : Draft} (hrun : w.rewriteClosure rules c d = (.ok text, d')) :
    w.KeepsObject rules e c text ↔ e.endName? = some c.binding := by
  constructor
  · intro h
    exact h.endName? (Module.resolved_words hread w.settings _ he) hc hrule hrun
  · intro hname
    constructor
    · intro hs
      have htext := eq_of_rewriteClosure hrun hrule (comesTo_general_flat hs w rules)
      exact ⟨hname, _, htext⟩
    · intro hs
      obtain ⟨front, notes, hblock⟩ := w.general_lastLine rules c.span.ctxt hs
      exact ⟨c.binding, front, hname, eq_of_rewriteClosure hrun hrule hblock⟩

/-! ### Closures with statements -/

/-- How a recognised closure ends: the name that its source ends in, its binding, whether it has
statements and its builder a rule, and what it is rewritten to, with the notes on it. -/
structure Ending where
  name : Option String
  binding : String
  block : Bool
  ruled : Bool
  text : Option String
  notes : List Note
  deriving DecidableEq

/-- The end of the closure that a node is. -/
def Node.ending? (w : Workshop) : Node → Option Ending
  | .expr e => (builderClosure? w.settings e).map fun c =>
    let (result, d) := w.rewriteClosure {} c {}
    { name := e.endName?, binding := c.binding, block := !c.stmts.isEmpty
      ruled := (Rules.find? {} c.builder).isSome, text := result.toOption, notes := d.notes }
  | .stmt _ | .item _ | .module _ => none

theorem exists_ending {code name binding text : String} {w : Workshop}
    (h : ((readModule code 1 noFile).toOption.bind fun m =>
      (m.resolved w.settings).tree.preorder.findSome? (Node.ending? w)) =
        some ⟨some name, binding, true, false, some text, []⟩) :
    ∃ m e c d, readModule code 1 noFile = .ok m ∧
      .expr e ∈ (m.resolved w.settings).tree.preorder ∧ builderClosure? w.settings e = some c ∧
      c.stmts ≠ [] ∧ Rules.find? {} c.builder = none ∧
      w.rewriteClosure {} c {} = (.ok text, d) ∧ d.notes = [] ∧
      e.endName? = some name ∧ c.binding = binding := by
  obtain ⟨m, hread, x, hx, hending⟩ := exists_node h
  cases x with
  | expr e =>
    obtain ⟨c, hc, hall⟩ := Option.map_eq_some_iff.1 hending
    generalize hrun : w.rewriteClosure {} c {} = run at hall
    obtain ⟨result, d⟩ := run
    simp only [Ending.mk.injEq, Option.isSome_eq_false_iff, Option.isNone_iff_eq_none] at hall
    obtain ⟨hname, hbinding, hs, hrule, htext, hnotes⟩ := hall
    cases result with
    | error v => cases htext
    | ok text' =>
      obtain rfl := Option.some.inj htext
      have hstmts : c.stmts ≠ [] := by simpa using hs
      exact ⟨m, e, c, d, hread, hx, hc, hstmts, hrule, hrun, hnotes, hname, hbinding⟩
  | _ => cases hending

/-- A closure that goes on from a setter under a name of its own. -/
def handedOnCode : String :=
  "use serenity::builder::CreateMessage; " ++
    "fn f() \x7b g(|m: &mut CreateMessage| \x7b let e = m.content(1); e.nonce(2) \x7d); \x7d"

/-- The chain on that name is written on the closure's binding, without a note. -/
theorem not_keepsObject :
    let w := (Plan.alone {} {} noFile handedOnCode).workshop
    ∃ m e c d, readModule handedOnCode 1 noFile = .ok m ∧
      .expr e ∈ (m.resolved w.settings).tree.preorder ∧ builderClosure? w.settings e = some c ∧
      Rules.find? {} c.builder = none ∧
      w.rewriteClosure {} c {} = (.ok
        "\x7b\nlet mut m = CreateMessage::new();\nlet e = m.content(1);\nm.nonce(2)\n\x7d", d) ∧
      d.notes = [] ∧ e.endName? = some "e" ∧
      ¬ w.KeepsObject {} e c
        "\x7b\nlet mut m = CreateMessage::new();\nlet e = m.content(1);\nm.nonce(2)\n\x7d" := by
  intro w
  have hlook : ((readModule handedOnCode 1 noFile).toOption.bind fun m =>
      (m.resolved w.settings).tree.preorder.findSome? (Node.ending? w)) =
        some ⟨some "e", "m", true, false, some
          "\x7b\nlet mut m = CreateMessage::new();\nlet e = m.content(1);\nm.nonce(2)\n\x7d", []⟩ := by
    decide +kernel
  obtain ⟨m, e, c, d, hread, he, hc, -, hrule, hrun, hnotes, hname, hbinding⟩ := exists_ending hlook
  refine ⟨m, e, c, d, hread, he, hc, hrule, hrun, hnotes, hname, fun h => ?_⟩
  have hsame := h.endName? (Module.resolved_words hread w.settings _ he) hc hrule hrun
  rw [hname, hbinding] at hsame
  exact absurd hsame (by decide)

/-- A closure with a chain on its binding in front of the one that it ends in. -/
def ownChainCode : String :=
  "use serenity::builder::CreateMessage; " ++
    "fn f() \x7b g(|m: &mut CreateMessage| \x7b m.content(1); m.nonce(2) \x7d); \x7d"

theorem keepsObject_iff_ownChain :
    let w := (Plan.alone {} {} noFile ownChainCode).workshop
    let text := "\x7b\nlet mut m = CreateMessage::new();\nm = m.content(1);\nm.nonce(2)\n\x7d"
    ∃ m e c d, readModule ownChainCode 1 noFile = .ok m ∧
      .expr e ∈ (m.resolved w.settings).tree.preorder ∧ builderClosure? w.settings e = some c ∧
      Rules.find? {} c.builder = none ∧ w.rewriteClosure {} c {} = (.ok text, d) ∧ d.notes = [] ∧
      c.stmts ≠ [] ∧ w.KeepsObject {} e c text := by
  intro w text
  have hlook : ((readModule ownChainCode 1 noFile).toOption.bind fun m =>
      (m.resolved w.settings).tree.preorder.findSome? (Node.ending? w)) =
        some ⟨some "m", "m", true, false, some text, []⟩ := by
    decide +kernel
  obtain ⟨m, e, c, d, hread, he, hc, hs, hrule, hrun, hnotes, hname, hbinding⟩ := exists_ending hlook
  refine ⟨m, e, c, d, hread, he, hc, hrule, hrun, hnotes, hs, ?_⟩
  exact (Workshop.keepsObject_iff hread he hc hrule hrun).2 (by rw [hname, hbinding])

end BuilderMigration
