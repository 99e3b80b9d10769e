import BuilderMigration.Proofs.Migration.Snippets
import BuilderMigration.Proofs.Migration.Tail
import BuilderMigration.Proofs.Origin.Typing
import BuilderMigration.Proofs.Rewrite.Kept

/-! The statements of a closure in the text that it becomes: each has a line of its own, in the order of
the source. A chain on the binding is written anew. Of any other statement the text behind its span is
copied, which leaves out the attributes in front of it and the generic arguments behind a field at its
end. -/

namespace BuilderMigration

open Rewrite

variable {settings : Settings} {rules : Rules} {k : Int} {code path text binding : String} {m : Module}
  {ts us ws : List Token} {s : Stmt} {p : Piece} {c : BuilderClosure}

/-! ### Copied statements -/

/-- The text behind a span has the tokens of the statement that stands there. It is the whole statement,
with its attributes, only where nothing stands beside its own tokens. -/
theorem Piece.Of.exists_line {s : Span} (hp : p.Of s) (path : String) (hs : s.Within code.length)
    (hts : tokensOf code 1 = .ok (us ++ (p.own ++ ws))) : ∃ line,
      (SourceMap.read {} path code).2.snippet? s = some line ∧ Text.trim line = line ∧
        (LineHas line (p.attributes ++ (p.own ++ p.trail)) ↔ p.attributes = [] ∧ p.trail = []) := by
  obtain ⟨text, back, hsnippet, htrim, hhi, hlex⟩ :=
    SourceMap.snippet_lexes path hts hs hp.begins hp.ends
  have hend : p.own.getLast?.map (·.hi) = some (s.lo + text.length) := hhi ▸ hp.ends
  refine ⟨_, hsnippet, htrim, fun hline => ?_, fun ⟨hattributes, htrail⟩ => ?_⟩
  · have hle := hline.length_le hlex hend
    rw [List.length_append, List.length_append] at hle
    exact ⟨List.eq_nil_of_length_eq_zero (by omega), List.eq_nil_of_length_eq_zero (by omega)⟩
  · have hdot := hp.not_dot
    rw [htrail, List.append_nil] at hdot
    rw [hattributes, htrail, List.nil_append, List.append_nil]
    exact hlex.lineHas hend hdot

namespace Workshop

variable {w : Workshop}

/-! ### Lines -/

/-- The line that is written for a statement of a closure. -/
def lineFor (w : Workshop) (rules : Rules) (k : Int) (binding : String) (s : Stmt) : String :=
  w.lineOf k (w.readyPrelude rules (preludeOf w.settings binding s))

theorem lineOf_verbatim {s : Span} (h : w.resolve? s k = some text) :
    w.lineOf k (.verbatim s) = Text.trim text := by
  have hcomes : ComesTo k (w.prelude (.verbatim s)) (.ok (Text.trim text)) [] :=
    .get fun d hd => by rw [hd, h]; exact .pure _
  exact hcomes.value_eq

/-- A chain on the binding is assigned to it. -/
theorem lineFor_of_chain {chain : BuilderChain} (h : stmtChain? w.settings true s = some chain)
    (hr : chain.receiver = binding) : w.lineFor rules k binding s =
      binding ++ " = " ++ binding ++ String.join (chain.calls.map (w.callText rules k)) ++ ";" := by
  subst hr
  have hprelude : preludeOf w.settings chain.receiver s = .assignment chain s.span := by
    rw [preludeOf, h]
    exact if_pos rfl
  rw [lineFor, hprelude]
  exact (comesTo_rewriteChain w rules k chain).value_eq

/-- Of any other statement the text is copied. -/
theorem lineFor_of_not_assigns (h : ¬ s.Assigns w.settings binding)
    (htext : w.resolve? s.span k = some text) : w.lineFor rules k binding s = Text.trim text := by
  have hprelude : preludeOf w.settings binding s = .verbatim s.span := by
    unfold preludeOf
    split
    · next chain hchain => exact if_neg fun hr => h (Stmt.assigns_iff.2 ⟨chain, hchain, hr⟩)
    · rfl
  rw [lineFor, hprelude]
  exact lineOf_verbatim htext

/-! ### Replayed statements -/

/-- A statement is replayed: a chain on the binding is assigned to it, and of any other statement the
line has the tokens of the source, with the attributes of the statement. -/
structure Replays (w : Workshop) (rules : Rules) (k : Int) (binding : String) (s : Stmt) (p : Piece)
    (line : String) : Prop where
  chain (c : BuilderChain) (hc : stmtChain? w.settings true s = some c) (hr : c.receiver = binding) :
    line = binding ++ " = " ++ binding ++ String.join (c.calls.map (w.callText rules k)) ++ ";"
  other (h : ¬ s.Assigns w.settings binding) : LineHas line (p.attributes ++ (p.own ++ p.trail))

/-- The text of a closure replays its statements, which are read from some pieces: they have their lines
between the one that binds the builder and the one that the block ends in. -/
structure ReplaysAll (w : Workshop) (rules : Rules) (c : BuilderClosure) (stmts : List Stmt)
    (pieces : List Piece) (text : String) : Prop where
  block (h : stmts ≠ []) : text = String.intercalate "\n"
    (["\x7b", "let mut " ++ c.binding ++ " = " ++
      construct c.builder (w.constructorArgs rules c.span.ctxt c) ++ ";"] ++
        stmts.map (w.lineFor rules c.span.ctxt c.binding) ++
          [c.binding ++ w.settersText rules c.span.ctxt c, "\x7d"])
  each (x : Stmt × Piece) (hx : x ∈ stmts.zip pieces) : w.Replays rules c.span.ctxt c.binding x.1 x.2
    (w.lineFor rules c.span.ctxt c.binding x.1)

theorem replays_iff (settings : Settings) (rules : Rules) (k : Int) (binding path : String)
    (hs : s.span.Within code.length) (hts : tokensOf code 1 = .ok (us ++ (p.own ++ ws))) (hp : p.Of s.span) :
    let w := (Plan.alone settings rules path code).workshop
    w.Replays rules k binding s p (w.lineFor rules k binding s) ↔
      (¬ s.Assigns settings binding → p.attributes = [] ∧ p.trail = []) := by
  intro w
  obtain ⟨line, hsnippet, htrim, hiff⟩ := hp.exists_line path hs hts
  have hresolve : w.resolve? s.span k = some line := by
    rw [resolve?, Expansions.walk_of_written _ hs.written]
    exact hsnippet
  have hline (h : ¬ s.Assigns settings binding) : w.lineFor rules k binding s = line :=
    (lineFor_of_not_assigns h hresolve).trans htrim
  constructor
  · intro h hother
    exact hiff.1 (hline hother ▸ h.other hother)
  · intro h
    refine ⟨fun chain hc hr => lineFor_of_chain hc hr, fun hother => ?_⟩
    rw [hline hother]
    exact hiff.2 (h hother)

end Workshop

/-! ### Blocks -/

/-- The statements of a block. -/
def Block.stmts : Block → List Stmt
  | .mk _ _ stmts _ => stmts

variable {b : Block} {pieces : List Piece} {span : Span} {params : List Param} {captures : Bool}

/-- Each statement of a block has its own tokens among those that the block is read from. -/
theorem Block.StandsIn.exists_own (h : b.StandsIn ts pieces) :
    ∀ x ∈ b.stmts.zip pieces, x.2.Of x.1.span ∧ ∃ us ws, ts = us ++ (x.2.own ++ ws) := by
  obtain ⟨_, _, stmts, _⟩ := b
  obtain ⟨before, opening, rest, closing, after, rfl, -, -, -, hpieces⟩ := h
  have hzip := List.forall₂_iff_zip.1 (List.forall₂_map_right_iff.1 hpieces).flip
  rintro ⟨s, p⟩ hx
  obtain ⟨front, back, hsplit⟩ := List.append_of_mem (List.of_mem_zip hx).2
  refine ⟨hzip.2 hx, before ++ opening :: (front.flatMap Piece.tokens ++ Lead.allTokens p.leads),
    p.trail ++ (back.flatMap Piece.tokens ++ (rest ++ closing :: after)), ?_⟩
  simp only [hsplit, List.flatMap_append, List.flatMap_cons, Piece.tokens, List.append_assoc,
    List.cons_append]

theorem Block.mem_preorder_stmt (hs : s ∈ b.stmts) :
    .stmt s ∈ (Node.expr (.closure span params (.block b) captures)).tree.preorder := by
  obtain ⟨_, _, stmts, tail⟩ := b
  refine Node.mem_preorder_of_child (List.mem_singleton_self _) ?_
  refine Node.mem_preorder_of_child ?_ (Node.mem_preorder_self _)
  exact List.mem_append_left _ (List.mem_map_of_mem hs)

/-- A recognised closure has a line for each statement of its block. -/
theorem stmts_of_builderClosure?
    (h : builderClosure? settings (.closure span params (.block b) captures) = some c) :
    c.stmts = b.stmts.map (preludeOf settings c.binding) := by
  obtain ⟨p, body, captures', he, -, htail, hstmts⟩ := builderClosure?_eq_some_iff.1 h
  cases he
  obtain ⟨bspan, kind, stmts, tail⟩ := b
  obtain ⟨rfl, tail, rfl⟩ : kind = .plain ∧ ∃ e, tail = some e := by
    cases kind <;> cases tail <;> simp_all [Expr.opened, closureTail?, Expr.name?]
  exact hstmts

/-- A closure with statements becomes a block with a line for each of them. -/
theorem Workshop.text_of_stmts {w : Workshop}
    (hc : builderClosure? w.settings (.closure span params (.block b) captures) = some c)
    (hrule : rules.find? c.builder = none) {d d' : Draft}
    (hrun : w.rewriteClosure rules c d = (.ok text, d')) (hs : b.stmts ≠ []) :
    text = String.intercalate "\n" (["\x7b", "let mut " ++ c.binding ++ " = " ++
      construct c.builder (w.constructorArgs rules c.span.ctxt c) ++ ";"] ++
        b.stmts.map (w.lineFor rules c.span.ctxt c.binding) ++
          [c.binding ++ w.settersText rules c.span.ctxt c, "\x7d"]) := by
  have hstmts := stmts_of_builderClosure? hc
  have hne : c.stmts ≠ [] := by rwa [hstmts, Ne, List.map_eq_nil_iff]
  have hlines : (w.readyClosure rules c).stmts.map (w.lineOf c.span.ctxt) =
      b.stmts.map (w.lineFor rules c.span.ctxt c.binding) := by
    rw [readyClosure, readyStmts_eq_map, hstmts, List.map_map, List.map_map]
    rfl
  rw [← hlines]
  exact eq_of_rewriteClosure hrun hrule (comesTo_general_block hne w rules)

/-- The statements of a closure in a block are replayed in full just if those that are copied have no
attributes and end in no field with generic arguments. -/
theorem Workshop.replaysAll_iff (hread : readModule code 1 path = .ok m)
    (he : .expr (.closure span params (.block b) captures) ∈ (m.resolved settings).tree.preorder)
    (hc : builderClosure? settings (.closure span params (.block b) captures) = some c)
    (hrule : rules.find? c.builder = none) {d d' : Draft}
    (hrun : (Plan.alone settings rules path code).workshop.rewriteClosure rules c d = (.ok text, d')) :
    ∃ ts, tokensOf code 1 = .ok ts ∧ (∃ pieces, b.StandsIn ts pieces) ∧
      ∀ pieces, b.StandsIn ts pieces →
        ((Plan.alone settings rules path code).workshop.ReplaysAll rules c b.stmts pieces text ↔
          ∀ x ∈ b.stmts.zip pieces, ¬ x.1.Assigns settings c.binding →
            x.2.attributes = [] ∧ x.2.trail = []) := by
  obtain ⟨-, -, ts, hts, hl⟩ := readModule_laid hread (by omega)
  obtain ⟨ts', hts', hsourced⟩ := readModule_sourced hread (by omega)
  obtain rfl := Except.ok.inj (hts.symm.trans hts')
  have hlaid := m.resolved_laid settings hl
  have hsourced := Module.resolved_sourced settings hsourced
  have hmem := Module.expr_below he
  have hblock : .expr (.block b) ∈ (m.resolved settings).tree.preorder :=
    Node.mem_preorder_trans (x := .module _) he
      (Node.mem_preorder_of_child (List.mem_singleton_self _) (Node.mem_preorder_self _))
  refine ⟨ts, hts, hsourced _ hblock, fun pieces hpieces => ?_⟩
  have hreplays (x : Stmt × Piece) (hx : x ∈ b.stmts.zip pieces) :
      (Plan.alone settings rules path code).workshop.Replays rules c.span.ctxt c.binding x.1 x.2
        ((Plan.alone settings rules path code).workshop.lineFor rules c.span.ctxt c.binding x.1) ↔
          (¬ x.1.Assigns settings c.binding → x.2.attributes = [] ∧ x.2.trail = []) := by
    obtain ⟨hof, us, ws, hsplit⟩ := hpieces.exists_own x hx
    exact replays_iff settings rules c.span.ctxt c.binding path
      (hlaid.within_below (Module.children_trees _) hmem
        (Block.mem_preorder_stmt (List.of_mem_zip hx).1)).2 (hsplit ▸ hts) hof
  constructor
  · intro h x hx
    exact (hreplays x hx).1 (h.each x hx)
  · intro h
    exact ⟨text_of_stmts hc hrule hrun, fun x hx => (hreplays x hx).2 (h x hx)⟩

/-! ### An attribute -/

/-- What becomes of a closure with a block: its binding, where its statements stand and which of them are
chains on the binding, where the block ends, whether its builder has a rule, and the text that is
written, with the notes on it. -/
structure Replayed where
  binding : String
  stmts : List (Span × Bool)
  hi : Int
  ruled : Bool
  text : Option String
  notes : List Note
  deriving DecidableEq

/-- What becomes of the closure that a node is. -/
def Node.replayed? (w : Workshop) : Node → Option Replayed
  | .expr (.closure span params (.block b) captures) =>
    (builderClosure? w.settings (.closure span params (.block b) captures)).map fun c =>
      let (result, d) := w.rewriteClosure {} c {}
      { binding := c.binding
        stmts := b.stmts.map fun s => (s.span, decide (s.Assigns w.settings c.binding))
        hi := b.span.hi, ruled := (Rules.find? {} c.builder).isSome
        text := result.toOption, notes := d.notes }
  | _ => none

theorem exists_replayed {w : Workshop} {stmts : List (Span × Bool)} {hi : Int}
    (h : ((readModule code 1 noFile).toOption.bind fun m =>
      (m.resolved w.settings).tree.preorder.findSome? (Node.replayed? w)) =
        some ⟨binding, stmts, hi, false, some text, []⟩) :
    ∃ m span params b captures c d, readModule code 1 noFile = .ok m ∧
      .expr (.closure span params (.block b) captures) ∈ (m.resolved w.settings).tree.preorder ∧
      builderClosure? w.settings (.closure span params (.block b) captures) = some c ∧
      Rules.find? {} c.builder = none ∧ w.rewriteClosure {} c {} = (.ok text, d) ∧ d.notes = [] ∧
      c.binding = binding ∧ b.span.hi = hi ∧
      b.stmts.map (fun s => (s.span, decide (s.Assigns w.settings binding))) = stmts := by
  obtain ⟨m, hread, x, hx, hreplayed⟩ := exists_node h
  unfold Node.replayed? at hreplayed
  split at hreplayed
  · next span params b captures =>
    obtain ⟨c, hc, hall⟩ := Option.map_eq_some_iff.1 hreplayed
    generalize hrun : w.rewriteClosure {} c {} = run at hall
    obtain ⟨result, d⟩ := run
    simp only [Replayed.mk.injEq, Option.isSome_eq_false_iff, Option.isNone_iff_eq_none] at hall
    obtain ⟨rfl, hstmts, hhi, hrule, htext, hnotes⟩ := hall
    cases result with
    | error v => cases htext
    | ok text' =>
      obtain rfl := Option.some.inj htext
      exact ⟨m, span, params, b, captures, c, d, hread, hx, hc, hrule, hrun, hnotes, rfl, hhi, hstmts⟩
  · cases hreplayed

/-- A block stands where its statements stand and it ends. -/
theorem Block.standsIn_of_spans (before : List Token) (opening : Token) (rest : List Token)
    (closing : Token) (after : List Token) {spans : List Span} (hs : b.stmts.map Stmt.span = spans)
    (hhi : b.span.hi = closing.hi)
    (hts : ts = before ++ opening :: (pieces.flatMap Piece.tokens ++ (rest ++ closing :: after)))
    (hopening : opening.is "\x7b" = true) (hclosing : closing.is "\x7d" = true)
    (hp : List.Forall₂ Piece.Of pieces spans) : b.StandsIn ts pieces := by
  obtain ⟨span, kind, stmts, tail⟩ := b
  exact ⟨before, opening, rest, closing, after, hts, hopening, hclosing, hhi.symm, hs ▸ hp⟩

/-- A token on the first line. -/
def firstLine (kind : TokenKind) (value : String) (lo : Int) : Token :=
  ⟨kind, value, lo, lo + value.length, 1, lo.toNat⟩

/-- A closure with an attribute on its first statement. -/
def attributedCode : String :=
  "use serenity::builder::CreateMessage; " ++
    "fn f() \x7b g(|m: &mut CreateMessage| \x7b #[allow(x)] let e = 1; m.nonce(e) \x7d); \x7d"

/-- That statement. -/
def attributedPiece : Piece where
  leads := [⟨.outer, [firstLine .punct "#" 76, firstLine .punct "[" 77, firstLine .ident "allow" 78,
    firstLine .punct "(" 83, firstLine .ident "x" 84, firstLine .punct ")" 85,
    firstLine .punct "]" 86]⟩]
  own := [firstLine .ident "let" 88, firstLine .ident "e" 92, firstLine .punct "=" 94,
    firstLine .number "1" 96, firstLine .punct ";" 97]
  trail := []

theorem attributedPiece_of : attributedPiece.Of ⟨88, 98, 0⟩ where
  leads := List.forall_mem_singleton.2 (.outer rfl ⟨rfl, _, rfl⟩)
  begins := rfl
  ends := rfl
  trail := .nil
  not_dot := by rintro _ ⟨⟩; rfl

/-- The attribute is lost, without a note. -/
theorem not_replaysAll :
    let w := (Plan.alone {} {} noFile attributedCode).workshop
    let text := "\x7b\nlet mut m = CreateMessage::new();\nlet e = 1;\nm.nonce(e)\n\x7d"
    ∃ m span params b captures c d ts, readModule attributedCode 1 noFile = .ok m ∧
      .expr (.closure span params (.block b) captures) ∈ (m.resolved w.settings).tree.preorder ∧
      builderClosure? w.settings (.closure span params (.block b) captures) = some c ∧
      Rules.find? {} c.builder = none ∧ w.rewriteClosure {} c {} = (.ok text, d) ∧ d.notes = [] ∧
      tokensOf attributedCode 1 = .ok ts ∧ b.StandsIn ts [attributedPiece] ∧
      ¬ w.ReplaysAll {} c b.stmts [attributedPiece] text := by
  intro w text
  have hlook : ((readModule attributedCode 1 noFile).toOption.bind fun m =>
      (m.resolved w.settings).tree.preorder.findSome? (Node.replayed? w)) =
        some ⟨"m", [(⟨88, 98, 0⟩, false)], 111, false, some text, []⟩ := by
    decide +kernel
  obtain ⟨m, span, params, b, captures, c, d, hread, he, hc, hrule, hrun, hnotes, hbinding, hhi, hstmts⟩ :=
    exists_replayed hlook
  obtain ⟨-, -, ts, hts, -⟩ := readModule_laid hread (by omega)
  have htokens := tokensOf_eq_ok hts
  obtain ⟨s, hs, hspan⟩ := List.map_eq_singleton_iff.1 hstmts
  rw [Prod.mk.injEq, decide_eq_false_iff_not, ← hbinding] at hspan
  have hstands : b.StandsIn ts [attributedPiece] :=
    Block.standsIn_of_spans ((tokenize attributedCode 1).tokens.take 21) (firstLine .punct "\x7b" 74)
      (((tokenize attributedCode 1).tokens.drop 34).take 6) (firstLine .punct "\x7d" 110)
      ((tokenize attributedCode 1).tokens.drop 41)
      (by rw [hs, List.map_singleton, hspan.1]) hhi (htokens.trans (by decide +kernel)) rfl rfl
      (.cons attributedPiece_of .nil)
  refine ⟨m, span, params, b, captures, c, d, ts, hread, he, hc, hrule, hrun, hnotes, hts, hstands,
    fun h => ?_⟩
  have hx : (s, attributedPiece) ∈ b.stmts.zip [attributedPiece] := by simp [hs]
  obtain ⟨hof, us, ws, hsplit⟩ := hstands.exists_own _ hx
  have hwithin : s.span.Within attributedCode.length :=
    hspan.1 ▸ ⟨rfl, by decide, by decide, by decide +kernel⟩
  have hbare := (Workshop.replays_iff {} {} _ _ noFile hwithin (hsplit ▸ hts)
    hof).1 (h.each _ hx) hspan.2
  have hattributes : attributedPiece.attributes ≠ [] := by decide
  exact hattributes hbare.1

/-- A closure with a statement of its own and a chain on its binding. -/
def plainCode : String :=
  "use serenity::builder::CreateMessage; " ++
    "fn f() \x7b g(|m: &mut CreateMessage| \x7b let e = 1; m.content(e); m.nonce(2) \x7d); \x7d"

def plainPieces : List Piece :=
  [⟨[], [firstLine .ident "let" 76, firstLine .ident "e" 80, firstLine .punct "=" 82,
      firstLine .number "1" 84, firstLine .punct ";" 85], []⟩,
    ⟨[], [firstLine .ident "m" 87, firstLine .punct "." 88, firstLine .ident "content" 89,
      firstLine .punct "(" 96, firstLine .ident "e" 97, firstLine .punct ")" 98,
      firstLine .punct ";" 99], []⟩]

theorem plainPieces_of : List.Forall₂ Piece.Of plainPieces [⟨76, 86, 0⟩, ⟨87, 100, 0⟩] :=
  .cons ⟨nofun, rfl, rfl, .nil, by rintro _ ⟨⟩; rfl⟩
    (.cons ⟨nofun, rfl, rfl, .nil, by rintro _ ⟨⟩; rfl⟩ .nil)

theorem Workshop.replaysAll_plain :
    let w := (Plan.alone {} {} noFile plainCode).workshop
    let text := "\x7b\nlet mut m = CreateMessage::new();\nlet e = 1;\nm = m.content(e);\nm.nonce(2)\n\x7d"
    ∃ m span params b captures c d ts, readModule plainCode 1 noFile = .ok m ∧
      .expr (.closure span params (.block b) captures) ∈ (m.resolved w.settings).tree.preorder ∧
      builderClosure? w.settings (.closure span params (.block b) captures) = some c ∧
      Rules.find? {} c.builder = none ∧ w.rewriteClosure {} c {} = (.ok text, d) ∧ d.notes = [] ∧
      tokensOf plainCode 1 = .ok ts ∧ b.StandsIn ts plainPieces ∧
      w.ReplaysAll {} c b.stmts plainPieces text := by
  intro w text
  have hlook : ((readModule plainCode 1 noFile).toOption.bind fun m =>
      (m.resolved w.settings).tree.preorder.findSome? (Node.replayed? w)) =
        some ⟨"m", [(⟨76, 86, 0⟩, false), (⟨87, 100, 0⟩, true)], 113, false, some text, []⟩ := by
    decide +kernel
  obtain ⟨m, span, params, b, captures, c, d, hread, he, hc, hrule, hrun, hnotes, -, hhi, hstmts⟩ :=
    exists_replayed hlook
  have hspans : b.stmts.map Stmt.span = [⟨76, 86, 0⟩, ⟨87, 100, 0⟩] := by
    have hfirst := congrArg (List.map Prod.fst) hstmts
    rwa [List.map_map] at hfirst
  obtain ⟨ts, hts, -, hall⟩ := replaysAll_iff hread he hc hrule hrun
  have htokens := tokensOf_eq_ok hts
  have hstands : b.StandsIn ts plainPieces :=
    Block.standsIn_of_spans ((tokenize plainCode 1).tokens.take 21) (firstLine .punct "\x7b" 74)
      (((tokenize plainCode 1).tokens.drop 34).take 6) (firstLine .punct "\x7d" 112)
      ((tokenize plainCode 1).tokens.drop 41)
      hspans hhi (htokens.trans (by decide +kernel)) rfl rfl plainPieces_of
  have hbare : ∀ p ∈ plainPieces, p.attributes = [] ∧ p.trail = [] := by decide
  exact ⟨m, span, params, b, captures, c, d, ts, hread, he, hc, hrule, hrun, hnotes, hts, hstands,
    (hall plainPieces hstands).2 fun x hx _ => hbare x.2 (List.of_mem_zip hx).2⟩

end BuilderMigration
