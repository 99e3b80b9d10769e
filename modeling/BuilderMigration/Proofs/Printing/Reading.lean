import BuilderMigration.Proofs.Halting.Reading
import BuilderMigration.Proofs.Printing.Expressions
import BuilderMigration.Proofs.Printing.Spelling

/-! Reading undoes printing: every phrase, printed with single spaces, is read as its tree. -/

namespace BuilderMigration

open Parse

variable {α β : Type} {N : Option Spelling → Prop} {ws vs : List Spelling} {w : Spelling}
  {R : β → Prop} {Q : Expr → Prop} {g : Grammar} {v : String}

/-! ### Operands -/

namespace Operand

/-- The primary expression that an operand begins with. -/
def root : Operand → Operand
  | call p _ => path p
  | method receiver _ _ _ => receiver.root
  | o => o

/-- The tokens of the calls behind it. -/
def links : Operand → List Spelling
  | call _ args => mark "(" :: (commas (eachSpelt args) ++ [mark ")"])
  | method receiver name _ args =>
    receiver.links ++ mark "." :: name.spelling :: mark "(" :: (commas (eachSpelt args) ++ [mark ")"])
  | _ => []

theorem spellings_eq : ∀ o : Operand, o.spellings = o.root.spellings ++ o.links
  | path _ => (List.append_nil _).symm
  | call _ _ => rfl
  | paren _ => (List.append_nil _).symm
  | method receiver _ _ _ => by
    rw [spellings, spellings_eq receiver, List.append_assoc]
    rfl
  | block _ _ => (List.append_nil _).symm

theorem root_cases : ∀ o : Operand, (∃ p, o.root = path p) ∨ (∃ e, o.root = paren e) ∨
    ∃ lines tail, o.root = block lines tail
  | path p => .inl ⟨p, rfl⟩
  | call p _ => .inl ⟨p, rfl⟩
  | paren e => .inr (.inl ⟨e, rfl⟩)
  | method receiver _ _ _ => root_cases receiver
  | block lines tail => .inr (.inr ⟨lines, tail, rfl⟩)

/-- Calls begin with a dot, save for the arguments of a path. -/
theorem links_cases : ∀ o : Operand, o.links = [] ∧ o.root = o ∨ (∃ ws, o.links = mark "." :: ws) ∨
    ∃ p ws, o.root = path p ∧ o.links = mark "(" :: ws
  | path _ => .inl ⟨rfl, rfl⟩
  | call _ _ => .inr (.inr ⟨_, _, rfl, rfl⟩)
  | paren _ => .inl ⟨rfl, rfl⟩
  | method receiver _ _ _ => by
    rcases links_cases receiver with ⟨h, -⟩ | ⟨ws, h⟩ | ⟨p, ws, hp, h⟩
    · exact .inr (.inl ⟨_, by rw [links, h]; rfl⟩)
    · exact .inr (.inl ⟨_, by rw [links, h]; rfl⟩)
    · exact .inr (.inr ⟨p, _, hp, by rw [links, h]; rfl⟩)
  | block _ _ => .inl ⟨rfl, rfl⟩

/-- A grammar reads the primary expression that an operand begins with, and is led on by the calls. -/
structure ReadBy (o : Operand) (g : Grammar) : Prop where
  root : Consumes (Before rootEnds) (Grammar.primaryOf g false) o.root.spellings
    fun e => e.unplaced = o.root.tree
  links : ∀ e, e.unplaced = o.root.tree → Grammar.Leads g e o.links fun e' => e'.unplaced = o.tree

variable {o : Operand}

theorem ReadBy.suffixes (h : o.ReadBy g) :
    Consumes (Before phraseEnds) (do Grammar.suffixes g (← Grammar.primaryOf g false)) o.spellings
      fun e => e.unplaced = o.tree := by
  rw [spellings_eq]
  refine .bind h.root (fun p hp => ?_) fun e he => (h.links e he).consumes
  rcases links_cases o with ⟨h, -⟩ | ⟨ws, h⟩ | ⟨_, ws, -, h⟩
  · rw [h]
    exact hp.mono (by decide)
  · rw [h]
    exact before_mark (by decide)
  · rw [h]
    exact before_mark (by decide)

theorem ReadBy.expr (h : o.ReadBy g) :
    Consumes (Before phraseEnds) (Grammar.exprOf g false) o.spellings fun e => e.unplaced = o.tree :=
  Grammar.exprOf_consumes o.opened h.suffixes

end Operand

/-! ### Expressions as statements -/

namespace Grammar

/-- A look at whether a block begins, where no brace and no keyword is next. -/
theorem startsBlockLike_false (hw : Opens phraseBarriers w) (hbrace : w.is "\x7b" = false)
    (c : Cursor) (hc : nextSpelling c.rest = some w) : startsBlockLike c = .ok (false, c) := by
  obtain ⟨rest, last⟩ := c
  obtain ⟨t, ts, rfl, rfl⟩ := nextSpelling_eq_some hc
  have hopen : ¬ (t.isPunct "\x7b" || t.kind = .lifetime) = true := by
    have hlifetime : t.kind ≠ .lifetime := hw.1
    have his : t.is "\x7b" = false := hbrace
    cases hkind : t.kind <;> simp_all [Token.isPunct, Token.is]
  unfold startsBlockLike
  rw [look_head]
  dsimp only
  rw [if_neg hopen]
  by_cases hkind : t.kind = .ident
  · have hne (v : String) (hv : v ∈ phraseBarriers) : t.value ≠ v := by
      have his : t.is v = false := hw.2 v hv
      simpa [Token.is, hkind] using his
    have hblock : ["if", "match", "loop", "while", "for"].contains t.value = false := by
      simp [hne "if" (by decide), hne "match" (by decide), hne "loop" (by decide),
        hne "while" (by decide), hne "for" (by decide)]
    simp only [hkind, ne_eq, not_true_eq_false, if_false, hblock, Bool.false_eq_true,
      hne "unsafe" (by decide), hne "const" (by decide), hne "async" (by decide), decide_false,
      Bool.or_self]
    rfl
  · rw [if_pos hkind]
    rfl

theorem startsBlockLike_brace (c : Cursor) (hc : nextSpelling c.rest = some (mark "\x7b")) :
    startsBlockLike c = .ok (true, c) := by
  obtain ⟨rest, last⟩ := c
  obtain ⟨t, ts, rfl, ht⟩ := nextSpelling_eq_some hc
  obtain ⟨hkind, hvalue⟩ := Prod.mk.inj ht
  have hopen : (t.isPunct "\x7b" || t.kind = .lifetime) = true := by
    simp [Token.isPunct, hkind, hvalue]
  unfold startsBlockLike
  rw [look_head]
  dsimp only
  rw [if_pos hopen]
  rfl

/-- An expression that does not begin with a brace is read alike as a statement. -/
theorem statement_of_expr (hws : Opened phraseBarriers ws)
    (hbrace : ∀ w ∈ ws.head?, w.is "\x7b" = false) (h : Consumes N (exprOf g false) ws Q) : Consumes N (statementExprOf g) ws Q := by
  obtain ⟨w, ws, rfl, hw⟩ := hws
  exact .peek (x := false) (fun _ _ c hc => startsBlockLike_false hw (hbrace w rfl) c hc) h

/-- A block at the front of a statement: the calls behind it are read, if a dot follows. -/
theorem statement_of_block {o : Operand} {lines : List Clause} {tail : Option Phrase}
    (hroot : o.root = .block lines tail) (h : o.ReadBy g) :
    Consumes (Before phraseEnds) (statementExprOf g) o.spellings fun e => e.unplaced = o.tree := by
  have hbrace : ∃ vs, o.spellings = mark "\x7b" :: vs := by
    rw [Operand.spellings_eq, hroot]
    cases tail <;> exact ⟨_, rfl⟩
  refine .peek (x := true) (fun _ _ c hc => ?_) ?_
  · obtain ⟨vs, hvs⟩ := hbrace
    exact startsBlockLike_brace c (by rw [hc, hvs]; rfl)
  rw [Operand.spellings_eq]
  rcases o.links_cases with ⟨hlinks, hself⟩ | ⟨vs, hlinks⟩ | ⟨p, vs, hp, -⟩
  · refine .bind h.root (fun p hp => ?_) fun e he => ?_
    · rw [hlinks]
      exact hp.mono (by decide)
    · rw [hlinks]
      refine .last (looksAtOneOf_end (by decide)) fun found hfound => ?_
      subst hfound
      exact .pure (hself ▸ he)
  · refine .bind h.root (fun p hp => ?_) fun e he => ?_
    · rw [hlinks]
      exact before_mark (by decide)
    · refine .peek (x := true) (fun o ho c hc => ?_) ?_
      · rw [looksAtOneOf_eq, hc, hlinks]
        rfl
      · refine .last (h.links e he).consumes fun e' he' => ?_
        exact (exprFrom_end g e').imp fun e'' he'' => he''.symm ▸ he'
  · rw [hroot] at hp
    cases hp

end Grammar

/-! ### Statements and blocks -/

theorem Literal.is_of_not_isWord (l : Literal) (hword : ¬ IsWord v) : l.spelling.is v = false := by
  obtain ⟨kind, text, spelt⟩ := l
  cases kind with
  | string => rfl
  | char => rfl
  | number => rfl
  | bool =>
    have hne : text ≠ v := by
      rintro rfl
      exact hword (by rcases (spelt : text = "true" ∨ text = "false") with rfl | rfl <;> decide)
    simpa [Spelling.is, Literal.spelling, LitKind.token] using hne

theorem Spelling.Usable.is_false (h : w.Usable) (hv : v ∉ phraseMarks) (hword : ¬ IsWord v) :
    w.is v = false := by
  cases h with
  | name h =>
    have hne : _ ≠ v := fun he => hword (he ▸ h)
    simpa [Spelling.is] using hne
  | lit l => exact l.is_of_not_isWord hword
  | mark h =>
    have hne : _ ≠ v := fun he => hv (he ▸ h)
    simpa using hne

/-- No item begins where a phrase is next: neither its first token nor a bang behind that begins one. -/
theorem Parse.Consumes.notItem {f : Bool → Parse β} (hw : Opens phraseBarriers w)
    (hbang : ∀ o, N o → (ws.head?.or o).any (·.is "!") = false)
    (h : Consumes N (f false) (w :: ws) R) : Consumes N (Grammar.startsItem >>= f) (w :: ws) R := by
  intro ts rest last hts hn
  obtain ⟨t, us, rfl, rfl, hus⟩ := List.map_eq_cons_iff.1 hts
  have hsecond :
      looksAt 1 "!" ⟨t :: (us ++ rest), last⟩ = .ok (false, ⟨t :: (us ++ rest), last⟩) := by
    rw [looksAt_second, nextSpelling_append, hus, hbang _ hn]
  have hitem :
      Grammar.startsItem ⟨t :: (us ++ rest), last⟩ = .ok (false, ⟨t :: (us ++ rest), last⟩) := by
    unfold Grammar.startsItem
    rw [look_head]
    dsimp only
    by_cases hkind : t.kind = .ident
    · have hne (v : String) (hv : v ∈ phraseBarriers) : t.value ≠ v := by
        have his : t.is v = false := hw.2 v hv
        simpa [Token.is, hkind] using his
      have hkeyword : Grammar.itemKeywords.contains t.value = false := by
        have hsub : ∀ v ∈ Grammar.itemKeywords, v ∈ phraseBarriers := by decide
        have hnot : t.value ∉ Grammar.itemKeywords := fun h => hne _ (hsub _ h) rfl
        simpa using hnot
      simp only [hkind, ne_eq, not_true_eq_false, if_false, hkeyword, Bool.false_eq_true,
        hne "const" (by decide), hne "static" (by decide), hne "unsafe" (by decide),
        hne "async" (by decide), decide_false, Bool.or_self]
      split
      · exact hsecond
      · rfl
    · rw [if_pos hkind]
      rfl
  obtain ⟨b, last', hb, hR⟩ := h (t :: us) rest last hts hn
  exact ⟨b, last', (bind_of_ok hitem).trans hb, hR⟩

namespace Clause

/-- What no statement of a phrase begins with. -/
def barriers : List String := ["\x7d", ";", "#"]

theorem opened (s : Clause) : Opened barriers s.spellings := by
  cases s with
  | bind b init => cases init <;> exact ⟨_, _, rfl, opens_word (by decide)⟩
  | semi e =>
    obtain ⟨w, ws, hws, hkind, hw⟩ := e.opened
    have hsub : ∀ v ∈ barriers, v ∈ phraseBarriers := by decide
    exact Opened.append ⟨w, ws, hws, hkind, fun v hv => hw v (hsub v hv)⟩ _

/-- A grammar reads a statement as it is written. -/
def ReadBy (s : Clause) (g : Grammar) : Prop :=
  Consumes (fun _ => True) (Grammar.blockTurn g) s.spellings
    fun t => ∃ stmt, t = .one stmt ∧ stmt.unplaced = s.tree

end Clause

namespace Grammar

/-- The turn of a block at something that neither ends it nor is empty. -/
theorem blockTurn_begun {S : Turn Stmt (Option Expr) → Prop} (hws : Opened Clause.barriers ws)
    (h : Consumes N (do
      if ← nextIs "let" then return .one (← letStmt g)
      if ← startsItem then
        let i ← g.item
        return .one (.item i.span i)
      exprStmt g) ws S) : Consumes N (blockTurn g) ws S := by
  have hno (v : String) (hv : v ∈ Clause.barriers) (o : Option Spelling) :
      (ws.head?.or o).any (·.is v) = false := by simpa using hws.any_is hv [] o
  have hsome : ∃ w vs, ws = w :: vs := hws.imp fun _ h => h.imp fun _ h => h.1
  obtain ⟨w, vs, rfl⟩ := hsome
  refine .nextIs (b := false) (fun o _ => hno "\x7d" (by decide) o) (.lookHead fun t _ => ?_)
  refine .acceptNot (fun o _ => hno ";" (by decide) o) ?_
  refine .skipAttributes (fun o _ => hno "#" (by decide) o) ?_
  exact .nextIs (b := false) (fun o _ => hno "\x7d" (by decide) o) h

/-- What stands behind the type of a binding: its value, if it has one. -/
def valueSpelt : Option Phrase → List Spelling
  | none => [mark ";"]
  | some e => mark "=" :: (e.spellings ++ [mark ";"])

/-- A binding, with a type that is read from `ws` and the value that it may have. -/
theorem letStmt_typed {b : Binding} {ty : Option Ty} {init : Option Phrase}
    (hws : ∀ o, Before [":", "=", ";"] o → Before [":", "=", ";"] (ws.head?.or o))
    (hty : Consumes (Before [",", "|", "=", ";"]) (declaredType g) ws (· = ty))
    (h : ∀ p ∈ init, p.ReadBy g) :
    Consumes (fun _ => True) (letStmt g) (keyword "let" :: (b.nameSpelt ++ (ws ++ valueSpelt init)))
      fun stmt => stmt.unplaced = .letStmt ⟨0, 0, 0⟩ b.pattern ty (init.map (·.tree)) none := by
  have hpattern : Consumes (Before [":", "=", ";"]) (pattern [":", "=", ";"]) b.nameSpelt
      fun p => p.unplaced = b.pattern := b.pattern_consumes (by decide)
  have hnext (v : String) (hv : v ∈ [":", "=", ";"]) (vs : List Spelling) (o : Option Spelling) :
      Before [":", "=", ";"] ((ws ++ mark v :: vs).head?.or o) := by
    rw [List.head?_append, Option.or_assoc]
    exact hws _ (before_mark hv)
  refine .cons (.expect rfl) fun start _ => ?_
  cases init with
  | none =>
    refine .bind hpattern (fun o _ => hnext ";" (by decide) _ o) fun p hp => ?_
    refine .bind hty (fun o _ => before_mark (by decide)) fun ty' hty' => ?_
    refine .acceptNot (fun o _ => rfl) ?_
    simp only [Bool.false_eq_true, if_false, pure_bind]
    refine .last (.expect rfl) fun _ _ => .spanFrom fun s => .pure ?_
    rw [Stmt.unplaced, hp, hty']
    rfl
  | some e =>
    refine .bind hpattern (fun o _ => hnext "=" (by decide) _ o) fun p hp => ?_
    refine .bind hty (fun o _ => before_mark (by decide)) fun ty' hty' => ?_
    refine .cons (.accept rfl) fun found hfound => ?_
    subst hfound
    simp only [if_true, pure_bind]
    refine .bind (h e rfl).expr (fun o _ => before_mark (by decide)) fun e' he' => ?_
    refine .acceptNot (fun o _ => rfl) ?_
    simp only [Bool.false_eq_true, if_false]
    refine .last (.expect rfl) fun _ _ => .spanFrom fun s => .pure ?_
    rw [Stmt.unplaced, hp, hty', he']
    rfl

/-- A binding with the value that it may have. -/
theorem letStmt_consumes {b : Binding} {init : Option Phrase}
    (hty : Consumes (Before [",", "|", "=", ";"]) (declaredType g) b.typeSpelt
      fun ty => ty = b.ty.map (·.ty)) (h : ∀ p ∈ init, p.ReadBy g) :
    Consumes (fun _ => True) (letStmt g) (Clause.bind b init).spellings
      fun stmt => stmt.unplaced = (Clause.bind b init).tree := by
  have hall := letStmt_typed (b := b) (fun o ho => b.typeSpelt_head ho (by decide)) hty h
  cases init <;>
    simpa [Clause.spellings, Binding.spellings, valueSpelt, Clause.tree] using hall

/-- The turn of a block at a phrase, behind which no bang comes. -/
theorem blockTurn_phrase {p : Phrase} {S : Turn Stmt (Option Expr) → Prop}
    (hbang : ∀ o, N o → (vs.head?.or o).any (·.is "!") = false)
    (h : Consumes N (exprStmt g) (p.spellings ++ vs) S) :
    Consumes N (blockTurn g) (p.spellings ++ vs) S := by
  have hsub : ∀ v ∈ Clause.barriers, v ∈ phraseBarriers := by decide
  have husable := p.allUsable
  obtain ⟨w, ws, hws, hw⟩ := p.opened
  rw [hws] at h husable ⊢
  refine blockTurn_begun ⟨w, _, rfl, hw.1, fun v hv => hw.2 v (hsub v hv)⟩ ?_
  refine .nextIs (b := false) (fun o _ => hw.2 "let" (by decide)) (.notItem hw (fun o ho => ?_) h)
  cases ws with
  | nil => exact hbang o ho
  | cons u us =>
    have hu := (allUsable_cons.1 (allUsable_cons.1 husable).2).1
    exact hu.is_false (by decide) (by decide)

/-- An expression with a semicolon behind it. -/
theorem semi_consumes {p : Phrase} (h : p.ReadBy g) : (Clause.semi p).ReadBy g := by
  refine blockTurn_phrase (fun _ _ => rfl) (.look 0 fun t => ?_)
  refine .bind h.statement (fun _ _ => before_mark (by decide)) fun e he => ?_
  refine .last (.accept rfl) fun found hfound => ?_
  subst hfound
  exact .spanFrom fun s => .pure ⟨_, rfl, by rw [Stmt.unplaced, he, Clause.tree]⟩

theorem bind_consumes {b : Binding} {init : Option Phrase}
    (hty : Consumes (Before [",", "|", "=", ";"]) (declaredType g) b.typeSpelt
      fun ty => ty = b.ty.map (·.ty)) (h : ∀ p ∈ init, p.ReadBy g) :
    (Clause.bind b init).ReadBy g := by
  refine blockTurn_begun (Clause.opened _) (.nextIs (b := true) (fun o _ => ?_) ?_)
  · cases init <;> rfl
  · exact .last (letStmt_consumes hty h) fun stmt hstmt => .pure ⟨stmt, rfl, hstmt⟩

/-- The value of a block, behind which the block is closed. -/
theorem tail_consumes {p : Phrase} (h : p.ReadBy g) :
    Consumes (At "\x7d") (blockTurn g) p.spellings
      fun t => ∃ b, t = .stop b ∧ b.map Expr.unplaced = some p.tree := by
  have hturn : Consumes (At "\x7d") (exprStmt g) (p.spellings ++ [])
      fun t => ∃ b, t = .stop b ∧ b.map Expr.unplaced = some p.tree := by
    refine .look 0 fun t => .bind h.statement (fun o ho => At.before ho (by decide)) fun e he => ?_
    refine .acceptNot (fun o ho => ho ▸ rfl) (.nextIs (b := true) (fun o ho => ho ▸ rfl) ?_)
    exact .pure ⟨_, rfl, congrArg some he⟩
  have hall := blockTurn_phrase (fun o ho => ho ▸ rfl) hturn
  rwa [List.append_nil] at hall

/-- The value that a block may have, with its end next. -/
def tailSpelt : Option Phrase → List Spelling
  | none => []
  | some p => p.spellings

theorem lines_consumes {lines : List Clause} {tail : Option Phrase} (h : ∀ s ∈ lines, s.ReadBy g)
    (htail : ∀ p ∈ tail, p.ReadBy g) :
    Consumes (At "\x7d") (collect (blockTurn g)) (linesSpelt lines ++ tailSpelt tail)
      fun r => unplacedStmts r.1 = clauseTrees lines ∧
        r.2.map Expr.unplaced = tail.map Phrase.tree := by
  induction lines with
  | nil =>
    have hstop : Consumes (At "\x7d") (blockTurn g) (tailSpelt tail)
        fun t => ∃ b, t = .stop b ∧ b.map Expr.unplaced = tail.map Phrase.tree := by
      cases tail with
      | none => exact .nextIs (b := true) (fun o ho => ho ▸ rfl) (.pure ⟨_, rfl, rfl⟩)
      | some p => exact tail_consumes (htail p rfl)
    refine hstop.collectStop.imp fun r hr => ?_
    exact ⟨by rw [hr.1]; rfl, hr.2⟩
  | cons s lines ih =>
    have hne : s.spellings ≠ [] := by
      obtain ⟨w, ws, hws, -⟩ := s.opened
      rw [hws]
      exact List.cons_ne_nil w ws
    have hrest := ih fun s hs => h s (List.mem_cons_of_mem _ hs)
    rw [linesSpelt, List.append_assoc]
    have hfirst := h s List.mem_cons_self
    refine (Consumes.collectOne hne hfirst (fun _ _ => trivial) hrest).imp fun r hr => ?_
    obtain ⟨stmt, stmts, hr, hstmt, hstmts, hvalue⟩ := hr
    exact ⟨by rw [hr, unplacedStmts, hstmt, hstmts, clauseTrees], hvalue⟩

/-- A block, in whose braces `ws` is read by its turns. -/
theorem blockOf_consumes {S : List Stmt × Option Expr → Prop}
    (hhash : ∀ o, ((ws ++ [mark "\x7d"]).head?.or o).any (·.is "#") = false)
    (h : Consumes (At "\x7d") (collect (blockTurn g)) ws S) :
    Consumes (fun _ => True) (blockOf g .plain none) (mark "\x7b" :: (ws ++ [mark "\x7d"]))
      fun b => ∃ span r, b = .mk span .plain r.1 r.2 ∧ S r := by
  refine .cons (.expect rfl) fun brace _ => .skipAttributes (fun o _ => hhash o) ?_
  refine .bind h (fun _ _ => rfl) fun r hr => ?_
  exact .last (.expect rfl) fun _ _ => .spanFrom fun s => .pure ⟨_, r, rfl, hr⟩

/-- A block as it is written. -/
theorem block_consumes {lines : List Clause} {tail : Option Phrase} (h : ∀ s ∈ lines, s.ReadBy g)
    (htail : ∀ p ∈ tail, p.ReadBy g) :
    Consumes (fun _ => True) (blockOf g .plain none) (Operand.block lines tail).spellings
      fun b => Expr.block b.unplaced = (Operand.block lines tail).tree := by
  have hspelt : (Operand.block lines tail).spellings =
      mark "\x7b" :: (linesSpelt lines ++ tailSpelt tail ++ [mark "\x7d"]) := by
    cases tail with
    | none => simp [Operand.spellings, tailSpelt]
    | some p => simp [Operand.spellings, tailSpelt]
  have husable := (Operand.block lines tail).allUsable
  rw [hspelt] at husable ⊢
  have hhash (o : Option Spelling) :
      ((linesSpelt lines ++ tailSpelt tail ++ [mark "\x7d"]).head?.or o).any (·.is "#") = false := by
    cases hws : linesSpelt lines ++ tailSpelt tail ++ [mark "\x7d"] with
    | nil => simp at hws
    | cons w ws =>
      rw [hws] at husable
      exact (allUsable_cons.1 (allUsable_cons.1 husable).2).1.is_false (by decide) (by decide)
  refine (blockOf_consumes hhash (lines_consumes h htail)).imp fun b hb => ?_
  obtain ⟨span, ⟨stmts, value⟩, rfl, hstmts, hvalue⟩ := hb
  dsimp only at hstmts hvalue ⊢
  cases tail with
  | none =>
    obtain rfl := Option.map_eq_none_iff.1 hvalue
    simp only [Block.unplaced, Operand.tree, hstmts]
  | some p =>
    obtain ⟨e, rfl, he⟩ := Option.map_eq_some_iff.1 hvalue
    simp only [Block.unplaced, Operand.tree, hstmts, he]

/-- A brace begins a block, where an expression is expected. -/
theorem primaryOf_block {S : Block → Prop}
    (h : Consumes N (g.block .plain none) (mark "\x7b" :: ws) S) :
    Consumes N (primaryOf g false) (mark "\x7b" :: ws) fun e => ∃ b, e = .block b ∧ S b := by
  refine .lookHead fun t ht => ?_
  obtain ⟨hkind, hvalue⟩ := Prod.mk.inj ht
  have hpunct : punctPrimary g t false = (do return .block (← g.block .plain none)) := by
    simp [punctPrimary, hvalue]
  dsimp only
  rw [hkind]
  dsimp only
  rw [hpunct]
  exact .last h fun b hb => .pure ⟨b, rfl, hb⟩

end Grammar

/-! ### Operands in full -/

namespace Operand.ReadBy

variable {args : List Phrase} {o : Operand}

theorem path (g : Grammar) (p : PathName) : (Operand.path p).ReadBy g :=
  ⟨Grammar.path_consumes g p, fun _ he => .here he⟩

theorem call (p : PathName) (h : ∀ a ∈ args, a.ReadBy g) : (Operand.call p args).ReadBy g := by
  refine ⟨Grammar.path_consumes g p, fun e he => ?_⟩
  rw [Operand.links, Operand.tree]
  refine .one (List.cons_ne_nil _ _) ((Grammar.suffix_call h e).imp fun r hr => ?_)
  rwa [he] at hr

theorem paren {p : Phrase} (h : p.ReadBy g) : (Operand.paren p).ReadBy g :=
  ⟨(Grammar.paren_consumes h).mono fun _ _ => trivial, fun _ he => .here he⟩

theorem method (h : o.ReadBy g) {name : Ident} (awaits : name.text ≠ "await")
    (hargs : ∀ a ∈ args, a.ReadBy g) : (Operand.method o name awaits args).ReadBy g := by
  have hroot : (Operand.method o name awaits args).root = o.root := by rw [Operand.root]
  refine ⟨by rw [hroot]; exact h.root, fun e he => ?_⟩
  rw [Operand.links, Operand.tree]
  refine (h.links e (hroot ▸ he)).suffix (List.cons_ne_nil _ _) fun e' he' => ?_
  refine (Grammar.suffix_method hargs awaits e').imp fun r hr => ?_
  rwa [he'] at hr

/-- The lines of a block are read one round of productions deeper. -/
theorem block {lines : List Clause} {tail : Option Phrase} (h : ∀ s ∈ lines, s.ReadBy g)
    (htail : ∀ p ∈ tail, p.ReadBy g) : (Operand.block lines tail).ReadBy g.above := by
  refine ⟨Consumes.mono ?_ fun _ _ => trivial, fun _ he => .here he⟩
  have hblock : Consumes (fun _ => True) (g.above.block .plain none)
      (Operand.block lines tail).spellings
      fun b => Expr.block b.unplaced = (Operand.block lines tail).tree :=
    Grammar.block_consumes h htail
  have hbrace : ∃ vs, (Operand.block lines tail).spellings = mark "\x7b" :: vs := by
    cases tail <;> exact ⟨_, rfl⟩
  obtain ⟨vs, hvs⟩ := hbrace
  change Consumes _ _ (Operand.block lines tail).spellings _
  rw [hvs] at hblock ⊢
  refine (Grammar.primaryOf_block hblock).imp fun e he => ?_
  obtain ⟨b, rfl, hb⟩ := he
  exact hb

end Operand.ReadBy

/-! ### Deep grammars -/

namespace Phrase.ReadBy

variable {p : Phrase} {o : Operand}

theorem of_deep (h : Deep fun g =>
      Consumes (Before phraseEnds) (Grammar.exprOf g false) p.spellings fun e => e.unplaced = p.tree)
    (hstatement : Deep fun g => Consumes (Before phraseEnds) (Grammar.exprOf g false) p.spellings
        (fun e => e.unplaced = p.tree) →
      Consumes (Before phraseEnds) (Grammar.statementExprOf g) p.spellings
        fun e => e.unplaced = p.tree) :
    Deep p.ReadBy := by
  have hexpr : Deep fun g =>
      Consumes (Before phraseEnds) (g.expr false) p.spellings fun e => e.unplaced = p.tree :=
    h.above fun _ hg => hg
  exact (hexpr.and (h.and hstatement)).imp fun g hg => ⟨hg.1, hg.2.2 hg.2.1⟩

/-- A phrase that is a primary expression by itself and does not begin with a brace. -/
theorem of_primary (hbrace : ∀ w ∈ p.spellings.head?, w.is "\x7b" = false)
    (h : Deep fun g =>
      Consumes (Before phraseEnds) (Grammar.primaryOf g false) p.spellings
        fun e => e.unplaced = p.tree) :
    Deep p.ReadBy := by
  refine of_deep (h.imp fun g hg => Grammar.exprOf_consumes p.opened (.last hg fun e he => ?_))
    (.of fun g => Grammar.statement_of_expr p.opened hbrace)
  exact (Grammar.suffixes_end g e).imp fun e' he' => he'.symm ▸ he

theorem lit (l : Literal) : Deep (Phrase.lit l).ReadBy := by
  refine of_primary (fun w hw => ?_) (.of fun g => ?_)
  · obtain rfl := Option.some.inj hw
    exact l.is_of_not_isWord (by decide)
  · exact (Grammar.literal_consumes g l).mono fun _ _ => trivial

theorem closure {body : Phrase} (captures : Bool) (params : List Binding) (h : Deep body.ReadBy) :
    Deep (Phrase.closure captures params body).ReadBy := by
  refine of_primary (fun w hw => ?_) (((Binding.closureParams_consumes params).and h).imp fun g hg =>
    Grammar.primaryOf_closure hg.1 hg.2)
  cases captures <;> cases params <;> obtain rfl := Option.some.inj hw <;> rfl

/-- An operand, which as a statement is read in another way if it begins with a block. -/
theorem operand (h : Deep o.ReadBy) : Deep (Phrase.operand o).ReadBy := by
  refine of_deep (h.imp fun _ hg => hg.expr) (h.imp fun g hg hexpr => ?_)
  by_cases hblock : ∃ lines tail, o.root = .block lines tail
  · obtain ⟨lines, tail, hroot⟩ := hblock
    exact Grammar.statement_of_block hroot hg
  · refine Grammar.statement_of_expr o.opened (fun w hw => ?_) hexpr
    change w ∈ o.spellings.head? at hw
    rw [Operand.spellings_eq] at hw
    rcases o.root_cases with ⟨p, hroot⟩ | ⟨e, hroot⟩ | hroot
    · rw [hroot] at hw
      obtain rfl := Option.some.inj hw
      exact p.head.is_of_not_isWord (by decide)
    · rw [hroot] at hw
      obtain rfl := Option.some.inj hw
      rfl
    · exact absurd hroot hblock

end Phrase.ReadBy

mutual

/-- Deep grammars read phrases as they are written. -/
theorem Phrase.read : ∀ p : Phrase, Deep p.ReadBy
  | .lit l => Phrase.ReadBy.lit l
  | .closure captures params body => Phrase.ReadBy.closure captures params (Phrase.read body)
  | .operand o => Phrase.ReadBy.operand (Operand.read o)

theorem Operand.read : ∀ o : Operand, Deep o.ReadBy
  | .path p => .of fun g => .path g p
  | .call p args => (Deep.all (Phrase.read_each args)).imp fun _ h => .call p h
  | .paren e => (Phrase.read e).imp fun _ h => .paren h
  | .method receiver _ awaits args =>
    ((Operand.read receiver).and (Deep.all (Phrase.read_each args))).imp fun _ h =>
      .method h.1 awaits h.2
  | .block lines none => (Deep.all (Clause.read_each lines)).above fun _ h => .block h nofun
  | .block lines (some e) =>
    ((Deep.all (Clause.read_each lines)).and (Phrase.read e)).above fun _ h =>
      .block h.1 fun _ hp => Option.some.inj hp ▸ h.2

theorem Clause.read : ∀ s : Clause, Deep s.ReadBy
  | .bind b none => b.declaredType_consumes.imp fun _ h => Grammar.bind_consumes h nofun
  | .bind b (some e) => (b.declaredType_consumes.and (Phrase.read e)).imp fun _ h =>
    Grammar.bind_consumes h.1 fun _ hp => Option.some.inj hp ▸ h.2
  | .semi e => (Phrase.read e).imp fun _ h => Grammar.semi_consumes h

theorem Phrase.read_each : ∀ ps : List Phrase, ∀ p ∈ ps, Deep p.ReadBy
  | p :: _, _, .head _ => Phrase.read p
  | _ :: ps, q, .tail _ hq => Phrase.read_each ps q hq

theorem Clause.read_each : ∀ ss : List Clause, ∀ s ∈ ss, Deep s.ReadBy
  | s :: _, _, .head _ => Clause.read s
  | _ :: ss, s, .tail _ hs => Clause.read_each ss s hs

end

/-! ### Whole texts -/

/-- Without a mark that may begin one there is no stray attribute. -/
theorem not_hasStrayMark_of_not_mem {ts : List Token} (h : mark "#" ∉ ts.map Token.spelling) :
    ¬ HasStrayMark ts := by
  induction ts with
  | nil => exact not_hasStrayMark_nil
  | cons t ts ih =>
    rw [List.map_cons, List.mem_cons, not_or] at h
    intro hm
    rcases hasStrayMark_cons.1 hm with ⟨hhash, -⟩ | hm
    · refine h.1 ?_
      rw [Token.isPunct, Bool.and_eq_true, beq_iff_eq, beq_iff_eq] at hhash
      exact Prod.ext hhash.1.symm hhash.2.symm
    · exact ih h.2 hm

/-- The tokens of phrases begin no attribute. -/
theorem not_hasStrayMark_of_usable {ts : List Token} (h : AllUsable (ts.map Token.spelling)) :
    ¬ HasStrayMark ts := by
  refine not_hasStrayMark_of_not_mem fun hmem => ?_
  have his : (mark "#").is "#" = false := (h _ hmem).is_false (by decide) (by decide)
  simp at his

/-- What a deep grammar reads of an expression that is a whole text is what is read of it. -/
theorem readExprTokens_of_deep {ts : List Token} (hts : ts.map Token.spelling = ws)
    (hm : ¬ HasStrayMark ts) (h : Deep fun g => Consumes (· = none) (g.expr false) ws Q) :
    ∃ e, readExprTokens ts = .ok e ∧ Q e := by
  obtain ⟨depth, hdeep⟩ := h
  obtain ⟨e, last, he, hQ⟩ := hdeep (ts.length + 1 + depth) (by omega) ts [] 0 hts rfl
  have hhalts :=
    (Grammar.haltsBelow_ofDepth (ts.length + 1) depth).soleExpr.start (Nat.lt_succ_self _) hm
  rw [List.append_nil] at he
  refine ⟨e, hhalts.2.trans ?_, hQ⟩
  rw [Grammar.soleExpr, bind_of_ok he]
  rfl

/-- A phrase that is printed with single spaces between its tokens, and read, is the same phrase. -/
theorem readExpr_text (p : Phrase) (start : Int) :
    Expr.unplaced <$> readExpr p.text start = .ok p.tree := by
  obtain ⟨ts, hts, hspelling⟩ := p.tokensOf_text start
  have hm : ¬ HasStrayMark ts := not_hasStrayMark_of_usable (hspelling ▸ p.allUsable)
  obtain ⟨depth, hdeep⟩ := p.read
  have hbelow := hdeep (ts.length + 1 + depth) (by omega)
  obtain ⟨e, last, he, htree⟩ := hbelow.expr ts [] 0 hspelling .none
  have hsole : (·.1) <$> (Grammar.ofDepth (ts.length + 1 + depth)).soleExpr ⟨ts, 0⟩ = .ok e := by
    rw [List.append_nil] at he
    rw [Grammar.soleExpr, bind_of_ok he]
    rfl
  -- the grammar that the text is read by is as good as the deeper one
  have hhalts :=
    (Grammar.haltsBelow_ofDepth (ts.length + 1) depth).soleExpr.start (Nat.lt_succ_self _) hm
  have hread : readExpr p.text start = .ok e := by
    rw [readExpr, hts]
    exact hhalts.2.trans hsole
  rw [hread, ← htree]
  rfl

example :
    let m : PathName := ⟨⟨"m", by decide⟩, by decide, []⟩
    let text : Phrase := .lit ⟨.string, "\"hi\"", by decide⟩
    let p : Phrase := .closure true [⟨true, ⟨"m", by decide⟩, by decide, none⟩]
      (.operand (.method (.path m) ⟨"content", by decide⟩ (by decide) [text]))
    p.text = "move | mut m | m . content ( \"hi\" )" := by decide

end BuilderMigration
