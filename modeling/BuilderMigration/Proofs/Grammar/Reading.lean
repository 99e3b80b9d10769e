import BuilderMigration.Proofs.Grammar.Items
import BuilderMigration.Proofs.Token.Scan

/-! Every reading of a list of tokens: it ends in trees laid out in source order or in a failure that
the text excuses, and a grammar deeper than the one that was used ends alike. -/

namespace BuilderMigration

open Parse

variable {ts : List Token} {c : Cursor}

namespace Grammar

variable {n : Nat} {g g' : Grammar}

/-- One more round of productions reads one more token. -/
theorem Reads.above (hg : g.Reads ts n g') : g.above.Reads ts (n + 1) g'.above where
  bounded := by
    obtain ⟨depth, rfl⟩ := hg.bounded
    exact ⟨depth + 1, rfl⟩
  ty hc hl := hg.typeOf hc (Nat.le_of_lt_succ hl)
  useTree hc hl path := hg.useTreeOf hc (Nat.le_of_lt_succ hl) path
  expr hc hl bare := hg.exprOf hc (Nat.le_of_lt_succ hl) bare
  operand hc hl strength bare := hg.operandOf hc (Nat.le_of_lt_succ hl) strength bare
  unary hc hl bare := hg.unaryOf hc (Nat.le_of_lt_succ hl) bare
  primary hc hl bare := hg.primaryOf hc (Nat.le_of_lt_succ hl) bare
  statementExpr hc hl := hg.statementExprOf hc (Nat.le_of_lt_succ hl)
  conditional hc hl := hg.conditionalOf hc (Nat.le_of_lt_succ hl)
  blockHere hc _ hl kind := hg.blockOf hc hc.stays hl kind (.inl ⟨rfl, rfl⟩)
  blockFrom hs h hl kind := hg.blockOf hs h (Nat.le_of_lt hl) kind (.inr rfl)
  itemHere hc _ hl := hg.itemOf hc hl
  stray hm bare := ⟨primaryOf_stray hm (hg.stray hm bare).1, primaryOf_stray hm (hg.stray hm bare).2⟩

/-- At a stray mark no grammar is deep enough. -/
theorem primary_stray (hm : StrayMark c.rest) (depth : Nat) (bare : Bool) :
    (ofDepth depth).primary bare c = .error .endless := by
  induction depth with
  | zero => rfl
  | succ depth ih => exact primaryOf_stray hm ih

/-- A grammar of some depth ends like every deeper one on rests of fewer tokens. -/
theorem reads_ofDepth (ts : List Token) (n more : Nat) :
    (ofDepth n).Reads ts n (ofDepth (n + more)) := by
  induction n with
  | zero =>
    exact {
      bounded := ⟨0, rfl⟩
      ty := fun _ hl => absurd hl (Nat.not_lt_zero _)
      useTree := fun _ hl => absurd hl (Nat.not_lt_zero _)
      expr := fun _ hl => absurd hl (Nat.not_lt_zero _)
      operand := fun _ hl => absurd hl (Nat.not_lt_zero _)
      unary := fun _ hl => absurd hl (Nat.not_lt_zero _)
      primary := fun _ hl => absurd hl (Nat.not_lt_zero _)
      statementExpr := fun _ hl => absurd hl (Nat.not_lt_zero _)
      conditional := fun _ hl => absurd hl (Nat.not_lt_zero _)
      blockHere := fun _ hn => absurd hn (Nat.not_lt_zero _)
      blockFrom := fun _ _ hl => absurd hl (Nat.not_lt_zero _)
      itemHere := fun _ hn => absurd hn (Nat.not_lt_zero _)
      stray := fun hm bare => ⟨primary_stray hm _ bare, primary_stray hm _ bare⟩ }
  | succ n ih =>
    rw [Nat.succ_add]
    exact ih.above

/-- The grammar for a text reads it like every deeper one. -/
theorem items_forTokens (h : Ordered 0 ts) (more : Nat) :
    Yields ts (items (forTokens ts).item false)
      (items (ofDepth (ts.length + 1 + more)).item false) ⟨ts, 0⟩
      (fun is c' => AllGrown ts ⟨ts, 0⟩ (itemTrees is) c') :=
  (reads_ofDepth ts _ more).items (.start h) (Nat.le_succ _) false

end Grammar

theorem readItems_yields (h : Ordered 0 ts) : match readItems ts with
    | .ok is => ∃ hi, Laid ts 0 (itemTrees is) hi
    | .error f => f.Excused ts := by
  obtain ⟨-, h⟩ := Grammar.items_forTokens h 0
  rw [readItems]
  cases hr : Grammar.items (Grammar.forTokens ts).item false ⟨ts, 0⟩ with
  | ok r =>
    rw [hr] at h
    exact ⟨r.2.last, h.laid⟩
  | error f =>
    rw [hr] at h
    exact h

/-- A grammar that is deep enough for a text ends like every deeper one. -/
theorem readItems_deeper (h : Ordered 0 ts) {depth : Nat} (hd : ts.length < depth) :
    readItems ts = (·.1) <$> Grammar.items (Grammar.ofDepth depth).item false ⟨ts, 0⟩ := by
  obtain ⟨more, rfl⟩ := Nat.exists_eq_add_of_le hd
  rw [readItems, (Grammar.items_forTokens h more).1]

/-! ### Files -/

variable {code file : String} {start : Int} {m : Module}

theorem tokensOf_eq_ok (h : tokensOf code start = .ok ts) : ts = (tokenize code start).tokens := by
  simp only [tokensOf] at h
  split at h
  · exact (Except.ok.inj h).symm
  · cases h

/-- The items of a file are laid out within the positions of its text. -/
theorem readModule_laid (h : readModule code start file = .ok m) (hs : 0 ≤ start) :
    m.span = ⟨start, start + code.length, 0⟩ ∧ m.file = file ∧
      ∃ ts, tokensOf code start = .ok ts ∧
        Laid ts start (itemTrees m.items) (start + code.length) := by
  rw [readModule] at h
  cases ht : tokensOf code start with
  | error f => simp [ht, bind, Except.bind] at h
  | ok ts =>
    have hord := tokensOf_eq_ok ht ▸ tokenize_ordered code start
    have hy := readItems_yields (hord.mono hs)
    cases hi : readItems ts with
    | error f => simp [ht, hi, bind, Except.bind] at h
    | ok is =>
      rw [hi] at hy
      obtain ⟨hi', hl⟩ := hy
      obtain rfl : m = ⟨⟨start, start + code.length, 0⟩, is, file⟩ := by
        simpa [ht, hi, bind, Except.bind, pure, Except.pure] using h.symm
      refine ⟨rfl, rfl, ts, rfl, hl.within (fun u hu => le_lo_of_mem hord hu) (fun u hu => ?_) (by omega)⟩
      exact hi_le_of_mem_tokenize (tokensOf_eq_ok ht ▸ hu)

end BuilderMigration
