import BuilderMigration.Proofs.Grammar.Reading
import BuilderMigration.Proofs.Shift.Reading
import BuilderMigration.Proofs.Tree.Nesting

/-! The layout of whatever is read, at whichever position the text stands. A text at any position has
the layout that it has at the first one, moved. -/

namespace BuilderMigration

open Parse

variable {ts : List Token} {code file : String} {start : Int} {m : Module} {e : Expr}

theorem readExprTokens_laid (h : Ordered 0 ts) (hr : readExprTokens ts = .ok e) :
    e.tree.Laminar ts := by
  have hc := Cursor.On.start h
  have hread := (Grammar.reads_ofDepth ts (ts.length + 1) 0).expr hc (Nat.lt_succ_self _) false
  have hlook : Yields ts (Grammar.forTokens ts).soleExpr (Grammar.forTokens ts).soleExpr ⟨ts, 0⟩
      (fun e _ => e.tree.Laminar ts) := by
    apply Yields.bind hread
    intro e c he
    exact .lookNext (fun _ => .pure (Laid.singleton_iff.1 he.laid).2.1) fun _ _ _ => .reject ..
  obtain ⟨-, hlook⟩ := hlook
  rw [readExprTokens_eq] at hr
  generalize (Grammar.forTokens ts).soleExpr ⟨ts, 0⟩ = r at hr hlook
  cases r with
  | error f => cases hr
  | ok r =>
    obtain rfl := Except.ok.inj hr
    exact hlook

/-- The items of a file are laid out within the file wherever it stands. -/
theorem readModule_laid_at (h : readModule code start file = .ok m) :
    ∃ ts, tokensOf code start = .ok ts ∧ Laid ts m.span.lo (itemTrees m.items) m.span.hi := by
  have hshift := readModule_shift code file 0 start
  have htokens := tokensOf_shift code 0 start
  rw [Int.zero_add] at hshift htokens
  rw [hshift] at h
  cases h₀ : readModule code 0 file with
  | error f =>
    rw [h₀] at h
    cases h
  | ok m₀ =>
    rw [h₀] at h
    obtain rfl := Except.ok.inj h
    obtain ⟨hspan, -, ts, ht, hlaid⟩ := readModule_laid h₀ (Int.le_refl 0)
    rw [ht] at htokens
    replace htokens : tokensOf code start = .ok (ts.map (·.shift start)) := htokens
    refine ⟨ts.map (·.shift start), htokens, ?_⟩
    have hmoved := hlaid.shift start
    rw [← itemTrees_shift] at hmoved
    change Laid _ (m₀.span.lo + start) _ (m₀.span.hi + start)
    rwa [hspan]

theorem readExpr_laid_at (h : readExpr code start = .ok e) :
    ∃ ts, tokensOf code start = .ok ts ∧ e.tree.Laminar ts := by
  have hshift := readExpr_shift code 0 start
  have htokens := tokensOf_shift code 0 start
  rw [Int.zero_add] at hshift htokens
  rw [hshift] at h
  cases h₀ : readExpr code 0 with
  | error f =>
    rw [h₀] at h
    cases h
  | ok e₀ =>
    rw [h₀] at h
    obtain rfl := Except.ok.inj h
    rw [readExpr] at h₀
    cases ht : tokensOf code 0 with
    | error f =>
      rw [ht] at h₀
      cases h₀
    | ok ts =>
      rw [ht] at h₀
      replace htokens : tokensOf code start = .ok (ts.map (·.shift start)) := by rw [htokens, ht]; rfl
      have hordered : Ordered 0 ts := tokensOf_eq_ok ht ▸ tokenize_ordered code 0
      refine ⟨ts.map (·.shift start), htokens, ?_⟩
      rw [Expr.tree_shift]
      exact (readExprTokens_laid hordered h₀).shift start

/-- Whatever is read, as a file or as one expression, at whatever position: every node but the file
itself has text, from the start of a token to the end of one, and the children of every node lie
within it one behind the other. -/
theorem readings_nest (code : String) (start : Int) :
    (∀ file m, readModule code start file = .ok m →
      ∃ ts, tokensOf code start = .ok ts ∧
        (∀ n ∈ Rose.preorders (itemTrees m.items), n.span.Proper ts) ∧
        ∀ n ∈ m.tree.preorder, n.Nests) ∧
    ∀ e, readExpr code start = .ok e →
      ∃ ts, tokensOf code start = .ok ts ∧ ∀ n ∈ e.tree.preorder, n.span.Proper ts ∧ n.Nests := by
  constructor
  · intro file m h
    obtain ⟨ts, ht, hlaid⟩ := readModule_laid_at h
    have hnodes := Laid.nests m.children_trees hlaid
    refine ⟨ts, ht, fun n hn => (hnodes n hn).1, fun n hn => ?_⟩
    rw [Module.tree, Rose.preorder] at hn
    rcases List.mem_cons.1 hn with rfl | hn
    · exact .of_laid (m.children_trees ▸ hlaid)
    · exact (hnodes n hn).2
  · intro e h
    obtain ⟨ts, ht, hlaid⟩ := readExpr_laid_at h
    exact ⟨ts, ht, Rose.Laminar.nests (x := .expr e) rfl hlaid⟩

/-- A macro call whose group is read twice, an attribute, a label, a range, an assignment, a cast and a
conditional that goes on as a left operand. -/
theorem readings_nest_mixed : ∃ m ts,
    readModule ("fn f() \x7b #[a] 'l: loop \x7b x = 1..y as u8; p!(b => c); break 'l; \x7d " ++
        "if a \x7b 1 \x7d else \x7b 2 \x7d.g(); \x7d")
      (-7) "a.rs" = .ok m ∧
    m.tree.preorder.length = 26 ∧
    (∀ n ∈ Rose.preorders (itemTrees m.items), n.span.Proper ts) ∧
    ∀ n ∈ m.tree.preorder, n.Nests := by
  generalize htext :
    "fn f() \x7b #[a] 'l: loop \x7b x = 1..y as u8; p!(b => c); break 'l; \x7d " ++
      "if a \x7b 1 \x7d else \x7b 2 \x7d.g(); \x7d" = text
  have hlength : (readModule text (-7) "a.rs").toOption.map (·.tree.preorder.length) = some 26 := by
    rw [← htext]
    decide +kernel
  cases h : readModule text (-7) "a.rs" with
  | error f =>
    rw [h] at hlength
    cases hlength
  | ok m =>
    rw [h] at hlength
    obtain ⟨ts, -, hproper, hnests⟩ := (readings_nest text (-7)).1 "a.rs" m h
    exact ⟨m, ts, rfl, Option.some.inj hlength, hproper, hnests⟩

end BuilderMigration
