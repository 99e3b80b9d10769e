import BuilderMigration.Proofs.Likeness.Reading

/-! Reading a text at one position or at another: the tokens and the tree are the same, moved, and so
is the line and column of an error. -/

namespace BuilderMigration

open Parse

/-! ### Tokens -/

/-- A scan of a text that stands elsewhere. -/
def Scan.shift (k : Int) (s : Scan) : Scan := { s with tokens := s.tokens.map (·.shift k) }

theorem Scan.scanFrom_shift (start k : Int) (p : Place) (pending : Nat) (cs : List Char) :
    scanFrom (start + k) p pending cs = (scanFrom start p pending cs).shift k := by
  induction cs generalizing p pending with
  | nil => cases pending <;> rfl
  | cons c cs ih =>
    cases pending with
    | succ pending => exact ih _ _
    | zero =>
      simp only [scanFrom]
      split
      · exact ih _ _
      · rfl
      · next kind length h =>
        rw [ih]
        simp only [Scan.shift, List.map_cons, Token.shift, Scan.mk.injEq, List.cons.injEq,
          Token.mk.injEq, and_true, true_and]
        constructor <;> omega

theorem tokenize_shift (code : String) (start k : Int) :
    tokenize code (start + k) = (tokenize code start).shift k :=
  Scan.scanFrom_shift ..

theorem tokensOf_shift (code : String) (start k : Int) :
    tokensOf code (start + k) = List.map (Token.shift k) <$> tokensOf code start := by
  simp only [tokensOf, tokenize_shift]
  simp only [Scan.shift]
  cases (tokenize code start).fault <;> rfl

/-! ### Trees -/

/-- An identifier is a name. -/
def Token.Named (N : String → Prop) (t : Token) : Prop := t.kind = .ident → N t.value

/-- The same tokens `k` positions further on. -/
def Likeness.moving (k : Int) (N : String → Prop) : Likeness where
  toRelabeling := .moving k
  Named := N
  same := True
  name_eq_iff _ _ := Iff.rfl
  place_le h := Int.add_le_add_right h k

variable {k : Int} {N : String → Prop} {ts : List Token}

theorem Token.like_shift {t : Token} (hn : t.Named N) : t.Like (.moving k N) (t.shift k) where
  kind := rfl
  name _ := rfl
  value _ := rfl
  lo := rfl
  hi := rfl
  named := hn
  same _ := ⟨rfl, rfl, rfl⟩

theorem together_shift (hn : ∀ t ∈ ts, t.Named N) :
    Together (.moving k N) ts (ts.map (·.shift k)) := by
  induction ts with
  | nil => exact .nil
  | cons t ts ih =>
    exact .cons (Token.like_shift (hn t List.mem_cons_self))
      (fun _ _ h => (Int.add_left_inj k).1 h) (ih fun u hu => hn u (List.mem_cons_of_mem _ hu))

/-- Moved tokens have the same outcome, moved. -/
theorem Outcomes.moved {α : Type} {f : α → α} {P : α → Prop} {r r' : Except Failure α}
    (h : Outcomes (.moving k N) (Mapped f P) r r') : r' = f <$> r ∧ ∀ a, r = .ok a → P a := by
  cases h with
  | ok hq =>
    refine ⟨congrArg Except.ok hq.1.symm, fun a ha => ?_⟩
    cases ha
    exact hq.2
  | error hf =>
    refine ⟨?_, nofun⟩
    cases hf with
    | refl => rfl
    | rejected h => rw [h trivial]; rfl

theorem map_item_moving (is : List Item) :
    is.map (Relabeling.moving k).item = is.map (·.shift k) :=
  List.map_congr_left fun i _ => Relabeling.item_moving k i

/-- The names in a file are among the values of its tokens. -/
theorem readModule_written {code file : String} {start : Int} {m : Module}
    (h : readModule code start file = .ok m) (hn : ∀ t ∈ (tokenize code start).tokens, t.Named N) :
    ∀ i ∈ m.items, i.Written N := by
  rw [readModule] at h
  cases hts : tokensOf code start with
  | error f => simp [hts, bind, Except.bind] at h
  | ok ts =>
    cases his : readItems ts with
    | error f => simp [hts, his, bind, Except.bind] at h
    | ok is =>
      obtain rfl : m = ⟨⟨start, start + code.length, 0⟩, is, file⟩ := by
        simpa [hts, his, bind, Except.bind, pure, Except.pure] using h.symm
      exact (readItems_alike (together_shift (k := 0) (tokensOf_eq_ok hts ▸ hn))).moved.2 is his

/-- Without a condition on names. -/
theorem readItems_shift (k : Int) (ts : List Token) :
    readItems (ts.map (·.shift k)) = List.map (Item.shift k) <$> readItems ts := by
  have h : Together (.moving k fun _ => True) ts (ts.map (·.shift k)) :=
    together_shift fun _ _ _ => trivial
  rw [(readItems_alike h).moved.1]
  exact congrArg (· <$> readItems ts) (funext map_item_moving)

theorem readExprTokens_shift (k : Int) (ts : List Token) :
    readExprTokens (ts.map (·.shift k)) = Expr.shift k <$> readExprTokens ts := by
  have h : Together (.moving k fun _ => True) ts (ts.map (·.shift k)) :=
    together_shift fun _ _ _ => trivial
  rw [(readExprTokens_alike h).moved.1]
  exact congrArg (· <$> readExprTokens ts) (funext (Relabeling.expr_moving k))

/-- A file that stands elsewhere has the same tree, moved, or the same error. -/
theorem readModule_shift (code file : String) (start k : Int) :
    readModule code (start + k) file = Module.shift k <$> readModule code start file := by
  simp only [readModule, tokensOf_shift]
  cases tokensOf code start with
  | error f => rfl
  | ok ts =>
    have h := readItems_shift k ts
    cases hi : readItems ts with
    | error f =>
      rw [hi] at h
      simp only [bind, Except.bind, Functor.map, Except.map, h, hi]
    | ok is =>
      rw [hi] at h
      simp only [bind, Except.bind, Functor.map, Except.map, pure, Except.pure, h, hi, Module.shift,
        Span.shift, shiftItems_eq_map, Except.ok.injEq, Module.mk.injEq, Span.mk.injEq, and_true,
        true_and]
      omega

theorem readExpr_shift (code : String) (start k : Int) :
    readExpr code (start + k) = Expr.shift k <$> readExpr code start := by
  simp only [readExpr, tokensOf_shift]
  cases tokensOf code start with
  | error f => rfl
  | ok ts => exact readExprTokens_shift k ts

end BuilderMigration
