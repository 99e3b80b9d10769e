import BuilderMigration.Proofs.Printing.Expressions
import BuilderMigration.Proofs.Printing.Layout

/-! Names joined by binary operators are read as the tree that splits them at the rightmost of the
weakest operators, and both sides likewise: a reader of operands of some strength takes the operators
that are at least as strong, and groups what it takes in this way. -/

namespace BuilderMigration

open Parse

/-! ### Operators and operands -/

/-- A binary operator: a mark of the table, or a shift, which is one mark written twice. -/
inductive Operator where
  | simple (v : String) (strength : Nat) (known : Grammar.strength? v = some strength)
  | shift (v : String) (angle : v = "<" ∨ v = ">")

namespace Operator

def strength : Operator → Nat
  | simple _ n _ => n
  | shift _ _ => Grammar.shiftStrength

def text : Operator → String
  | simple v _ _ => v
  | shift v _ => v ++ v

/-- The tokens `us` in front of `next` are the operator: the two marks of a shift touch, any other
stands apart from what comes next. -/
def SpeltBy (next : Token) : Operator → List Token → Prop
  | simple v _ _, us => ∃ t, us = [t] ∧ t.spelling = mark v ∧ t.touches next = false
  | shift v _, us => ∃ t u, us = [t, u] ∧ t.spelling = mark v ∧ u.spelling = mark v ∧ t.touches u = true

end Operator

/-- The path that a name is. -/
def Token.asPath (t : Token) : Expr := .path ⟨t.lo, t.hi, 0⟩ none [t.value]

/-- The tokens of operators, each with the operand behind it, where an operand ends at `hi`. -/
inductive Operated : Int → List Token → List (Operator × Expr) → Prop
  | nil {hi : Int} : Operated hi [] []
  | cons {hi : Int} {o : Operator} {us ts : List Token} {t : Token} {l : List (Operator × Expr)}
      (operator : o.SpeltBy t us) (n : FreeName) (operand : t.spelling = n.name.spelling)
      (later : hi ≤ t.hi) (rest : Operated t.hi ts l) :
      Operated hi (us ++ t :: ts) ((o, t.asPath) :: l)

/-! ### Grouping -/

/-- The last of the operands that begin with `e`. -/
def lastOperand (e : Expr) (l : List (Operator × Expr)) : Expr := (l.getLast?.map (·.2)).getD e

/-- Operands, of which `e` is the first and each other one stands behind its operator, as a tree:
it splits them at an operator that none is weaker than, and that all behind it are stronger than. -/
inductive Grouped : Expr → List (Operator × Expr) → Expr → Prop
  | single (e : Expr) : Grouped e [] e
  | split {e f a b : Expr} {l r : List (Operator × Expr)} {o : Operator}
      (left : Grouped e l a) (right : Grouped f r b)
      (weakest : ∀ p ∈ l, o.strength ≤ p.1.strength)
      (rightmost : ∀ p ∈ r, o.strength < p.1.strength) :
      Grouped e (l ++ (o, f) :: r)
        (.compound ⟨e.span.lo, (lastOperand f r).span.hi, 0⟩ none .binary [a, b])

theorem lastOperand_append (e f : Expr) (l r : List (Operator × Expr)) (o : Operator) :
    lastOperand e (l ++ (o, f) :: r) = lastOperand f r := by
  cases r with
  | nil => simp [lastOperand]
  | cons p r => simp [lastOperand, List.getLast?_append, List.getLast?_cons]

/-- A tree ends where its last operand does. -/
theorem Grouped.span_hi {e a : Expr} {l : List (Operator × Expr)} (h : Grouped e l a) :
    a.span.hi = (lastOperand e l).span.hi := by
  cases h with
  | single => rfl
  | split => rw [lastOperand_append]; rfl

/-- There is one such tree. -/
theorem Grouped.unique {e a b : Expr} {l : List (Operator × Expr)} (ha : Grouped e l a)
    (hb : Grouped e l b) : a = b := by
  induction ha generalizing b with
  | single e =>
    generalize hl : ([] : List (Operator × Expr)) = l at hb
    cases hb with
    | single => rfl
    | split => simp at hl
  | @split e f a₁ a₂ l r o left right weakest rightmost ihl ihr =>
    generalize hl : l ++ (o, f) :: r = m at hb
    cases hb with
    | single => simp at hl
    | @split _ f' b₁ b₂ l' r' o' left' right' weakest' rightmost' =>
      rcases List.append_eq_append_iff.1 hl with ⟨m, hm, hr⟩ | ⟨m, hm, hr⟩
      · cases m with
        | nil =>
          obtain ⟨⟨rfl, rfl⟩, rfl⟩ := by simpa using hr
          obtain rfl : l' = l := by simpa using hm
          rw [ihl left', ihr right']
        | cons p m =>
          -- the operator of the second tree would be weaker than that of the first, behind it
          obtain ⟨rfl, rfl⟩ := List.cons.inj hr
          have := weakest' (o, f) (by simp [hm])
          have := rightmost (o', f') (by simp)
          dsimp only at *
          omega
      · cases m with
        | nil =>
          obtain ⟨⟨rfl, rfl⟩, rfl⟩ := by simpa using hr
          obtain rfl : l = l' := by simpa using hm
          rw [ihl left', ihr right']
        | cons p m =>
          obtain ⟨rfl, rfl⟩ := List.cons.inj hr
          have := weakest (o', f') (by simp [hm])
          have := rightmost' (o, f) (by simp)
          dsimp only at *
          omega

/-- The operands of binary operators, from left to right. -/
def Expr.operands : Expr → List Expr
  | .compound _ _ .binary [a, b] => a.operands ++ b.operands
  | e => [e]

/-- The operands of the tree are those that it is made of. -/
theorem Grouped.operands {e a : Expr} {l : List (Operator × Expr)} (h : Grouped e l a)
    (he : e.operands = [e]) (hl : ∀ p ∈ l, p.2.operands = [p.2]) : a.operands = e :: l.map (·.2) := by
  induction h with
  | single => exact he
  | @split e f a b l r o left right _ _ ihl ihr =>
    have hleft := ihl he fun p hp => hl p (by simp [hp])
    have hright := ihr (hl (o, f) (by simp)) fun p hp => hl p (by simp [hp])
    rw [Expr.operands, hleft, hright, List.map_append, List.map_cons, List.cons_append]

/-! ### What comes next -/

variable {o : Operator} {us ts : List Token} {t : Token} {l : List (Operator × Expr)} {v : String}
  {hi last : Int} {g : Grammar}

/-- An operator begins with a mark of the table. -/
theorem Operator.SpeltBy.head (h : o.SpeltBy t us) :
    ∃ u vs v n, us = u :: vs ∧ u.spelling = mark v ∧ Grammar.strength? v = some n := by
  cases o with
  | simple v n known =>
    obtain ⟨u, rfl, hu, -⟩ := h
    exact ⟨u, [], v, n, rfl, hu, known⟩
  | shift v angle =>
    obtain ⟨u, w, rfl, hu, -, -⟩ := h
    rcases angle with rfl | rfl <;> exact ⟨u, [w], _, 3, rfl, hu, rfl⟩

/-- Behind an operand comes no mark that is not of the table. -/
theorem Operated.next_is (h : Operated hi ts l) (hv : Grammar.strength? v = none) :
    (nextSpelling ts).any (·.is v) = false := by
  cases h with
  | nil => rfl
  | cons operator =>
    obtain ⟨u, us, w, n, rfl, hu, hw⟩ := operator.head
    have hne : w ≠ v := by
      rintro rfl
      rw [hv] at hw
      cases hw
    rw [List.cons_append, nextSpelling, List.head?_cons, Option.map_some, hu]
    simpa using hne

namespace Grammar

/-! ### Operands -/

theorem pathNames_name {n : FreeName} (ht : t.spelling = n.name.spelling) (h : Operated hi ts l) :
    pathNames ⟨t :: ts, last⟩ = .ok ([t.value], ⟨ts, t.hi⟩) := by
  obtain ⟨hkind, hvalue⟩ := Prod.mk.inj ht
  have hstart : (nextSpelling (t :: ts)).any (·.is "::") = false := by
    rw [nextSpelling, List.head?_cons, Option.map_some, ht]
    exact n.name.is_of_not_isWord (by decide)
  have hcolons : nextIs "::" ⟨ts, t.hi⟩ = .ok (false, ⟨ts, t.hi⟩) := by
    rw [nextIs_eq, h.next_is (by decide)]
  have hlook (k : Nat) (v : String) (c : Cursor) :
      looksAt k v c = .ok (c.rest[k]?.any (·.is v), c) := rfl
  have hkinds (k : Nat) (kind : TokenKind) (c : Cursor) :
      looksAtKind k kind c = .ok (c.rest[k]?.any (·.kind == kind), c) := rfl
  rw [pathNames, bind_of_ok (accept_of_not hstart)]
  refine (bind_of_ok (show _ = Except.ok (([t.value], ()), ⟨ts, t.hi⟩) from ?_)).trans rfl
  refine (bind_of_ok (show _ = Except.ok (Turn.last t.value (), ⟨ts, t.hi⟩) from ?_)).trans rfl
  rw [bind_of_ok (expectName_cons hkind _ _), bind_of_ok hcolons, bind_of_ok (hlook _ _ _)]
  dsimp only
  rw [Bool.false_and, if_neg Bool.false_ne_true, bind_of_ok hcolons, bind_of_ok (hkinds _ _ _),
    Bool.false_and, if_neg Bool.false_ne_true]
  rfl

theorem primaryOf_name {n : FreeName} (ht : t.spelling = n.name.spelling) (h : Operated hi ts l) :
    primaryOf g false ⟨t :: ts, last⟩ = .ok (t.asPath, ⟨ts, t.hi⟩) := by
  obtain ⟨hkind, hvalue⟩ := Prod.mk.inj ht
  have hno (v : String) (hv : strength? v = none) :
      nextIs v ⟨ts, t.hi⟩ = .ok (false, ⟨ts, t.hi⟩) := by rw [nextIs_eq, h.next_is hv]
  rw [primaryOf, look_head]
  dsimp only
  rw [hkind]
  dsimp only
  rw [wordPrimary_free (hvalue ▸ n.free), pathLike, look_head, bind_of_ok (pathNames_name ht h),
    bind_of_ok (hno "!" (by decide)), if_neg Bool.false_ne_true]
  dsimp only
  rw [bind_of_ok (hno "\x7b" (by decide)), Bool.false_and, if_neg Bool.false_ne_true]
  rfl

/-- A name in front of an operator, or at the end, is an operand by itself. -/
theorem casts_name {n : FreeName} (ht : t.spelling = n.name.spelling) (h : Operated hi ts l) :
    casts g false ⟨t :: ts, last⟩ = .ok (t.asPath, ⟨ts, t.hi⟩) := by
  have hno (v : String) (hv : strength? v = none) :
      nextIs v ⟨ts, t.hi⟩ = .ok (false, ⟨ts, t.hi⟩) := by rw [nextIs_eq, h.next_is hv]
  have hsuffix : suffixes g t.asPath ⟨ts, t.hi⟩ = .ok (t.asPath, ⟨ts, t.hi⟩) := by
    refine iterate_of_stop ?_
    rw [suffix, bind_of_ok (hno "?" (by decide)), if_neg Bool.false_ne_true,
      bind_of_ok (hno "." (by decide)), if_neg Bool.false_ne_true,
      bind_of_ok (hno "(" (by decide)), if_neg Bool.false_ne_true,
      bind_of_ok (hno "[" (by decide)), if_neg Bool.false_ne_true]
    rfl
  have hunary : unaryOf g false ⟨t :: ts, last⟩ = .ok (t.asPath, ⟨ts, t.hi⟩) := by
    have hpunct (v : String) : t.isPunct v = false := by
      have hkind : t.kind = .ident := congrArg Prod.fst ht
      simp [Token.isPunct, hkind]
    rw [unaryOf, look_head]
    simp only [hpunct, Bool.or_self, Bool.false_eq_true, if_false]
    rw [bind_of_ok (primaryOf_name ht h), hsuffix]
  rw [casts, bind_of_ok hunary]
  refine iterate_of_stop ?_
  rw [bind_of_ok (accept_of_not (h.next_is (by decide))), if_neg Bool.false_ne_true]
  rfl

/-! ### Operators -/

theorem look_second {α : Type} (f : Option Token → Parse α) (t u : Token) (us : List Token)
    (last : Int) : (look 1 >>= f) ⟨t :: u :: us, last⟩ = f (some u) ⟨t :: u :: us, last⟩ := rfl

/-- The operator that is next is seen as it is spelt. -/
theorem pendingOperator_of (h : o.SpeltBy t us) :
    pendingOperator ⟨us ++ t :: ts, last⟩ =
      .ok (some (o.strength, us.length), ⟨us ++ t :: ts, last⟩) := by
  cases o with
  | simple v n known =>
    obtain ⟨u, rfl, hu, htouch⟩ := h
    obtain ⟨hkind, hvalue⟩ := Prod.mk.inj hu
    rw [List.singleton_append, pendingOperator, look_head]
    dsimp only
    rw [if_neg (by simp [hkind]), hvalue, known]
    split
    · rw [look_second]
      dsimp only
      rw [htouch, if_neg Bool.false_ne_true]
      rfl
    · rfl
  | shift v angle =>
    obtain ⟨u, w, rfl, hu, hw, htouch⟩ := h
    obtain ⟨hkind, hvalue⟩ := Prod.mk.inj hu
    obtain ⟨-, hvalue'⟩ := Prod.mk.inj hw
    have hangle : (u.value == "<" || u.value == ">") = true := by
      rw [hvalue]
      rcases angle with rfl | rfl <;> rfl
    rw [List.cons_append, List.singleton_append, pendingOperator, look_head]
    dsimp only
    rw [if_neg (by simp [hkind]), if_pos hangle, look_second]
    dsimp only
    rw [htouch, if_pos rfl, if_pos (by simp [hvalue, hvalue'])]
    rfl

theorem skip_append (us ts : List Token) (last : Int) :
    ∃ last', skip us.length ⟨us ++ ts, last⟩ = .ok ((), ⟨ts, last'⟩) := by
  induction us generalizing last with
  | nil => exact ⟨last, rfl⟩
  | cons u us ih =>
    obtain ⟨last', h⟩ := ih u.hi
    exact ⟨last', h⟩

/-! ### Operands of some strength -/

/-- A reader of operands has taken some of the operands `l` that come behind `e` and `l₀`: those up to
the first with an operator weaker than `s`. It has made one tree of all of them. The operands end at
`hi` where it begins and `n` tokens are to come. -/
inductive Groups (s : Nat) (e : Expr) (l₀ l : List (Operator × Expr)) (hi : Int) (n : Nat) :
    Except Failure (Expr × Cursor) → Prop
  | ok (l₁ : List (Operator × Expr)) {l₂ : List (Operator × Expr)} {ts : List Token}
      {hi' last : Int} {a : Expr} (split : l = l₁ ++ l₂) (rest : Operated hi' ts l₂)
      (grouped : Grouped e (l₀ ++ l₁) a)
      (strong : ∀ p ∈ l₁, s ≤ p.1.strength) (weak : ∀ p ∈ l₂.head?, p.1.strength < s)
      (span : a.span = ⟨e.span.lo, hi', 0⟩) (later : hi ≤ hi') (shorter : ts.length ≤ n) :
      Groups s e l₀ l hi n (.ok (a, ⟨ts, last⟩))

theorem Groups.exists_ok {s n : Nat} {e : Expr} {l₀ : List (Operator × Expr)}
    {x : Except Failure (Expr × Cursor)} (h : Groups s e l₀ l hi n x) : ∃ r, x = .ok r := by
  cases h
  exact ⟨_, rfl⟩

/-- With the operands in front of it that are strong enough. -/
theorem Groups.behind {s n m : Nat} {e : Expr} {l₀ l₁ : List (Operator × Expr)} {lo : Int}
    {x : Except Failure (Expr × Cursor)} (h : Groups s e (l₀ ++ l₁) l hi n x)
    (hl : ∀ p ∈ l₁, s ≤ p.1.strength) (hlo : lo ≤ hi) (hn : n ≤ m) :
    Groups s e l₀ (l₁ ++ l) lo m x := by
  cases h with
  | ok l₂ split rest grouped strong weak span later shorter =>
    rw [List.append_assoc] at grouped
    exact .ok (l₁ ++ l₂) (by rw [split, List.append_assoc]) rest grouped
      (List.forall_mem_append.2 ⟨hl, strong⟩) weak span (hlo.trans later) (shorter.trans hn)

/-- A reader takes operands of any strength, where at most `k` more come behind the first. -/
def TakesOperands (p : Nat → Parse Expr) (k : Nat) : Prop :=
  ∀ (s : Nat) (n : FreeName) (t : Token) (ts : List Token) (l : List (Operator × Expr)) (last : Int),
    t.spelling = n.name.spelling → Operated t.hi ts l → l.length ≤ k →
      Groups s t.asPath [] l t.hi ts.length (p s ⟨t :: ts, last⟩)

variable {e left : Expr} {l₀ : List (Operator × Expr)} {s k : Nat}

/-- A step of the loop over operators of at least the strength `s`. -/
def binaryStep (g : Grammar) (s : Nat) (left : Expr) : Parse (Expr ⊕ Expr) := do
  match ← pendingOperator with
  | none => return .inr left
  | some (s', width) =>
    if s' < s then return .inr left
    skip width
    let right ← g.operand (s' + 1) false
    return .inl (.compound (left.span.through right.span) none .binary [left, right])

/-- Too weak an operator ends the loop. -/
theorem binaryFrom_weak (h : o.SpeltBy t us) (hs : o.strength < s) :
    binaryFrom g s false left ⟨us ++ t :: ts, last⟩ = .ok (left, ⟨us ++ t :: ts, last⟩) := by
  refine iterate_of_stop ?_
  rw [bind_of_ok (pendingOperator_of h)]
  dsimp only
  rw [if_pos hs]
  rfl

/-- Another one is taken with the operand behind it. -/
theorem binaryStep_turn {right : Expr} {c c' : Cursor} (h : o.SpeltBy t us) (hs : ¬ o.strength < s)
    (hskip : skip us.length ⟨us ++ t :: ts, last⟩ = .ok ((), c))
    (hright : g.operand (o.strength + 1) false c = .ok (right, c')) :
    binaryStep g s left ⟨us ++ t :: ts, last⟩ =
      .ok (.inl (.compound (left.span.through right.span) none .binary [left, right]), c') := by
  rw [binaryStep, bind_of_ok (pendingOperator_of h)]
  dsimp only
  rw [if_neg hs, bind_of_ok hskip, bind_of_ok hright]
  rfl

/-- The loop over operators: what is still to come is no stronger than what is in the tree already, so
that the next operator splits the tree that it makes. -/
theorem binaryFrom_groups (hg : ∀ m, m < k → TakesOperands (fun s => g.operand s false) m)
    (hleft : Grouped e l₀ left) (hspan : left.span = ⟨e.span.lo, hi, 0⟩) (h : Operated hi ts l)
    (hlength : l.length ≤ k) (hweak : ∀ q ∈ l.head?, ∀ p ∈ l₀, q.1.strength ≤ p.1.strength) :
    Groups s e l₀ l hi ts.length (binaryFrom g s false left ⟨ts, last⟩) := by
  induction hn : l.length using Nat.strongRecOn generalizing l₀ left hi ts l last with
  | ind n ih =>
    cases h with
    | nil =>
      have hstop : binaryFrom g s false left ⟨[], last⟩ = .ok (left, ⟨[], last⟩) := iterate_of_stop rfl
      rw [hstop]
      exact .ok [] rfl .nil (by rwa [List.append_nil]) nofun nofun hspan (Int.le_refl _)
        (Nat.le_refl _)
    | @cons _ o us ts t l operator name operand later rest =>
      by_cases hs : o.strength < s
      · rw [binaryFrom_weak operator hs]
        exact .ok [] rfl (.cons operator name operand later rest)
          (by rwa [List.append_nil]) nofun (by simpa using hs) hspan (Int.le_refl _) (Nat.le_refl _)
      · obtain ⟨last₁, hskip⟩ := skip_append us (t :: ts) last
        have hright : Groups (o.strength + 1) t.asPath [] l t.hi ts.length
            (g.operand (o.strength + 1) false ⟨t :: ts, last₁⟩) :=
          hg l.length (by simp at hlength; omega) (o.strength + 1) name t ts l last₁ operand rest
            (Nat.le_refl _)
        generalize hr : g.operand (o.strength + 1) false ⟨t :: ts, last₁⟩ = result at hright
        cases hright with
        | @ok r l₂ ts₂ hi₂ last₂ b split rest₂ right strong weak span later₂ shorter =>
          subst split
          rw [List.nil_append] at right
          have hthrough : left.span.through b.span = ⟨e.span.lo, hi₂, 0⟩ := by
            rw [hspan, span, Span.through, Int.max_eq_right (by dsimp only; omega)]
          -- the new tree splits at this operator, as all behind it that it has taken are stronger
          have hgrouped : Grouped e (l₀ ++ (o, t.asPath) :: r)
              (.compound (left.span.through b.span) none .binary [left, b]) := by
            have hends : hi₂ = (lastOperand t.asPath r).span.hi := by rw [← right.span_hi, span]
            rw [hthrough, hends]
            exact .split hleft right (hweak _ rfl) strong
          have hstrong : ∀ p ∈ (o, t.asPath) :: r, o.strength ≤ p.1.strength :=
            List.forall_mem_cons.2 ⟨Nat.le_refl _, fun p hp => Nat.le_of_succ_le (strong p hp)⟩
          have hordered : ∀ q ∈ l₂.head?, ∀ p ∈ l₀ ++ (o, t.asPath) :: r,
              q.1.strength ≤ p.1.strength := by
            intro q hq p hp
            have hq := Nat.le_of_lt_succ (weak q hq)
            rcases List.mem_append.1 hp with hp | hp
            · exact hq.trans (hweak _ rfl p hp)
            · exact hq.trans (hstrong p hp)
          have hfewer : l₂.length < n ∧ l₂.length ≤ k := by
            simp at hn hlength
            omega
          have hloop : Groups s e _ l₂ hi₂ ts₂.length (binaryFrom g s false _ ⟨ts₂, last₂⟩) :=
            ih l₂.length hfewer.1 hgrouped hthrough rest₂ hfewer.2 hordered rfl
          obtain ⟨whole, hwhole⟩ := hloop.exists_ok
          have hall : binaryFrom g s false left ⟨us ++ t :: ts, last⟩ = .ok whole :=
            iterate_of_inl (binaryStep_turn operator hs hskip hr) (by simp; omega) hwhole
          rw [hall, ← hwhole]
          exact hloop.behind (fun p hp => (Nat.le_of_not_lt hs).trans (hstrong p hp)) (by omega)
            (by simp; omega)

/-- A grammar of enough depth takes all operands of some strength. -/
theorem takes_operandOf (k : Nat) :
    TakesOperands (fun s => operandOf (.ofDepth k) s false) k := by
  induction k with
  | zero =>
    intro s n t ts l last ht h hlength
    change Groups s t.asPath [] l t.hi ts.length ((casts _ false >>= binaryFrom _ s false) _)
    rw [bind_of_ok (casts_name ht h)]
    exact binaryFrom_groups (fun m hm => absurd hm m.not_lt_zero) (.single _) rfl h hlength nofun
  | succ k ih =>
    intro s n t ts l last ht h hlength
    change Groups s t.asPath [] l t.hi ts.length ((casts _ false >>= binaryFrom _ s false) _)
    rw [bind_of_ok (casts_name ht h)]
    refine binaryFrom_groups (fun m hm s n t ts l last ht h hl => ?_) (.single _) rfl h hlength nofun
    exact ih s n t ts l last ht h (by omega)

end Grammar

theorem Operated.length_le (h : Operated hi ts l) : l.length ≤ ts.length := by
  induction h with
  | nil => exact Nat.le_refl _
  | cons => simp; omega

/-- Operands and operators alone are read as their tree. -/
theorem readExprTokens_operated {n : FreeName} (ht : t.spelling = n.name.spelling)
    (h : Operated t.hi ts l) :
    ∃ e, readExprTokens (t :: ts) = .ok e ∧ Grouped t.asPath l e := by
  have hgroups := Grammar.takes_operandOf (ts.length + 1) 0 n t ts l 0 ht h
    (Nat.le_succ_of_le h.length_le)
  dsimp only at hgroups
  generalize hresult : Grammar.operandOf (.ofDepth (ts.length + 1)) 0 false ⟨t :: ts, 0⟩ = result
    at hgroups
  cases hgroups with
  | @ok l₁ l₂ us hi' last a split rest grouped strong weak span later shorter =>
    -- no operator is too weak
    cases rest with
    | cons => exact absurd (weak _ rfl) (Nat.not_lt_zero _)
    | nil =>
      obtain rfl : l = l₁ := by simpa using split
      refine ⟨a, ?_, grouped⟩
      have hrange : Grammar.nextIsRange ⟨t :: ts, 0⟩ = .ok (false, ⟨t :: ts, 0⟩) := by
        have hdots : ["..", "..="].contains t.value = false := by
          have hvalue : t.value = n.name.text := congrArg Prod.snd ht
          have hword := n.name.isWord
          rw [hvalue, Bool.eq_false_iff, Ne, List.contains_iff_mem]
          intro hmem
          rcases List.mem_pair.1 hmem with h | h <;> rw [h] at hword <;> revert hword <;> decide
        rw [Grammar.nextIsRange, Parse.looksAtOneOf_eq, nextSpelling, List.head?_cons,
          Option.map_some, Option.any_some, Token.spelling, hdots, Bool.and_false]
      have hexpr : Grammar.exprOf (.ofDepth (ts.length + 1)) false ⟨t :: ts, 0⟩ =
          .ok (a, ⟨[], last⟩) := by
        have hrangeOf : Grammar.rangeOf (.ofDepth (ts.length + 1)) false ⟨t :: ts, 0⟩ =
            .ok (a, ⟨[], last⟩) := by
          rw [Grammar.rangeOf, bind_of_ok hrange, if_neg Bool.false_ne_true, bind_of_ok hresult]
          rfl
        rw [Grammar.exprOf, bind_of_ok hrangeOf]
        rfl
      rw [readExprTokens_eq, Grammar.soleExpr]
      change (·.1) <$> (Grammar.exprOf (.ofDepth (ts.length + 1)) false >>= _) ⟨t :: ts, 0⟩ = _
      rw [bind_of_ok hexpr]
      rfl

/-! ### Texts -/

/-- Blanks, at least one. -/
structure Blanks where
  chars : List Char
  ne_nil : chars ≠ []
  blank : chars.all Text.isBlank = true

/-- An operator and the operand behind it, each with blanks in front of it. -/
structure OperatorLink where
  before : Blanks
  operator : Operator
  after : Blanks
  operand : FreeName

/-- Names joined by operators. -/
structure OperatorChain where
  first : FreeName
  links : List OperatorLink

def OperatorLink.text (k : OperatorLink) : String :=
  String.ofList k.before.chars ++ k.operator.text ++ String.ofList k.after.chars ++ k.operand.name.text

/-- The name as an expression at position `lo`. -/
def FreeName.placed (n : FreeName) (lo : Int) : Expr :=
  .path ⟨lo, lo + n.name.text.length, 0⟩ none [n.name.text]

/-- The operators with the operands behind them, where the links begin at position `lo`. -/
def OperatorLink.placed (lo : Int) : List OperatorLink → List (Operator × Expr)
  | [] => []
  | k :: ks =>
    let operand := lo + k.before.chars.length + k.operator.text.length + k.after.chars.length
    (k.operator, k.operand.placed operand) :: placed (lo + k.text.length) ks

namespace OperatorChain

def text (c : OperatorChain) : String := c.first.name.text ++ String.join (c.links.map (·.text))

/-- The operators with the operands behind them, where the text begins at `start`. -/
def placed (c : OperatorChain) (start : Int) : List (Operator × Expr) :=
  OperatorLink.placed (start + c.first.name.text.length) c.links

end OperatorChain

theorem OperatorLink.operands_placed (lo : Int) (ks : List OperatorLink) :
    ∀ p ∈ placed lo ks, p.2.operands = [p.2] := by
  induction ks generalizing lo with
  | nil => nofun
  | cons k ks ih => exact List.forall_mem_cons.2 ⟨rfl, ih _⟩

/-! ### Tokens of the texts -/

theorem Operator.isMark (v : String) (n : Nat) (h : Grammar.strength? v = some n) : v ∈ marks := by
  obtain ⟨l₁, l₂, hl, -⟩ := List.lookup_eq_some_iff.1 h
  have htable : ∀ p ∈ [("||", 1), ("&&", 2), ("==", 3), ("!=", 3), ("<", 3), (">", 3), ("<=", 3),
      (">=", 3), ("|", 4), ("^", 5), ("&", 6), ("+", 8), ("-", 8), ("*", 9), ("/", 9), ("%", 9)],
      p.1 ∈ marks := by decide
  exact htable (v, n) (by rw [hl]; simp)

def Operator.glyphs : Operator → List Glyph
  | simple v _ _ => [.token (mark v)]
  | shift v _ => [.token (mark v), .token (mark v)]

def OperatorLink.glyphs (k : OperatorLink) : List Glyph :=
  .gap k.before.chars ::
    (k.operator.glyphs ++ [.gap k.after.chars, .token k.operand.name.spelling])

theorem Operator.text_glyphs (o : Operator) : Glyph.text o.glyphs = o.text.toList := by
  cases o with
  | simple v n known => simp [glyphs, text, mark]
  | shift v angle => simp [glyphs, text, mark]

theorem OperatorLink.text_glyphs (k : OperatorLink) : Glyph.text k.glyphs = k.text.toList := by
  simp [glyphs, text, Operator.text_glyphs, Ident.spelling]

theorem Operator.fits_glyphs (o : Operator) {c : Char} {cs : List Char}
    (hc : Text.isBlank c = true) : Glyph.Fits (c :: cs) o.glyphs := by
  cases o with
  | simple v n known =>
    exact .token (mark_stands (isMark v n known) (clear_blank hc v cs)) .nil
  | shift v angle =>
    have hv : v ∈ marks ∧ ∀ cs, Clear v (v.toList ++ cs) := by
      rcases angle with rfl | rfl
      · exact ⟨by decide, fun cs => Clear.append (v := "<".toList) (by decide) (by decide) cs⟩
      · exact ⟨by decide, fun cs => Clear.append (v := ">".toList) (by decide) (by decide) cs⟩
    refine .token (mark_stands hv.1 ?_) (.token (mark_stands hv.1 (clear_blank hc v cs)) .nil)
    rw [Glyph.text_token, List.append_assoc]
    exact hv.2 _

theorem Blanks.exists_cons (b : Blanks) : ∃ c cs, b.chars = c :: cs ∧ Text.isBlank c = true := by
  obtain ⟨c, cs, h⟩ := List.exists_cons_of_ne_nil b.ne_nil
  exact ⟨c, cs, h, List.all_eq_true.1 b.blank c (by simp [h])⟩

/-- Links fit at the end of a text, and no name goes on into them. -/
theorem OperatorLink.fits_glyphs (ks : List OperatorLink) :
    Glyph.Fits [] (ks.flatMap glyphs) ∧ Aside (Glyph.text (ks.flatMap glyphs)) := by
  induction ks with
  | nil => exact ⟨.nil, nofun⟩
  | cons k ks ih =>
    obtain ⟨c, cs, hbefore, hc⟩ := k.before.exists_cons
    obtain ⟨d, ds, hafter, hd⟩ := k.after.exists_cons
    have hname : Glyph.Fits [] (.token k.operand.name.spelling :: ks.flatMap glyphs) :=
      .token (k.operand.name.isWord.stands (by simpa using ih.2)) ih.1
    have hoperator : Glyph.Fits [] (k.operator.glyphs ++
        .gap k.after.chars :: .token k.operand.name.spelling :: ks.flatMap glyphs) := by
      refine .append ?_ (.gap k.after.blank hname)
      rw [Glyph.text_gap, hafter]
      exact k.operator.fits_glyphs hd
    constructor
    · simpa [glyphs] using Glyph.Fits.gap k.before.blank hoperator
    · rw [List.flatMap_cons, glyphs, List.cons_append, Glyph.text_gap, hbefore]
      exact aside_blank hc _

theorem Token.of_bare {kind : TokenKind} {v : String} {lo hi : Int}
    (h : t.bare = ⟨kind, v, lo, hi, 0, 0⟩) : t.spelling = (kind, v) ∧ t.lo = lo ∧ t.hi = hi := by
  obtain ⟨rfl, rfl, rfl, rfl, -, -⟩ := Token.mk.inj h
  exact ⟨rfl, rfl, rfl⟩

theorem FreeName.asPath_of_bare (n : FreeName) {lo : Int}
    (h : t.bare = ⟨.ident, n.name.text, lo, lo + n.name.text.length, 0, 0⟩) :
    t.asPath = n.placed lo := by
  obtain ⟨-, hvalue, hlo, hhi, -, -⟩ := Token.mk.inj h
  rw [Token.asPath, placed, hvalue, hlo, hhi]

/-- The tokens of an operator, with something between it and the operand `t`. -/
theorem Operator.speltBy_glyphs (o : Operator) {lo : Int} {os : List Token}
    (h : os.map Token.bare = Glyph.placed lo o.glyphs) (ht : lo + o.text.length < t.lo) :
    o.SpeltBy t os := by
  cases o with
  | simple v n known =>
    obtain ⟨u, us, rfl, hu, hus⟩ := List.map_eq_cons_iff.1 h
    obtain rfl : us = [] := by simpa using hus
    obtain ⟨hspelling, -, hhi⟩ := Token.of_bare hu
    refine ⟨u, rfl, hspelling, ?_⟩
    rw [Token.touches, hhi, beq_eq_false_iff_ne]
    exact Int.ne_of_lt (by simpa [text, mark] using ht)
  | shift v angle =>
    obtain ⟨u, us, rfl, hu, hus⟩ := List.map_eq_cons_iff.1 h
    obtain ⟨w, ws, rfl, hw, hws⟩ := List.map_eq_cons_iff.1 hus
    obtain rfl : ws = [] := by simpa using hws
    obtain ⟨hspelling, -, hhi⟩ := Token.of_bare hu
    obtain ⟨hspelling', hlo, -⟩ := Token.of_bare hw
    refine ⟨u, w, rfl, hspelling, hspelling', ?_⟩
    rw [Token.touches, hhi, hlo, beq_self_eq_true]

/-- The tokens of links are those of their operators and operands. -/
theorem OperatorLink.operated (ks : List OperatorLink) {lo : Int} {us : List Token}
    (h : us.map Token.bare = Glyph.placed lo (ks.flatMap glyphs)) (hle : hi ≤ lo) :
    Operated hi us (placed lo ks) := by
  induction ks generalizing lo hi us with
  | nil =>
    obtain rfl : us = [] := by simpa [Glyph.placed] using h
    exact .nil
  | cons k ks ih =>
    have hbefore := List.length_pos_iff.2 k.before.ne_nil
    have hafter := List.length_pos_iff.2 k.after.ne_nil
    have htext : (k.text.length : Int) = k.before.chars.length + k.operator.text.length +
        k.after.chars.length + k.operand.name.text.length := by
      simp [text]
    rw [List.flatMap_cons, glyphs, List.cons_append, Glyph.placed, List.append_assoc,
      Glyph.placed_append, Operator.text_glyphs, String.length_toList] at h
    obtain ⟨os, vs, rfl, hos, hvs⟩ := List.map_eq_append_iff.1 h
    obtain ⟨t, ts, rfl, ht, hts⟩ := List.map_eq_cons_iff.1 hvs
    obtain ⟨hspelling, hlo, hhi⟩ := Token.of_bare ht
    have hoperator : k.operator.SpeltBy t os := k.operator.speltBy_glyphs hos (by omega)
    have hlength : (k.operand.name.spelling.2.length : Int) = k.operand.name.text.length := rfl
    rw [placed, ← k.operand.asPath_of_bare ht]
    refine .cons hoperator k.operand hspelling (by omega) (ih ?_ (by omega))
    rw [hts, htext, hlength]
    congr 1
    omega

/-- A text of operands and operators is read as the tree that splits them at the rightmost of the weakest
operators, and both sides likewise. Each node of it goes from its first operand to its last one. -/
theorem OperatorChain.readExpr_grouped (c : OperatorChain) (start : Int) : ∃ e,
    readExpr c.text start = .ok e ∧
      e.operands = c.first.placed start :: (c.placed start).map (·.2) ∧
      ∀ u, Grouped (c.first.placed start) (c.placed start) u ↔ u = e := by
  have hlinks := OperatorLink.fits_glyphs c.links
  have hfits : Glyph.Fits [] (.token c.first.name.spelling :: c.links.flatMap OperatorLink.glyphs) :=
    .token (c.first.name.isWord.stands (by simpa using hlinks.2)) hlinks.1
  have htext : c.text.toList =
      Glyph.text (.token c.first.name.spelling :: c.links.flatMap OperatorLink.glyphs) := by
    rw [text, String.toList_append, String.toList_join, Glyph.text_token, Glyph.text,
      List.flatMap_assoc, List.flatMap_map]
    exact congrArg _ (List.flatMap_congr fun k _ => k.text_glyphs.symm)
  obtain ⟨us, hus, hbare⟩ := hfits.tokensOf htext start
  obtain ⟨t, ts, rfl, ht, hts⟩ := List.map_eq_cons_iff.1 hbare
  obtain ⟨hspelling, hlo, hhi⟩ := Token.of_bare ht
  have hoperated : Operated t.hi ts (c.placed start) :=
    OperatorLink.operated c.links hts (Int.le_of_eq hhi)
  obtain ⟨e, he, hgrouped⟩ := readExprTokens_operated hspelling hoperated
  rw [c.first.asPath_of_bare ht] at hgrouped
  have hread : readExpr c.text start = .ok e := by
    rw [readExpr, hus]
    exact he
  exact ⟨e, hread, hgrouped.operands rfl (OperatorLink.operands_placed _ _),
    fun u => ⟨fun hu => hu.unique hgrouped, fun hu => hu ▸ hgrouped⟩⟩

example :
    let space : Blanks := ⟨[' '], by decide, by decide⟩
    let name (v : String) (h : IsWord v ∧ v ∉ reserved) : FreeName := ⟨⟨v, h.1⟩, h.2⟩
    let c : OperatorChain := ⟨name "a" (by decide),
      [⟨space, .simple "-" 8 rfl, space, name "b" (by decide)⟩,
       ⟨space, .shift "<" (.inl rfl), space, name "c" (by decide)⟩]⟩
    c.text = "a - b << c" := by decide

end BuilderMigration
