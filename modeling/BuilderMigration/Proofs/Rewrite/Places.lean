import BuilderMigration.Migration.Site
import BuilderMigration.Proofs.Idiom.Lifts
import BuilderMigration.Proofs.Idiom.Nodes
import BuilderMigration.Proofs.Rewrite.Kept

/-! The calls that are kept of a builder, in their places: each is a method call of its tree. -/

namespace BuilderMigration

open Rewrite

/-! ### Calls in their places -/

/-- A method call of a nest with its span and the span of what it is made on. -/
structure Link extends Invocation where
  span : Span
  receiver : Span

/-- A call with its arguments classified. -/
def Link.call (settings : Settings) (l : Link) : BuilderCall := l.toInvocation.call settings

/-- The calls of a nest in their places, leftmost first. -/
def Expr.links : Expr → List Link
  | .methodCall span ty receiver method args =>
    receiver.links ++ [⟨⟨ty, method, args⟩, span, receiver.span⟩]
  | _ => []

/-- The calls of a statement that is a nest with a semicolon. -/
def Stmt.links : Stmt → List Link
  | .semi _ e => e.links
  | .letStmt .. | .expr .. | .item .. => []

variable {settings : Settings} {binding : String} {strict : Bool} {e : Expr} {s : Stmt} {l : Link}
  {chain : BuilderChain} {c : BuilderClosure} {n : Node}

theorem Expr.map_links (e : Expr) : e.links.map Link.toInvocation = e.invocations := by
  induction e using Expr.base?.induct with
  | case1 span ty receiver method args ih => rw [links, invocations, List.map_append, ih]; rfl
  | case2 e he =>
    cases e with
    | methodCall span ty receiver method args => exact (he span ty receiver method args rfl).elim
    | _ => rfl

theorem calls_of_chain? (h : chain? settings strict e = some chain) :
    chain.calls = e.links.map (·.call settings) := by
  obtain ⟨base, -, -, hc⟩ := chain?_eq_some_iff.1 h
  rw [hc, ← e.map_links, List.map_map]
  rfl

theorem calls_of_stmtChain? (h : stmtChain? settings strict s = some chain) :
    chain.calls = s.links.map (·.call settings) := by
  cases s with
  | semi span e => exact calls_of_chain? h
  | _ => cases h

theorem calls_of_closureTail? (h : closureTail? settings binding e = some chain) :
    chain.calls = e.links.map (·.call settings) := by
  rcases closureTail?_eq_some_iff.1 h with h | ⟨hname, rfl⟩
  · exact calls_of_chain? h
  · obtain ⟨span, hpath⟩ := Expr.eq_path_of_name? hname
    rw [hpath]
    rfl

/-- A call stands at or below a node. -/
def Link.In (l : Link) (n : Node) : Prop := ∃ receiver, receiver.span = l.receiver ∧
  .expr (.methodCall l.span l.ty receiver l.method l.args) ∈ n.tree.preorder

theorem Link.In.below {n' : Node} (h : l.In n) (hn : n ∈ n'.tree.preorder) : l.In n' :=
  h.imp fun _ ⟨hspan, hmem⟩ => ⟨hspan, Node.mem_preorder_trans hn hmem⟩

theorem Expr.links_in (e : Expr) : ∀ l ∈ e.links, l.In (.expr e) := by
  induction e using Expr.base?.induct with
  | case1 span ty receiver method args ih =>
    rw [links, List.forall_mem_append, List.forall_mem_singleton]
    constructor
    · intro l hl
      exact (ih l hl).below
        (Node.mem_preorder_of_child List.mem_cons_self (Node.mem_preorder_self (.expr receiver)))
    · exact ⟨receiver, rfl, Node.mem_preorder_self _⟩
  | case2 e he =>
    cases e with
    | methodCall span ty receiver method args => exact (he span ty receiver method args rfl).elim
    | _ => exact fun l hl => absurd hl List.not_mem_nil

theorem Stmt.links_in (s : Stmt) : ∀ l ∈ s.links, l.In (.stmt s) := by
  cases s with
  | semi span e =>
    exact fun l hl => (e.links_in l hl).below
      (Node.mem_preorder_of_child (List.mem_singleton_self _) (Node.mem_preorder_self (.expr e)))
  | _ => exact fun l hl => absurd hl List.not_mem_nil

/-! ### Calls of a closure -/

/-- The statements of a closure. -/
def Expr.bodyStmts : Expr → List Stmt
  | .closure _ _ body _ => body.opened.1
  | _ => []

/-- The calls that a closure ends in. -/
def Expr.bodyLinks : Expr → List Link
  | .closure _ _ body _ => body.opened.2.links
  | _ => []

theorem calls_of_builderClosure? (h : builderClosure? settings e = some c) :
    c.chain.calls = e.bodyLinks.map (·.call settings) := by
  obtain ⟨p, body, captures, rfl, -, htail, -⟩ := builderClosure?_eq_some_iff.1 h
  exact calls_of_closureTail? htail

theorem preludes_of_builderClosure? (h : builderClosure? settings e = some c) :
    c.stmts = e.bodyStmts.map (preludeOf settings c.binding) := by
  obtain ⟨p, body, captures, rfl, -, -, hstmts⟩ := builderClosure?_eq_some_iff.1 h
  exact hstmts

theorem Expr.bodyLinks_in (e : Expr) : ∀ l ∈ e.bodyLinks, l.In (.expr e) := by
  cases e with
  | closure span params body captures =>
    intro l hl
    exact (body.opened.2.links_in l hl).below (Node.mem_preorder_of_child (List.mem_singleton_self _)
      (Expr.mem_preorder_opened (Node.mem_preorder_self _)))
  | _ => exact fun l hl => absurd hl List.not_mem_nil

theorem Expr.mem_preorder_bodyStmts (hs : s ∈ e.bodyStmts) :
    .stmt s ∈ (Node.expr e).tree.preorder := by
  cases e with
  | closure span params body captures =>
    exact Node.mem_preorder_of_child (List.mem_singleton_self _)
      (Expr.mem_preorder_opened_stmt hs (Node.mem_preorder_self _))
  | _ => cases hs

/-! ### Calls that are kept -/

/-- The calls of a statement of a closure if it is a chain on the binding. -/
def Stmt.chainLinks (settings : Settings) (binding : String) (s : Stmt) : List Link :=
  if s.Assigns settings binding then s.links else []

/-- The calls that the closure of a data call ends in, if it has no statements. -/
def Link.dataLinks (settings : Settings) (l : Link) : List Link :=
  match l.args with
  | [e] =>
    match builderClosure? settings e with
    | some data => if data.stmts.isEmpty then e.bodyLinks else []
    | none => []
  | _ => []

/-- The calls of a recognised closure that are kept. -/
def BuilderClosure.keptLinks (settings : Settings) (rules : Rules) (c : BuilderClosure) (e : Expr) :
    List Link :=
  match rules.find? c.builder with
  | none => e.bodyStmts.flatMap (Stmt.chainLinks settings c.binding) ++
      e.bodyLinks.filter fun l => !(settings.required c.builder).contains l.method
  | some .response =>
    match (ResponseVariant.askedBy (c.chain.find? "kind")).payload with
    | none => []
    | some payload =>
      (((e.bodyLinks.find? (·.method = "interaction_response_data")).map
        (Link.dataLinks settings)).getD []).filter
          fun l => !(settings.required payload).contains l.method
  | some rule => e.bodyLinks.filter (rule.keeps ·.method)

/-- The calls that are kept of a builder: all of a chain, and of a closure those that its rule keeps. -/
def Node.keptLinks (settings : Settings) (rules : Rules) : Node → List Link
  | .stmt s => s.links
  | .expr e => ((builderClosure? settings e).map (·.keptLinks settings rules e)).getD []
  | _ => []

theorem calls_preludeOf (s : Stmt) : (preludeOf settings binding s).calls =
    (s.chainLinks settings binding).map (·.call settings) := by
  unfold Stmt.chainLinks
  by_cases hs : s.Assigns settings binding
  · obtain ⟨chain, hchain, hr⟩ := Stmt.assigns_iff.1 hs
    rw [if_pos hs, ← calls_of_stmtChain? hchain, preludeOf, hchain]
    simp only [if_pos hr]
    rfl
  · rw [if_neg hs, preludeOf]
    split
    · next chain hchain =>
      rw [if_neg fun hr => hs (Stmt.assigns_iff.2 ⟨chain, hchain, hr⟩)]
      rfl
    · rfl

theorem responseSetters_call (l : Link) : (responseSetters (some (l.call settings))).getD [] =
    (l.dataLinks settings).map (·.call settings) := by
  unfold Link.dataLinks
  split
  · next e hargs =>
    have hcall : l.call settings = ⟨l.method, [classifyArg settings e]⟩ := by
      rw [Link.call, Invocation.call, hargs]
      rfl
    rw [hcall, classifyArg]
    cases hdata : builderClosure? settings e with
    | none => rfl
    | some data =>
      dsimp only [responseSetters]
      split_ifs
      · exact calls_of_builderClosure? hdata
      · rfl
  · next hargs =>
    have hnone : responseSetters (some (l.call settings)) = none := by
      unfold responseSetters
      split
      · next h => cases h
      · next data h =>
        obtain ⟨e, he, -⟩ := List.map_eq_singleton_iff.1 (congrArg Call.args (Option.some.inj h))
        exact (hargs e he).elim
      · rfl
    rw [hnone]
    rfl

variable {rules : Rules}

/-- The calls that are kept are those of the tree. -/
theorem kept_eq_map (h : builderClosure? settings e = some c) :
    c.kept settings rules = (c.keptLinks settings rules e).map (·.call settings) := by
  have hcalls := calls_of_builderClosure? h
  have hfilter (keep : String → Bool) : (c.chain.calls.filter (keep ·.field)) =
      (e.bodyLinks.filter (keep ·.method)).map (·.call settings) := by
    rw [hcalls, List.filter_map]
    rfl
  unfold BuilderClosure.kept BuilderClosure.keptLinks
  cases rules.find? c.builder with
  | none =>
    rw [preludes_of_builderClosure? h, List.flatMap_map, List.map_append, List.map_flatMap,
      BuilderClosure.setters, hfilter fun field => !(settings.required c.builder).contains field]
    simp only [calls_preludeOf]
  | some rule =>
    cases rule with
    | response =>
      cases (ResponseVariant.askedBy (c.chain.find? "kind")).payload with
      | none => rfl
      | some payload =>
        have hdata : c.chain.find? "interaction_response_data" =
            (e.bodyLinks.find? (·.method = "interaction_response_data")).map (·.call settings) := by
          rw [Chain.find?, hcalls, List.find?_map]
          rfl
        have hsetters : (responseSetters (c.chain.find? "interaction_response_data")).getD [] =
            (((e.bodyLinks.find? (·.method = "interaction_response_data")).map
              (Link.dataLinks settings)).getD []).map (·.call settings) := by
          rw [hdata]
          cases e.bodyLinks.find? (·.method = "interaction_response_data") with
          | none => rfl
          | some l => exact responseSetters_call l
        dsimp only
        rw [hsetters, List.filter_map]
        rfl
    | _ => exact hfilter _

theorem Link.dataLinks_in {e : Expr} (l : Link) (hl : l.In (.expr e)) :
    ∀ l' ∈ l.dataLinks settings, l'.In (.expr e) := by
  intro l' hl'
  obtain ⟨receiver, -, hmem⟩ := hl
  obtain ⟨⟨ty, method, args⟩, span, _⟩ := l
  unfold dataLinks at hl'
  split at hl'
  · next arg hargs =>
    split at hl'
    · split_ifs at hl'
      · refine (arg.bodyLinks_in l' hl').below (Node.mem_preorder_trans hmem ?_)
        refine Node.mem_preorder_of_child ?_ (Node.mem_preorder_self _)
        exact List.mem_cons_of_mem _ (List.mem_map_of_mem (hargs ▸ List.mem_singleton_self _))
      · cases hl'
    · cases hl'
  · cases hl'

theorem BuilderClosure.keptLinks_in (c : BuilderClosure) (e : Expr) :
    ∀ l ∈ c.keptLinks settings rules e, l.In (.expr e) := by
  intro l hl
  unfold keptLinks at hl
  split at hl
  · rcases List.mem_append.1 hl with hl | hl
    · obtain ⟨s, hs, hl⟩ := List.mem_flatMap.1 hl
      unfold Stmt.chainLinks at hl
      split_ifs at hl
      · exact (s.links_in l hl).below (Expr.mem_preorder_bodyStmts hs)
      · cases hl
    · exact e.bodyLinks_in l (List.mem_of_mem_filter hl)
  · split at hl
    · cases hl
    · replace hl := List.mem_of_mem_filter hl
      cases hfind : e.bodyLinks.find? (·.method = "interaction_response_data") with
      | none =>
        rw [hfind] at hl
        cases hl
      | some data =>
        rw [hfind] at hl
        exact data.dataLinks_in (e.bodyLinks_in data (List.mem_of_find?_eq_some hfind)) l hl
  · exact e.bodyLinks_in l (List.mem_of_mem_filter hl)

/-- Each call that is kept of a builder stands below its node. -/
theorem Node.keptLinks_in (settings : Settings) (rules : Rules) (n : Node) :
    ∀ l ∈ n.keptLinks settings rules, l.In n := by
  cases n with
  | stmt s => exact s.links_in
  | expr e =>
    intro l hl
    change l ∈ ((builderClosure? settings e).map (·.keptLinks settings rules e)).getD [] at hl
    cases hc : builderClosure? settings e with
    | none =>
      rw [hc] at hl
      cases hl
    | some c =>
      rw [hc] at hl
      exact c.keptLinks_in e l hl
  | _ => exact fun l hl => absurd hl List.not_mem_nil

/-- The replacement of a builder has all the calls that are kept of it, in their order. -/
theorem Node.carries_keptLinks {p : Plan} {work : Rewrite String} {text : String} {d : Draft}
    (h : n.builder? p = some work) (hrun : work { ctxt := n.span.ctxt } = (.ok text, d)) :
    Carries ((n.keptLinks p.workshop.settings p.rules).map fun l =>
      p.workshop.callText p.rules n.span.ctxt (l.call p.workshop.settings)) text := by
  cases n with
  | stmt s =>
    obtain ⟨chain, hchain, rfl⟩ := Option.map_eq_some_iff.1 h
    have hcalls := Workshop.carries_chain hrun
    rwa [calls_of_stmtChain? hchain, List.map_map] at hcalls
  | expr e =>
    obtain ⟨c, hc, rfl⟩ := Option.map_eq_some_iff.1 h
    have hspan : c.span = e.span := by
      obtain ⟨_, _, _, rfl, -⟩ := builderClosure?_eq_some_iff.1 hc
      rfl
    have hkept := Workshop.carries_kept hrun
    rw [kept_eq_map hc, List.map_map, hspan] at hkept
    have hlinks : (Node.expr e).keptLinks p.workshop.settings p.rules =
        c.keptLinks p.workshop.settings p.rules e := by
      simp only [keptLinks, hc, Option.map_some, Option.getD_some]
    rwa [hlinks]
  | _ => cases h

end BuilderMigration
