import BuilderMigration.Migration.Run
import BuilderMigration.Proofs.Grammar.Reading
import BuilderMigration.Proofs.Tree.Outermost
import BuilderMigration.Proofs.Typing.Resolve

/-! The walk through a file finds the outermost builders, each as it is on its own: what the walk
carries along never shows. -/

namespace BuilderMigration

variable {p : Plan} {n : Node} {w : Walk} {ts : List Token} {lo hi : Int}

/-! ### One node -/

/-- What a classification finds and what it leaves in the context. -/
theorem Node.classify_apply (p : Plan) (n : Node) (c : Context) :
    n.classify p c = match n.builder? p with
      | none => (.ok none, { c with notes := [] })
      | some work => match work { ctxt := n.span.ctxt } with
        | (.ok text, d) => (.ok (some ⟨n.span, text⟩), ⟨d.notes, c.consulted || d.consulted⟩)
        | (.error v, d) => (.error v, ⟨[], c.consulted || d.consulted⟩) := by
  unfold Node.classify
  cases n.builder? p with
  | none => rfl
  | some work =>
    change (match Attempt.rewrite n.span work { c with notes := [] } with
      | (r, c) => ExceptT.bindCont (m := StateM Context) (fun r => pure (some r)) r c) = _
    simp only [Attempt.rewrite]
    rcases work { ctxt := n.span.ctxt } with ⟨_ | _, d⟩ <;> rfl

/-- What a node turns out to be does not depend on what was rewritten before it. -/
theorem Site.ofAttempt?_classify (p : Plan) (n : Node) (c : Context) :
    Site.ofAttempt? n (n.classify p c) = Site.ofAttempt? n (n.classify p {}) := by
  rw [Node.classify_apply, Node.classify_apply]
  cases n.builder? p with
  | none => rfl
  | some work =>
    dsimp only
    rcases work { ctxt := n.span.ctxt } with ⟨_ | _, d⟩ <;> rfl

/-- A site stands where its node does. -/
theorem Site.span_of_ofNode? {site : Site} (h : Site.ofNode? p n = some site) :
    site.span = n.span := by
  unfold Site.ofNode? at h
  split at h
  · rw [Node.classify_apply] at h
    cases hb : n.builder? p with
    | none => simp [hb, Site.ofAttempt?] at h
    | some work =>
      rw [hb] at h
      dsimp only at h
      rcases hw : work { ctxt := n.span.ctxt } with ⟨_ | _, d⟩ <;> rw [hw] at h <;> cases h <;> rfl
  · cases h

/-- A node that is no site leaves the walk as it is, but for its context. -/
theorem Walk.tryNode_of_none (h : Site.ofNode? p n = none) (w : Walk) :
    ∃ c, w.tryNode p n = (false, { w with context := c }) := by
  unfold Site.ofNode? at h
  unfold Walk.tryNode
  split
  · next hn =>
    rw [if_pos hn, ← Site.ofAttempt?_classify p n w.context] at h
    simp only [h]
    exact ⟨_, rfl⟩
  · exact ⟨w.context, rfl⟩

/-- A site is recorded as it is on its own. -/
theorem Walk.tryNode_of_some {site : Site} (h : Site.ofNode? p n = some site) (w : Walk) :
    ∃ c, w.tryNode p n = (true, ⟨c, w.excluded ++ [site.span], w.sites ++ [site]⟩) := by
  unfold Site.ofNode? at h
  unfold Walk.tryNode
  split
  · next hn =>
    rw [if_pos hn, ← Site.ofAttempt?_classify p n w.context] at h
    simp only [h]
    exact ⟨_, rfl⟩
  · next hn =>
    rw [if_neg hn] at h
    cases h

/-! ### The walk -/

/-- The walk is done with nothing behind a position. -/
def Walk.Before (w : Walk) (pos : Int) : Prop := ∀ done ∈ w.excluded, done.hi ≤ pos

theorem Walk.Before.mono {pos pos' : Int} (h : w.Before pos) (hp : pos ≤ pos') : w.Before pos' :=
  fun done hd => Int.le_trans (h done hd) hp

/-- Text behind everything that the walk is done with is not excluded. -/
theorem Walk.Before.excludes_eq_false {s : Span} (h : w.Before s.lo) (hs : s.lo < s.hi) :
    w.excludes s = false := by
  rw [Walk.excludes, List.any_eq_false]
  intro done hd hc
  have := h done hd
  simp only [Span.contains, Bool.and_eq_true, decide_eq_true_eq] at hc
  omega

mutual

/-- The nodes that a walk comes to, each with the walk as it is there. -/
def Rose.arrivals (p : Plan) (w : Walk) : Rose Node → List (Node × Walk)
  | .node n ts =>
    (n, w) :: if w.excludes n.span then []
      else match w.tryNode p n with
        | (true, _) => []
        | (false, w) => Rose.arrivalsAll p w ts

def Rose.arrivalsAll (p : Plan) (w : Walk) : List (Rose Node) → List (Node × Walk)
  | [] => []
  | t :: ts => t.arrivals p w ++ Rose.arrivalsAll p (t.visit p w) ts

end

/-- What a walk through trees has done: it has found their outermost sites, it stays in front of the
end of the last tree, and nothing it came to was excluded. -/
structure Walk.Done (p : Plan) (w w' : Walk) (found : List Site) (arrivals : List (Node × Walk))
    (pos : Int) : Prop where
  sites : w'.sites = w.sites ++ found
  before : w'.Before pos
  reached : ∀ a ∈ arrivals, a.2.excludes a.1.span = false

mutual

theorem Rose.visit_done : ∀ (t : Rose Node) (w : Walk), t.Laminar ts → w.Before t.span.lo →
    w.Done p (t.visit p w) (t.outermost (Site.ofNode? p)) (t.arrivals p w) t.span.hi
  | .node n kids, w, hl, hw => by
    rw [Rose.Laminar] at hl
    have hex : w.excludes n.span = false := hw.excludes_eq_false hl.1.lt
    rw [Rose.visit, Rose.arrivals, hex, if_neg Bool.false_ne_true, if_neg Bool.false_ne_true]
    cases hs : Site.ofNode? p n with
    | some site =>
      obtain ⟨c, hc⟩ := Walk.tryNode_of_some hs w
      rw [hc, Rose.outermost_of_some hs]
      refine ⟨rfl, fun done hd => ?_, by simpa using hex⟩
      obtain hd | hd := List.mem_append.1 hd
      · have hd : done.hi ≤ n.span.lo := hw done hd
        exact Int.le_trans hd (Int.le_of_lt hl.1.lt)
      · rw [List.mem_singleton.1 hd, Site.span_of_ofNode? hs]
        exact Int.le_refl _
    | none =>
      obtain ⟨c, hc⟩ := Walk.tryNode_of_none hs w
      rw [hc, Rose.outermost_of_none hs]
      have ih := Rose.visitAll_done kids { w with context := c } n.span.lo n.span.hi hl.2 hw
      exact ⟨ih.sites, ih.before, List.forall_mem_cons.2 ⟨hex, ih.reached⟩⟩

theorem Rose.visitAll_done : ∀ (trees : List (Rose Node)) (w : Walk) (lo hi : Int),
    Laid ts lo trees hi → w.Before lo →
    w.Done p (Rose.visitAll p w trees) (Rose.outermostAll (Site.ofNode? p) trees)
      (Rose.arrivalsAll p w trees) hi
  | [], w, lo, hi, hl, hw => by
    rw [Rose.visitAll, Rose.arrivalsAll]
    exact ⟨(List.append_nil _).symm, hw.mono (Laid.nil_iff.1 hl), nofun⟩
  | t :: trees, w, lo, hi, hl, hw => by
    obtain ⟨h₁, h₂, h₃⟩ := Laid.cons_iff.1 hl
    have hfirst := Rose.visit_done t w h₂ (hw.mono h₁)
    have hrest := Rose.visitAll_done trees (t.visit p w) t.span.hi hi h₃ hfirst.before
    rw [Rose.visitAll, Rose.arrivalsAll, Rose.outermostAll_cons]
    refine ⟨?_, hrest.before, fun a ha => ?_⟩
    · rw [hrest.sites, hfirst.sites, List.append_assoc]
    · obtain ha | ha := List.mem_append.1 ha
      · exact hfirst.reached a ha
      · exact hrest.reached a ha

end

/-! ### Files -/

variable {code file : String} {m : Module}

/-- The walk through a file, whatever its root. -/
theorem Module.walk_done (hl : Laid ts lo (itemTrees m.items) hi) (p : Plan) :
    Walk.Done p {} (m.walk p) (m.tree.outermost (Site.ofNode? p)) (m.tree.arrivals p {}) hi := by
  have hroot : Site.ofNode? p (.module m) = none := rfl
  obtain ⟨c, hc⟩ := Walk.tryNode_of_none hroot {}
  have ih := Rose.visitAll_done (p := p) (itemTrees m.items) { context := c } lo hi hl nofun
  rw [Module.walk, Module.tree, Rose.outermost_of_none hroot, Rose.visit, Rose.arrivals, hc]
  exact ⟨ih.sites, ih.before, List.forall_mem_cons.2 ⟨rfl, ih.reached⟩⟩

/-- The diagnostics of a file are those of its outermost sites in preorder, each as a look at its
node alone has it, and the walk never comes to a node that it is done with. -/
theorem Module.findings_outermost (start : Nat) (h : readModule code start file = .ok m)
    (settings : Settings) (p : Plan) :
    ((m.resolved settings).findings p).diagnostics =
        ((m.resolved settings).tree.outermost (Site.ofNode? p)).map
          (·.diagnostic p.workshop.sources) ∧
      (∀ n c, Site.ofAttempt? n (n.classify p c) = Site.ofAttempt? n (n.classify p {})) ∧
      ∀ a ∈ (m.resolved settings).tree.arrivals p {}, a.2.excludes a.1.span = false := by
  obtain ⟨-, -, ts, -, hl⟩ := readModule_laid h (Int.natCast_nonneg start)
  have hdone := Module.walk_done (Module.resolved_laid settings hl) p
  refine ⟨?_, Site.ofAttempt?_classify p, hdone.reached⟩
  rw [Module.findings]
  exact congrArg (List.map _) hdone.sites

/-! ### A single text -/

theorem eq_ok_of_toOption {ε α : Type} {r : Except ε α} {a : α} (h : r.toOption = some a) :
    r = .ok a := by
  cases r with
  | error e => cases h
  | ok b => exact congrArg Except.ok (Option.some.inj h)

theorem exists_of_toOption_map {ε α β : Type} {r : Except ε α} {f : α → β} {b : β}
    (h : r.toOption.map f = some b) : ∃ a, r = .ok a ∧ f a = b := by
  obtain ⟨a, ha, hb⟩ := Option.map_eq_some_iff.1 h
  exact ⟨a, eq_ok_of_toOption ha, hb⟩

/-- A node that is found in the tree of a text. -/
theorem exists_node {α : Type} {code path : String} {settings : Settings} {look : Node → Option α}
    {a : α} (h : ((readModule code 1 path).toOption.bind fun m =>
      (m.resolved settings).tree.preorder.findSome? look) = some a) :
    ∃ m, readModule code 1 path = .ok m ∧
      ∃ x ∈ (m.resolved settings).tree.preorder, look x = some a := by
  obtain ⟨m, hm, hfind⟩ := Option.bind_eq_some_iff.1 h
  exact ⟨m, eq_ok_of_toOption hm, List.exists_of_findSome?_eq_some hfind⟩

/-- What the migration of a single text draws on. -/
def Plan.alone (settings : Settings) (rules : Rules) (path code : String) : Plan :=
  ⟨⟨(SourceMap.read {} path code).2, settings⟩, rules⟩

/-- A builder below another is no site. -/
theorem Module.findings_outermost_nested : ∃ m p,
    readModule "fn f(c: ChannelId) { c.send_message(|m| m.embed(|e| e)); }" 1 "a.rs" = .ok m ∧
      p = .alone {} {} "a.rs" "fn f(c: ChannelId) { c.send_message(|m| m.embed(|e| e)); }" ∧
      ((m.resolved {}).findings p).diagnostics.length = 1 ∧
      ((m.resolved {}).findings p).diagnostics =
        ((m.resolved {}).tree.outermost (Site.ofNode? p)).map
          (·.diagnostic p.workshop.sources) := by
  generalize htext : "fn f(c: ChannelId) { c.send_message(|m| m.embed(|e| e)); }" = text
  have hlength : (readModule text 1 "a.rs").toOption.map (fun m =>
      ((m.resolved {}).findings (.alone {} {} "a.rs" text)).diagnostics.length) = some 1 := by
    rw [← htext]
    decide +kernel
  obtain ⟨m, h, hlength⟩ := exists_of_toOption_map hlength
  obtain ⟨houtermost, -⟩ := Module.findings_outermost 1 h {} (.alone {} {} "a.rs" text)
  exact ⟨m, _, h, rfl, hlength, houtermost⟩

end BuilderMigration
