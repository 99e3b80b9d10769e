import BuilderMigration.Proofs.Idiom.Strictness
import BuilderMigration.Proofs.Migration.Again
import BuilderMigration.Proofs.Shift.Reading
import BuilderMigration.Proofs.Idiom.Agree

/-! A migration that does not ask for known receivers reports at least as much text: whatever is
reported where they are asked for lies within something that is reported where they are not. -/

namespace BuilderMigration

variable {ts : List Token} {lo hi : Int} {β : Type} {f : Node → Option β}

/-! ### Outermost matches -/

mutual

/-- A match is an outermost one or lies within one. -/
theorem Rose.Laminar.exists_outermost : ∀ {t : Rose Node}, t.Laminar ts →
    ∀ n ∈ t.preorder, (f n).isSome = true →
      ∃ a, ∃ b ∈ t.outermost f, f a = some b ∧ a.span.contains n.span = true
  | .node a kids, hl, n, hn, hf => by
    cases hfa : f a with
    | some b =>
      obtain ⟨-, hlo, hhi⟩ := hl.inside n hn
      refine ⟨a, b, ?_, hfa, ?_⟩
      · rw [Rose.outermost_of_some hfa, List.mem_singleton]
      · simpa [Span.contains] using ⟨hlo, hhi⟩
    | none =>
      rw [Rose.Laminar] at hl
      rw [Rose.preorder, List.mem_cons] at hn
      rw [Rose.outermost_of_none hfa]
      rcases hn with rfl | hn
      · rw [hfa] at hf
        cases hf
      · exact Laid.exists_outermost hl.2 n hn hf

theorem Laid.exists_outermost {lo hi : Int} : ∀ {trees : List (Rose Node)}, Laid ts lo trees hi →
    ∀ n ∈ Rose.preorders trees, (f n).isSome = true →
      ∃ a, ∃ b ∈ Rose.outermostAll f trees, f a = some b ∧ a.span.contains n.span = true
  | [], _, _, hn, _ => nomatch hn
  | t :: trees, hl, n, hn, hf => by
    obtain ⟨-, ht, htrees⟩ := Laid.cons_iff.1 hl
    rw [Rose.outermostAll_cons]
    rw [Rose.preorders, List.mem_append] at hn
    rcases hn with hn | hn
    · obtain ⟨a, b, hb, hab⟩ := Rose.Laminar.exists_outermost ht n hn hf
      exact ⟨a, b, List.mem_append_left _ hb, hab⟩
    · obtain ⟨a, b, hb, hab⟩ := Laid.exists_outermost htrees n hn hf
      exact ⟨a, b, List.mem_append_right _ hb, hab⟩

end

/-! ### Sites -/

variable {code file : String} {m : Module} {settings : Settings} {sources : SourceMap} {rules : Rules}

/-- A plan under strict settings. -/
abbrev Plan.strict (sources : SourceMap) (settings : Settings) (rules : Rules) : Plan :=
  ⟨⟨sources, settings.strict⟩, rules⟩

/-- The same plan under lax settings. -/
abbrev Plan.lax (sources : SourceMap) (settings : Settings) (rules : Rules) : Plan :=
  ⟨⟨sources, settings.lax⟩, rules⟩

/-- Whatever is a builder under the strict plan is one under the lax plan. -/
theorem Node.builder?_lax {n : Node} (h : (n.builder? (.strict sources settings rules)).isSome = true) :
    (n.builder? (.lax sources settings rules)).isSome = true := by
  cases n with
  | stmt s =>
    simp only [builder?, Option.isSome_map] at h ⊢
    have hrel := Expr.Relaxes.stmtChain? (s := s) (fun span e _ => e.relaxes settings) true
    generalize stmtChain? settings.strict true s = a at h hrel
    generalize stmtChain? settings.lax true s = b at hrel ⊢
    cases hrel with
    | some _ => rfl
    | none => exact h
  | expr e =>
    simp only [builder?, Option.isSome_map] at h ⊢
    obtain ⟨c, hc⟩ := Option.isSome_iff_exists.1 h
    obtain ⟨c', hc', -⟩ := (e.relaxes settings).2 c hc
    rw [hc', Option.isSome_some]
  | item i => exact h
  | module m => exact h

theorem Site.ofNode?_isSome (p : Plan) (n : Node) :
    (Site.ofNode? p n).isSome = (n.builder? p).isSome := by
  rw [Site.ofNode?_eq, Option.isSome_map, Option.isSome_map]

theorem Settings.typesAlike_lax (settings : Settings) : settings.strict.TypesAlike settings.lax :=
  ⟨rfl, rfl, rfl⟩

/-- Every site under the strict plan lies within a site under the lax plan. -/
theorem Module.sites_lax (hl : Laid ts lo (itemTrees m.items) hi) {site : Site}
    (hs : site ∈ (m.resolved settings.strict).sites (.strict sources settings rules)) :
    ∃ site' ∈ (m.resolved settings.lax).sites (.lax sources settings rules),
      site'.span.contains site.span = true := by
  rw [m.resolved_congr settings.typesAlike_lax] at hs
  have hlaid := m.resolved_laid settings.lax hl
  generalize m.resolved settings.lax = m at hs hlaid
  have hsites (p : Plan) : m.sites p = m.tree.outermost (Site.ofNode? p) :=
    (Module.walk_done hlaid p).sites
  rw [hsites] at hs ⊢
  obtain ⟨n, hn, hsite⟩ := Rose.exists_mem_of_mem_outermost hs
  have hroot (p : Plan) : Site.ofNode? p (.module m) = none := rfl
  have hbelow : n ∈ Rose.preorders (itemTrees m.items) := by
    rw [Module.tree, Rose.preorder, List.mem_cons] at hn
    rcases hn with rfl | hn
    · cases hsite
    · exact hn
  have hlax : (Site.ofNode? (.lax sources settings rules) n).isSome = true := by
    rw [Site.ofNode?_isSome]
    refine Node.builder?_lax ?_
    rw [← Site.ofNode?_isSome, hsite, Option.isSome_some]
  obtain ⟨a, site', hmem, ha, hin⟩ := hlaid.exists_outermost n hbelow hlax
  refine ⟨site', ?_, ?_⟩
  · rw [Module.tree, Rose.outermost_of_none (hroot _)]
    exact hmem
  · rwa [Site.span_of_ofNode? ha, Site.span_of_ofNode? hsite]

/-- So do the ranges that a migration reports. -/
theorem Module.diagnostics_lax (h : readModule code 1 file = .ok m) {d : Diagnostic}
    (hd : d ∈ ((m.resolved settings.strict).findings
      (.alone settings.strict rules file code)).diagnostics) :
    ∃ d' ∈ ((m.resolved settings.lax).findings (.alone settings.lax rules file code)).diagnostics,
      d'.start ≤ d.start ∧ d.stop ≤ d'.stop := by
  obtain ⟨site, hs, rfl⟩ := List.mem_map.1 hd
  obtain ⟨-, -, ts, -, hl⟩ := readModule_laid h (by omega)
  obtain ⟨site', hs', hin⟩ := Module.sites_lax hl hs
  refine ⟨_, List.mem_map_of_mem hs', ?_⟩
  obtain ⟨hstart, hstop⟩ := Site.diagnostic_range (file?_site h settings.strict rules hs)
    ((row_alone h settings.strict rules).written site hs).1
  obtain ⟨hstart', hstop'⟩ := Site.diagnostic_range (file?_site h settings.lax rules hs')
    ((row_alone h settings.lax rules).written site' hs').1
  simp only [Span.contains, Bool.and_eq_true, decide_eq_true_eq] at hin
  omega

/-- Asking for known receivers only takes recognition away. Where they need not be known, the types
are the same, every builder closure is one with the same shape, and perhaps more closures among its
arguments, statements are the same chains, and every reported range lies within a reported one. -/
theorem Module.strictness_monotone (start : Nat) (h : readModule code start file = .ok m)
    (settings : Settings) :
    m.resolved settings.strict = m.resolved settings.lax ∧
      (∀ e c, builderClosure? settings.strict e = some c →
        ∃ c', builderClosure? settings.lax e = some c' ∧ Closure.Alike Arg.Relaxes c c') ∧
      (∀ s, Option.Rel (Chain.Alike Arg.Relaxes) (stmtChain? settings.strict true s)
        (stmtChain? settings.lax true s)) ∧
      (∀ sources rules, ∀ site ∈ (m.resolved settings.strict).sites (.strict sources settings rules),
        ∃ site' ∈ (m.resolved settings.lax).sites (.lax sources settings rules),
          site'.span.contains site.span = true) ∧
      ∀ rules, ∃ r r', BuilderMigration.migrate settings.strict rules file code = .ok r ∧
        BuilderMigration.migrate settings.lax rules file code = .ok r' ∧
        ∀ d ∈ r.result.diagnostics, ∃ d' ∈ r'.result.diagnostics,
          d'.start ≤ d.start ∧ d.stop ≤ d'.stop := by
  obtain ⟨-, -, ts, -, hl⟩ := readModule_laid h (Int.natCast_nonneg start)
  have hfirst : readModule code 1 file = .ok (m.shift (1 - start)) := by
    have hshift := readModule_shift code file start (1 - start)
    rw [h, show (start : Int) + (1 - start) = 1 by omega] at hshift
    exact hshift
  refine ⟨m.resolved_congr settings.typesAlike_lax, fun e => (e.relaxes settings).2,
    fun s => Expr.Relaxes.stmtChain? (fun _ e _ => e.relaxes settings) true,
    fun sources rules site hs => Module.sites_lax hl hs, fun rules => ?_⟩
  exact ⟨_, _, Module.migrate_eq hfirst settings.strict rules, Module.migrate_eq hfirst settings.lax rules,
    fun d hd => Module.diagnostics_lax hfirst hd⟩

/-- A closure on a name of no known type: one more site where this is allowed. -/
theorem Module.strictness_monotone_unknown : ∃ m,
    readModule "fn f(c: ChannelId) { c.send_message(|m| m.embed(|e| e)); c.send_message(|m| y.nonce(1)); }"
        1 "a.rs" = .ok m ∧
      ((m.resolved (Settings.strict {})).sites (.strict {} {} {})).length = 1 ∧
      ((m.resolved (Settings.lax {})).sites (.lax {} {} {})).length = 2 ∧
      ∀ site ∈ (m.resolved (Settings.strict {})).sites (.strict {} {} {}),
        ∃ site' ∈ (m.resolved (Settings.lax {})).sites (.lax {} {} {}),
          site'.span.contains site.span = true := by
  generalize htext :
    "fn f(c: ChannelId) { c.send_message(|m| m.embed(|e| e)); c.send_message(|m| y.nonce(1)); }" = text
  have hlength : (readModule text 1 "a.rs").toOption.map (fun m =>
      (((m.resolved (Settings.strict {})).sites (.strict {} {} {})).length,
        ((m.resolved (Settings.lax {})).sites (.lax {} {} {})).length)) = some (1, 2) := by
    rw [← htext]
    decide +kernel
  obtain ⟨m, h, hlength⟩ := exists_of_toOption_map hlength
  obtain ⟨hstrict, hlax⟩ := Prod.mk.inj hlength
  obtain ⟨-, -, -, hsites, -⟩ := Module.strictness_monotone 1 h {}
  exact ⟨m, h, hstrict, hlax, hsites {} {}⟩

end BuilderMigration
