import BuilderMigration.Proofs.Migration.Report
import BuilderMigration.Proofs.Rewrite.Total
import BuilderMigration.Proofs.Tree.Nesting

/-! Migrating a text once more. Arguments and statements that are no builders are copied as they are
written, with the builders in them, so the text that comes out of a migration may well have builders
to rewrite; here is when it has none. -/

namespace BuilderMigration

open Rewrite (GivesUp)

variable {p : Plan} {n : Node} {work : Rewrite String} {site : Site} {sources : SourceMap}
  {f : SourceFile} {code path : String} {m : Module} {settings : Settings} {rules : Rules}
  {r : Migrated}

/-! ### Builders -/

/-- The outermost builders of a file, each with its rewrite. -/
def Module.builders (p : Plan) (m : Module) : List (Node × Rewrite String) :=
  m.tree.outermost fun n => (n.builder? p).map (n, ·)

/-- Every builder of a file is a node of it that stands where the layout has it. -/
theorem Module.builders_laminar {b : Node × Rewrite String} {ts : List Token} {lo hi : Int}
    (hl : Laid ts lo (itemTrees m.items) hi) (hb : b ∈ m.builders p) :
    b.1.builder? p = some b.2 ∧ b.1 ∈ Rose.preorders (itemTrees m.items) ∧ b.1.tree.Laminar ts := by
  obtain ⟨n, hmem, hn⟩ := Rose.exists_mem_of_mem_outermost hb
  obtain ⟨work, hwork, rfl⟩ := Option.map_eq_some_iff.1 hn
  rw [Module.tree, Rose.preorder, List.mem_cons] at hmem
  rcases hmem with rfl | hmem
  · cases hwork
  · exact ⟨hwork, hmem, Laid.below m.children_trees hl n hmem⟩

/-- A closure that configures a builder whose own rule gives up on it. -/
inductive Node.Declined (p : Plan) : Node → Prop
  | closure {e : Expr} {c : BuilderClosure} {rule : Rule}
      (hc : builderClosure? p.workshop.settings e = some c)
      (hr : p.rules.find? c.builder = some rule)
      (h : GivesUp (rule.apply p.workshop (p.workshop.readyClosure p.rules c))
        { ctxt := c.span.ctxt, consulted := true }) :
      Declined p (.expr e)

/-- The rewrite of a builder gives up on closures with a rule only. -/
theorem Node.givesUp_iff_declined (h : n.builder? p = some work) :
    GivesUp work { ctxt := n.span.ctxt } ↔ n.Declined p := by
  cases n with
  | stmt s =>
    obtain ⟨c, -, rfl⟩ := Option.map_eq_some_iff.1 h
    exact ⟨fun hg => absurd hg ((p.workshop.total_chainStmt _).not_givesUp _), nofun⟩
  | expr e =>
    obtain ⟨c, hc, rfl⟩ := Option.map_eq_some_iff.1 h
    rw [Workshop.rewriteClosure_givesUp_iff]
    constructor
    · rintro ⟨rule, hr, hg⟩
      exact .closure hc hr hg
    · rintro ⟨hc', hr, hg⟩
      obtain rfl := Option.some.inj (hc.symm.trans hc')
      exact ⟨_, hr, hg⟩
  | item i => cases h
  | module m => cases h

theorem Node.isCandidate_of_builder? (h : n.builder? p = some work) : n.isCandidate = true := by
  cases n with
  | stmt s => rfl
  | expr e =>
    obtain ⟨c, hc, -⟩ := Option.map_eq_some_iff.1 h
    cases e with
    | closure => rfl
    | _ => simp [builderClosure?] at hc
  | item i => cases h
  | module m => cases h

/-! ### Sites -/

/-- The site that a builder is. -/
def Site.ofBuilder (b : Node × Rewrite String) : Site :=
  match b.2 { ctxt := b.1.span.ctxt } with
  | (.ok text, d) => ⟨b.1.span, .ok text, d.notes⟩
  | (.error v, _) => ⟨b.1.span, .error v, []⟩

theorem Site.ofBuilder_refused_iff (b : Node × Rewrite String) :
    (∃ v, (ofBuilder b).outcome = .error v) ↔ GivesUp b.2 { ctxt := b.1.span.ctxt } := by
  unfold ofBuilder GivesUp
  rcases b.2 { ctxt := b.1.span.ctxt } with ⟨v | text, d⟩
  · exact ⟨fun _ => ⟨v, d, rfl⟩, fun _ => ⟨v, rfl⟩⟩
  · exact ⟨fun ⟨_, h⟩ => (nomatch h), fun ⟨_, _, h⟩ => (nomatch h)⟩

theorem Site.ofNode?_eq (p : Plan) (n : Node) :
    ofNode? p n = ((n.builder? p).map (n, ·)).map ofBuilder := by
  unfold ofNode?
  rw [Node.classify_apply]
  cases hb : n.builder? p with
  | none => simp [ofAttempt?]
  | some work =>
    rw [if_pos (Node.isCandidate_of_builder? hb)]
    dsimp only [Option.map_some, ofBuilder]
    rcases work { ctxt := n.span.ctxt } with ⟨v | text, d⟩ <;> rfl

/-- Within a file just the sites that were given up have no suggestion. -/
theorem Site.suggestion_eq_none_iff (hf : sources.file? site.span.lo = some f)
    (hc : site.span.ctxt = 0) (hlt : site.span.lo < site.span.hi) (hle : site.span.hi ≤ f.stop) :
    (site.diagnostic sources).suggestion = none ↔ ∃ v, site.outcome = .error v := by
  obtain ⟨snippet, hs⟩ := SourceMap.exists_snippet hf hc hlt hle
  simp only [diagnostic, Expansions.walk_of_written _ hc, hf, hs]
  cases site.outcome with
  | error v => simp
  | ok text => simp

namespace Module

variable (h : readModule code 1 path = .ok m) (settings : Settings) (rules : Rules)

include h

theorem sites_eq_builders (p : Plan) :
    (m.resolved settings).sites p = ((m.resolved settings).builders p).map Site.ofBuilder := by
  obtain ⟨-, -, ts, -, hl⟩ := readModule_laid h (by omega)
  rw [builders, ← Rose.outermost_map, ← funext (Site.ofNode?_eq p)]
  exact (walk_done (resolved_laid settings hl) p).sites

theorem suggestion_eq_none_iff {b : Node × Rewrite String}
    (hb : b ∈ (m.resolved settings).builders (.alone settings rules path code)) :
    ((Site.ofBuilder b).diagnostic (Plan.alone settings rules path code).workshop.sources).suggestion
        = none ↔ b.1.Declined (.alone settings rules path code) := by
  have hs : Site.ofBuilder b ∈ (m.resolved settings).sites (.alone settings rules path code) := by
    rw [sites_eq_builders h]
    exact List.mem_map_of_mem hb
  have hrow := row_alone h settings rules
  have hwritten := hrow.written _ hs
  have hle : (Site.ofBuilder b).span.hi ≤ (⟨path, code.toList, 1⟩ : SourceFile).stop := by
    rw [SourceFile.stop, String.length_toList]
    exact (hrow.inside _ hs).2
  obtain ⟨n, hn⟩ := Rose.exists_of_mem_outermost hb
  obtain ⟨work, hwork, rfl⟩ := Option.map_eq_some_iff.1 hn
  rw [Site.suggestion_eq_none_iff (file?_site h settings rules hs) hwritten.1 hwritten.2 hle,
    Site.ofBuilder_refused_iff, Node.givesUp_iff_declined hwork]

/-- There is nothing to suggest just where every outermost builder is declined. -/
theorem suggestions_eq_nil_iff :
    ((m.resolved settings).findings (.alone settings rules path code)).diagnostics.filterMap
        (·.suggestion) = [] ↔
      ∀ b ∈ (m.resolved settings).builders (.alone settings rules path code),
        b.1.Declined (.alone settings rules path code) := by
  have hdiagnostics : ((m.resolved settings).findings (.alone settings rules path code)).diagnostics =
      ((m.resolved settings).sites (.alone settings rules path code)).map
        (·.diagnostic (Plan.alone settings rules path code).workshop.sources) := rfl
  rw [hdiagnostics, sites_eq_builders h, List.filterMap_eq_nil_iff, List.forall_mem_map,
    List.forall_mem_map]
  exact forall₂_congr fun b hb => suggestion_eq_none_iff h settings rules hb

end Module

/-! ### Runs -/

theorem applyEdits_nil (code : String) : applyEdits code [] = code := by
  simp [applyEdits]

/-- A text that a migration leaves as it is, with nothing to suggest. -/
def Settled (settings : Settings) (rules : Rules) (path code : String) : Prop :=
  ∃ r, migrate settings rules path code = .ok r ∧ r.result.success = true ∧
    r.result.code = code ∧ r.result.suggestions = []

/-- A run that succeeds has read its text. -/
theorem exists_module_of_success (h : migrate settings rules path code = .ok r)
    (hs : r.result.success = true) : ∃ m, readModule code 1 path = .ok m := by
  rw [migrate_eq_match] at h
  cases hm : readModule code 1 path with
  | ok m => exact ⟨m, rfl⟩
  | error failure =>
    rw [hm] at h
    cases failure with
    | rejected e =>
      obtain rfl := Except.ok.inj h
      cases hs
    | cutStatement => cases h
    | endless => cases h

/-- A text is settled just if it can be read and every outermost builder in it is a closure that the
rule of its builder gives up on. -/
theorem settled_iff : Settled settings rules path code ↔
    ∃ m, readModule code 1 path = .ok m ∧
      ∀ b ∈ (m.resolved settings).builders (.alone settings rules path code),
        b.1.Declined (.alone settings rules path code) := by
  constructor
  · rintro ⟨r, hr, hs, -, hnone⟩
    obtain ⟨m, hm⟩ := exists_module_of_success hr hs
    rw [Module.migrate_eq hm] at hr
    obtain rfl := Except.ok.inj hr
    exact ⟨m, hm, (Module.suggestions_eq_nil_iff hm settings rules).1 hnone⟩
  · rintro ⟨m, hm, hdeclined⟩
    have hnone := (Module.suggestions_eq_nil_iff hm settings rules).2 hdeclined
    refine ⟨_, Module.migrate_eq hm settings rules, rfl, ?_, hnone⟩
    dsimp only [Findings.edited]
    rw [hnone, List.map_nil, applyEdits_nil]

/-- A run without a suggestion settles its text. -/
theorem settled_of_suggestions_eq_nil (h : migrate settings rules path code = .ok r)
    (hs : r.result.success = true) (hnone : r.result.suggestions = []) :
    Settled settings rules path r.result.code := by
  obtain ⟨m, hm⟩ := exists_module_of_success h hs
  have hsame : r.result.code = code := by
    rw [Module.migrate_eq hm] at h
    obtain rfl := Except.ok.inj h
    change ((m.resolved settings).findings _).diagnostics.filterMap (·.suggestion) = [] at hnone
    dsimp only [Findings.edited]
    rw [hnone, List.map_nil, applyEdits_nil]
  exact ⟨r, hsame.symm ▸ h, hs, rfl, hnone⟩

/-- A text whose migration, where it succeeds, leaves nothing to a second run. -/
def MigratesOnce (settings : Settings) (rules : Rules) (path code : String) : Prop :=
  ∀ r, migrate settings rules path code = .ok r → r.result.success = true →
    Settled settings rules path r.result.code

/-- One run is enough just if it has nothing to suggest, or if what it returns can be read and every
outermost builder in it is a closure that the rule of its builder gives up on. -/
theorem migratesOnce_iff (settings : Settings) (rules : Rules) (path code : String) :
    MigratesOnce settings rules path code ↔
      ∀ r, migrate settings rules path code = .ok r → r.result.success = true →
        r.result.suggestions ≠ [] → ∃ m, readModule r.result.code 1 path = .ok m ∧
          ∀ b ∈ (m.resolved settings).builders (.alone settings rules path r.result.code),
            b.1.Declined (.alone settings rules path r.result.code) := by
  constructor
  · intro h r hr hs _
    exact settled_iff.1 (h r hr hs)
  · intro h r hr hs
    by_cases hnone : r.result.suggestions = []
    · exact settled_of_suggestions_eq_nil hr hs hnone
    · exact settled_iff.2 (h r hr hs hnone)

/-- A builder in an argument that is copied is left to the second run. -/
theorem not_migratesOnce : ¬ MigratesOnce {} {} noFile
    "fn f(c: ChannelId) { c.send_message(|m| m.nonce(c.send_message(|x| x))); }" := by
  generalize htext :
    "fn f(c: ChannelId) { c.send_message(|m| m.nonce(c.send_message(|x| x))); }" = text
  generalize hnext :
    "fn f(c: ChannelId) { c.send_message(CreateMessage::new().nonce(c.send_message(|x| x))); }" =
      next
  have hfirst : (migrate {} {} noFile text).toOption.map
      (fun r => (r.result.success, r.result.code)) = some (true, next) := by
    rw [← htext, ← hnext]
    decide +kernel
  have hsecond : (migrate {} {} noFile next).toOption.map (·.result.suggestions.length) =
      some 1 := by
    rw [← hnext]
    decide +kernel
  intro honce
  obtain ⟨r, h, hfirst⟩ := exists_of_toOption_map hfirst
  obtain ⟨hs, hcode⟩ := Prod.mk.inj hfirst
  obtain ⟨r', hr', -, -, hnone⟩ := honce r h hs
  rw [hcode] at hr'
  rw [hr'] at hsecond
  have hlength : r'.result.suggestions.length = 1 := Option.some.inj hsecond
  rw [hnone] at hlength
  cases hlength

end BuilderMigration
