import BuilderMigration.Proofs.Idiom.Agree
import BuilderMigration.Proofs.Migration.Leftover
import BuilderMigration.Proofs.Migration.Snippets
import BuilderMigration.Proofs.Rewrite.Layout
import BuilderMigration.Proofs.Typing.BuilderNames

/-! Whether setters go on lines of their own is a matter of layout. Settings that differ in this alone
report the same, with the same tokens in every replacement. -/

namespace BuilderMigration

open Rewrite (Follows)

variable {settings : Settings} {rules : Rules} {path code : String} {m : Module} {n : Node}
  {w : Workshop} {site site' : Site} {sources : SourceMap}

/-- The same settings in a layout. -/
abbrev Settings.laidOut (settings : Settings) (multiline : Bool) : Settings := { settings with multiline }

theorem Settings.typesAlike_laidOut (settings : Settings) (multiline : Bool) :
    (settings.laidOut multiline).TypesAlike settings := ⟨rfl, rfl, rfl⟩

/-- Rules whose fixed texts are whole tokens. -/
def Rules.Telling (rules : Rules) : Prop :=
  ∀ builder text, rules.find? builder = some (.fixed text) → ∃ x, Whole text x

/-- No bundled rule is a fixed text. -/
theorem Rules.telling_bundled : ({} : Rules).Telling := by
  have hbundled : ∀ e ∈ ({} : Rules).ready.entries,
      e.2 ∈ [.components, .actionRow, .button, .selectMenu, .response] := by decide
  intro builder text h
  have hmem := hbundled _ (Assoc.mem_of_get? h)
  simp at hmem

/-! ### Builders -/

/-- A node of a file whose text, and all text below it, is copied alike into both layouts. -/
def Node.CopiedAlike (w : Workshop) (multiline : Bool) (n : Node) : Prop :=
  ∀ n' ∈ n.tree.preorder, (w.layouts multiline).Copied (.moved id False) n'.span n'.span

/-- Text without blanks at its ends that tells the same in front of every break. -/
theorem Workshop.copied_layouts {s : Span} {text : String} {x : Wording} (multiline : Bool)
    (h : ∀ k, w.resolve? s k = some text) (htrim : Text.trim text = text) (hx : Tells Broken text x) :
    (w.layouts multiline).Copied (.moved id False) s s := by
  refine ⟨rfl, fun k k' _ => ?_⟩
  have hright : (w.laidOut multiline).resolve? s k' = some text := h k'
  rw [h k, hright]
  exact .text (htrim.symm ▸ hx.alike)

/-- What is copied from a file that is laid out over its tokens is copied alike. -/
theorem Node.copiedAlike {ts : List Token} (hts : tokensOf code 1 = .ok ts)
    (hl : Laid ts 1 (itemTrees m.items) (1 + code.length)) (settings : Settings) (multiline : Bool)
    (hn : n ∈ Rose.preorders (itemTrees m.items)) :
    n.CopiedAlike ⟨(SourceMap.read {} path code).2, settings⟩ multiline := by
  intro n' hn'
  obtain ⟨hp, hwithin⟩ := hl.within_below m.children_trees hn hn'
  obtain ⟨text, x, htext, htrim, hx⟩ := SourceMap.snippet_tells path hts hwithin hp
  refine Workshop.copied_layouts multiline (fun k => ?_) htrim hx
  rw [Workshop.resolve?, Expansions.walk_of_written _ hp.written, htext]

/-- A builder is written alike in both layouts. -/
theorem Node.builder?_layouts (hr : rules.Telling) {multiline : Bool}
    (hcopied : n.CopiedAlike w multiline)
    (hnamed : n.Named Legible (Ty.BuilderIs w.settings Legible)) :
    Option.Rel (Follows (.moved id False) ValuesAlike) (n.builder? ⟨w, rules⟩)
      (n.builder? ⟨w.laidOut multiline, rules⟩) := by
  have hself : Legible "self" := IsWord.legible (by decide)
  have hmoves : (w.layouts multiline).Moves (.moved id False) id rules :=
    ⟨fun _ => rfl, fun _ => rfl, fun builder text h => (hr builder text h).imp fun _ hx => ⟨hx, hx⟩⟩
  have halike := Expr.recognisedAlike (w.settings.typesAlike_laidOut multiline) rfl
  have hkeeps {part : Part} (hp : n.Holds part) :
      (w.layouts multiline).Keeps (.moved id False) id part := by
    obtain ⟨n', hn', hs⟩ := hp
    have hc := hcopied n' hn'
    rw [hs] at hc
    cases part with
    | copied s => exact hc
    | rewritten s => exact .inr hc
  cases n with
  | expr e =>
    have hwritten := e.writtenWith hself hnamed
    simp only [builder?, (halike e).2]
    cases hc : builderClosure? w.settings e with
    | none => exact .none
    | some c =>
      have hf := Parallel.follows_rewriteClosure hmoves c (hwritten.closure c hc) fun part hp =>
        hkeeps ((e.holdsParts w.settings).2 c hc part hp)
      rw [c.mapSpans_id] at hf
      exact .some hf
  | stmt s =>
    simp only [builder?, Expr.RecognisedAlike.stmtChain? fun _ e _ => halike e]
    cases hc : stmtChain? w.settings true s with
    | none => exact .none
    | some c =>
      cases s with
      | semi span e =>
        rw [Node.Named, Stmt.Named] at hnamed
        have hf := Parallel.follows_rewriteChain hmoves c ((e.writtenWith hself hnamed).chain true c hc)
          fun part hp => hkeeps
            (((e.holdsParts w.settings).1 true c hc part hp).of_child (by simp [children]))
        rw [c.mapSpans_id] at hf
        exact .some hf
      | _ => cases hc
  | item i => exact .none
  | module m => exact .none

/-! ### Sites -/

/-- Sites that differ in the layout of their texts alone. -/
inductive Site.Alike : Site → Site → Prop
  | rewritten (span : Span) (notes : List Note) {a b : String} (h : ValuesAlike a b) :
      Alike ⟨span, .ok a, notes⟩ ⟨span, .ok b, notes⟩
  | refused (span : Span) (v : Violation) : Alike ⟨span, .error v, []⟩ ⟨span, .error v, []⟩

theorem Site.ofBuilder_alike {work work' : Rewrite String}
    (h : Follows (.moved id False) ValuesAlike work work') :
    Alike (ofBuilder (n, work)) (ofBuilder (n, work')) := by
  have hdraft : Draft.Beside (.moved id False) { ctxt := n.span.ctxt } { ctxt := n.span.ctxt } :=
    Draft.beside_moved_iff.2 rfl
  obtain ⟨hf, -⟩ | ⟨halike, hbeside⟩ := h.alike _ _ hdraft
  · exact hf.elim
  · rw [Draft.beside_moved_iff, Draft.mapSpans_id] at hbeside
    unfold ofBuilder
    dsimp only
    generalize work { ctxt := n.span.ctxt } = run at halike hbeside ⊢
    generalize work' { ctxt := n.span.ctxt } = run' at halike hbeside ⊢
    obtain ⟨r, d⟩ := run
    obtain ⟨r', d'⟩ := run'
    obtain rfl : d = d' := hbeside
    cases halike with
    | value hab => exact .rewritten n.span d.notes hab
    | violation hv =>
      rw [Violation.beside_moved_iff, Violation.mapSpan_id] at hv
      exact hv ▸ .refused n.span _

/-- The sites of a file in both layouts. -/
theorem Module.sites_layouts (h : readModule code 1 path = .ok m) (hr : rules.Telling)
    (hs : ∀ e ∈ settings.closureSignatures, Legible e.2) (multiline : Bool) :
    List.Forall₂ Site.Alike
      ((m.resolved settings).sites (.alone settings rules path code))
      ((m.resolved (settings.laidOut multiline)).sites
        (.alone (settings.laidOut multiline) rules path code)) := by
  obtain ⟨-, -, ts, hts, hl⟩ := readModule_laid h (by omega)
  have hlaid := m.resolved_laid settings hl
  have hnamed := resolved_legible h hs
  rw [sites_eq_builders h, sites_eq_builders h, m.resolved_congr (settings.typesAlike_laidOut multiline),
    List.forall₂_map_left_iff, List.forall₂_map_right_iff]
  generalize m.resolved settings = m at hlaid hnamed
  refine Rose.forall₂_outermost _ fun n hn => ?_
  have hpair {work work' : Option (Rewrite String)}
      (h : Option.Rel (Follows (.moved id False) ValuesAlike) work work') :
      Option.Rel (fun b b' => Site.Alike (.ofBuilder b) (.ofBuilder b')) (work.map (n, ·))
        (work'.map (n, ·)) := by
    cases h with
    | none => exact .none
    | some h => exact .some (Site.ofBuilder_alike h)
  have hmem := hn
  rw [tree, Rose.preorder, List.mem_cons] at hmem
  rcases hmem with rfl | hmem
  · exact .none
  · exact hpair (Node.builder?_layouts hr (Node.copiedAlike hts hlaid settings multiline hmem)
      (hnamed n hn))

/-! ### Diagnostics -/

/-- Suggestions with texts of the same tokens, one by one of the same kind and with the same text. -/
structure Suggestion.Alike (s s' : Suggestion) : Prop where
  start : s.edit.start = s'.edit.start
  stop : s.edit.stop = s'.edit.stop
  label : s.label = s'.label
  applicability : s.applicability = s'.applicability
  words : (tokenize s.edit.replacement 0).wording = (tokenize s'.edit.replacement 0).wording

/-- Diagnostics that differ in the layout of the suggested text alone. -/
structure Diagnostic.Alike (d d' : Diagnostic) : Prop where
  rest : { d with suggestion := none } = { d' with suggestion := none }
  suggestion : Option.Rel Suggestion.Alike d.suggestion d'.suggestion

theorem Site.Alike.diagnostic (h : site.Alike site') :
    (site.diagnostic sources).Alike (site'.diagnostic sources) := by
  cases h with
  | rewritten span notes hab =>
    obtain ⟨x, ha, hb⟩ := hab
    have hwords := ha.wording_eq.trans hb.wording_eq.symm
    simp only [Site.diagnostic]
    cases sources.snippet? (sources.expansions.walk span 0) with
    | none => exact ⟨rfl, .none⟩
    | some _ => exact ⟨rfl, .some ⟨rfl, rfl, rfl, rfl, hwords⟩⟩
  | refused span v => exact ⟨rfl, .none⟩

theorem Site.Alike.log (h : site.Alike site') : site.log sources = site'.log sources := by
  cases h <;> rfl

/-- What is said of sites in both layouts. -/
theorem Site.findings_alike (sources : SourceMap) {sites sites' : List Site}
    (h : List.Forall₂ Alike sites sites') :
    List.Forall₂ Diagnostic.Alike (sites.map (·.diagnostic sources)) (sites'.map (·.diagnostic sources)) ∧
      sites.flatMap (·.log sources) = sites'.flatMap (·.log sources) := by
  induction h with
  | nil => exact ⟨.nil, rfl⟩
  | cons hsite _ ih => exact ⟨.cons hsite.diagnostic ih.1, congrArg₂ (· ++ ·) hsite.log ih.2⟩

/-! ### Runs -/

/-- Outcomes that differ in the layout of replacements alone. -/
inductive Migrated.Alike : Except Failure Migrated → Except Failure Migrated → Prop
  | failed (failure : Failure) : Alike (.error failure) (.error failure)
  | migrated {r r' : Migrated} (success : r.result.success = r'.result.success)
      (errors : r.result.errors = r'.result.errors)
      (diagnostics : List.Forall₂ Diagnostic.Alike r.result.diagnostics r'.result.diagnostics)
      (logs : r.logs = r'.logs) : Alike (.ok r) (.ok r')

/-- Both layouts have the same outcome under all rules whose fixed texts are whole tokens. -/
theorem Migrated.alike_of_telling (hr : rules.Telling)
    (hs : ∀ e ∈ settings.closureSignatures, Legible e.2) (multiline : Bool) (path code : String) :
    Alike (migrate settings rules path code) (migrate (settings.laidOut multiline) rules path code) := by
  cases h : readModule code 1 path with
  | error failure =>
    rw [migrate_eq_match, migrate_eq_match, h]
    cases failure with
    | rejected e => exact .migrated rfl rfl .nil rfl
    | _ => exact .failed _
  | ok m =>
    have hsites := Module.sites_layouts h hr hs multiline
    rw [Module.migrate_eq h, Module.migrate_eq h]
    have hfindings := Site.findings_alike (SourceMap.read {} path code).2 hsites
    exact .migrated rfl rfl hfindings.1 hfindings.2

/-- Whether setters go on lines of their own changes nothing that is reported of a text but the layout
of the replacements: each is read to the same tokens, one by one of the same kind and with the same
text. -/
theorem migrate_laidOut {raw : List (String × RawValue)} (h : Settings.check raw = .ok settings)
    (multiline : Bool) (path code : String) :
    Migrated.Alike (migrate settings {} path code)
      (migrate { settings with multiline } {} path code) :=
  Migrated.alike_of_telling Rules.telling_bundled (Settings.legible_of_check h) multiline path code

/-- A nested builder in both layouts. -/
theorem migrate_laidOut_nested : Settings.check [] = .ok {} ∧
    Migrated.Alike
      (migrate {} {} "a.rs" "fn f(c: ChannelId) { c.send_message(|m| m.tts(1).embed(|e| e.url(2))); }")
      (migrate { multiline := true } {} "a.rs"
        "fn f(c: ChannelId) { c.send_message(|m| m.tts(1).embed(|e| e.url(2))); }") ∧
    [({} : Settings), { multiline := true }].map (fun settings =>
      (migrate settings {} "a.rs"
        "fn f(c: ChannelId) { c.send_message(|m| m.tts(1).embed(|e| e.url(2))); }").toOption.map
          fun r => r.result.suggestions.map (·.edit.replacement)) =
      [some ["CreateMessage::new().tts(1).embed(CreateEmbed::new().url(2))"],
        some ["CreateMessage::new()\n.tts(1)\n.embed(CreateEmbed::new()\n.url(2))"]] := by
  have hcheck : Settings.check [] = .ok {} := rfl
  exact ⟨hcheck, migrate_laidOut hcheck true "a.rs" _, by decide +kernel⟩

end BuilderMigration
