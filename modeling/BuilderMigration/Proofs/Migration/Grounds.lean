import BuilderMigration.Proofs.Migration.Walk
import BuilderMigration.Proofs.Source.Positions
import BuilderMigration.Tree.Respan

/-! What is reported of any tree, wherever its spans lie and whatever they were expanded from: no site
within an earlier one, and no suggestion but for text of one file, which the diagnostic names. -/

namespace BuilderMigration

variable {p : Plan} {n : Node} {nodes : List Node} {w : Walk} {site : Site} {sources : SourceMap}
  {s : Suggestion}

/-! ### Sites -/

/-- A walk among some nodes that is done with the spans of its sites and with no others. Each site is
what its node is on its own, and none lies within an earlier one of the same context. -/
structure Walk.Orderly (p : Plan) (nodes : List Node) (w : Walk) : Prop where
  excluded : w.excluded = w.sites.map (·.span)
  own : ∀ site ∈ w.sites, ∃ n ∈ nodes, Site.ofNode? p n = some site
  apart : w.sites.Pairwise fun done site =>
    ¬ (done.span.contains site.span = true ∧ done.span.ctxt = site.span.ctxt)

theorem Walk.orderly_start (p : Plan) (nodes : List Node) : Walk.Orderly p nodes {} :=
  ⟨rfl, nofun, .nil⟩

/-- A node that is not excluded is tried in good order. -/
theorem Walk.Orderly.tryNode (h : w.Orderly p nodes) (hn : n ∈ nodes)
    (hex : w.excludes n.span = false) : (w.tryNode p n).2.Orderly p nodes := by
  cases hs : Site.ofNode? p n with
  | none =>
    obtain ⟨c, hc⟩ := Walk.tryNode_of_none hs w
    rw [hc]
    exact ⟨h.excluded, h.own, h.apart⟩
  | some site =>
    obtain ⟨c, hc⟩ := Walk.tryNode_of_some hs w
    rw [hc]
    refine ⟨?_, ?_, ?_⟩
    · simp only [h.excluded, List.map_append, List.map_cons, List.map_nil]
    · exact List.forall_mem_append.2 ⟨h.own, List.forall_mem_singleton.2 ⟨n, hn, hs⟩⟩
    · refine List.pairwise_append.2 ⟨h.apart, List.pairwise_singleton _ _, fun done hd t ht => ?_⟩
      obtain rfl := List.mem_singleton.1 ht
      have hdone : done.span ∈ w.excluded := h.excluded ▸ List.mem_map_of_mem hd
      rw [Walk.excludes, List.any_eq_false] at hex
      rintro ⟨hcontains, hctxt⟩
      rw [Site.span_of_ofNode? hs] at hcontains hctxt
      exact hex _ hdone (by rw [hcontains, hctxt, beq_self_eq_true, Bool.true_and])

mutual

theorem Rose.visit_orderly : ∀ (t : Rose Node) (w : Walk), (∀ n ∈ t.preorder, n ∈ nodes) →
    w.Orderly p nodes → (t.visit p w).Orderly p nodes
  | .node n kids, w, hn, h => by
    rw [Rose.preorder, List.forall_mem_cons] at hn
    rw [Rose.visit]
    split
    · exact h
    · next hex =>
      have hstep := h.tryNode hn.1 (Bool.eq_false_iff.2 hex)
      split
      · next htry => rwa [htry] at hstep
      · next htry =>
        rw [htry] at hstep
        exact Rose.visitAll_orderly kids _ hn.2 hstep

theorem Rose.visitAll_orderly : ∀ (trees : List (Rose Node)) (w : Walk),
    (∀ n ∈ Rose.preorders trees, n ∈ nodes) → w.Orderly p nodes →
    (Rose.visitAll p w trees).Orderly p nodes
  | [], _, _, h => h
  | t :: trees, w, hn, h => by
    rw [Rose.preorders, List.forall_mem_append] at hn
    exact Rose.visitAll_orderly trees _ hn.2 (Rose.visit_orderly t w hn.1 h)

end

theorem Module.walk_orderly (p : Plan) (m : Module) : (m.walk p).Orderly p m.tree.preorder :=
  Rose.visit_orderly m.tree {} (fun _ hn => hn) (Walk.orderly_start p _)

/-! ### Suggestions -/

/-- An edit of one file, which a diagnostic names with the line and the column where the edit begins.
What it replaces is the text of a span, neither end of which belongs to another file. -/
structure Diagnostic.Edits (sources : SourceMap) (walked : Span) (d : Diagnostic) (e : Edit)
    (f : SourceFile) : Prop where
  registered : f ∈ sources.files
  alone : sources.Registered →
    ∀ g ∈ sources.files, g.holds walked.lo = true ∨ g.holds walked.hi = true → g = f
  file : d.file = f.name
  start_nonneg : 0 ≤ e.start
  start_le : e.start ≤ e.stop
  stop_le : e.stop ≤ f.chars.length
  line : d.line = (f.chars.take e.start.toNat).count '\n' + 1
  column : d.column = SourceFile.sinceNewline (f.chars.take e.start.toNat) + 1
  text : sources.snippet? walked =
    some (String.ofList (Text.slice f.chars e.start.toNat e.stop.toNat))

/-- A diagnostic whose suggestion, if it has one, edits the text of a span in one file. There is none
where that text cannot be recovered. -/
structure Diagnostic.Grounded (sources : SourceMap) (walked : Span) (d : Diagnostic) : Prop where
  edits : ∀ s, d.suggestion = some s → ∃ f, d.Edits sources walked s.edit f
  recoverable : sources.snippet? walked = none → d.suggestion = none

theorem Site.suggestion_of_unrecoverable
    (h : sources.snippet? (sources.expansions.walk site.span 0) = none) :
    (site.diagnostic sources).suggestion = none := by
  simp only [diagnostic, h]
  cases site.outcome <;> rfl

/-- The range of a suggestion is that of the text which can be recovered. -/
theorem Site.edits_of_suggestion (h : (site.diagnostic sources).suggestion = some s) :
    ∃ f, (site.diagnostic sources).Edits sources (sources.expansions.walk site.span 0) s.edit f := by
  cases hs : sources.snippet? (sources.expansions.walk site.span 0) with
  | none =>
    rw [Site.suggestion_of_unrecoverable hs] at h
    cases h
  | some text =>
    obtain ⟨f, hf, hle, hstop, htext⟩ := SourceMap.exists_file_of_snippet hs
    obtain ⟨hmem, hlo, hhi⟩ := SourceMap.mem_of_file? hf
    cases ho : site.outcome with
    | error v =>
      simp only [diagnostic, ho] at h
      cases h
    | ok replacement =>
      simp only [diagnostic, ho, hf, hs, SourceMap.locate] at h ⊢
      obtain rfl := Option.some.inj h
      have hoffset : (sources.expansions.walk site.span 0).lo - f.start ≤ f.chars.length := by
        rw [SourceFile.stop] at hhi
        omega
      rw [SourceFile.lineColumn_eq f (by omega)]
      refine ⟨f, hmem, fun hr g hg hheld => ?_, rfl, ?_, ?_, ?_, rfl, rfl, hs.trans (congrArg some htext)⟩
      · have hlast : f.holds (sources.expansions.walk site.span 0).hi = true :=
          SourceMap.holds_iff.2 ⟨by omega, hstop⟩
        obtain hg' | hg' := hheld
        · exact hr.eq_of_holds hg hmem hg' (SourceMap.holds_iff.2 ⟨hlo, hhi⟩)
        · exact hr.eq_of_holds hg hmem hg' hlast
      · dsimp only
        omega
      · dsimp only
        omega
      · rw [SourceFile.stop] at hstop
        dsimp only
        omega

theorem Site.grounded (sources : SourceMap) (site : Site) :
    (site.diagnostic sources).Grounded sources (sources.expansions.walk site.span 0) :=
  ⟨fun _ h => Site.edits_of_suggestion h, Site.suggestion_of_unrecoverable⟩

/-! ### Files -/

/-- What is reported of a file: sites of its nodes, none within an earlier one of the same context,
each with a diagnostic whose suggestion stands in one file. -/
theorem Module.findings_grounded (p : Plan) (m : Module) :
    (∀ site ∈ m.sites p,
        ∃ n ∈ m.tree.preorder, site.span = n.span ∧ Site.ofNode? p n = some site) ∧
      ((m.sites p).Pairwise fun done site =>
        ¬ (done.span.contains site.span = true ∧ done.span.ctxt = site.span.ctxt)) ∧
      List.Forall₂
        (fun site d => d.Grounded p.workshop.sources
          (p.workshop.sources.expansions.walk site.span 0))
        (m.sites p) (m.findings p).diagnostics := by
  have horderly := m.walk_orderly p
  refine ⟨fun site hs => ?_, horderly.apart, ?_⟩
  · obtain ⟨n, hn, ho⟩ := horderly.own site hs
    exact ⟨n, hn, Site.span_of_ofNode? ho, ho⟩
  · refine List.forall₂_map_right_iff.2 (List.forall₂_same.2 fun site _ => ?_)
    exact Site.grounded _ site

/-- Two files and the expansion of a call in the second one. -/
def expandedSources : SourceMap :=
  (((SourceMap.add {} "a.rs" "fn f(c: ChannelId) { c.send_message(|m| m.nonce(1)); }").2.add
    "b.rs" "fn g() \x7b\n  x!(|m| m.nonce(1));\n\x7d").2.expand { callSite := ⟨70, 84, 0⟩ }).2

/-- The closure in the first file, as text of the expansion. -/
def expandedSpan (s : Span) : Span := if s = ⟨37, 51, 0⟩ then ⟨37, 51, 1⟩ else s

/-- A closure in an expansion is replaced in the file of the call. -/
theorem Module.findings_grounded_expanded : ∃ m p d f,
    readModule "fn f(c: ChannelId) { c.send_message(|m| m.nonce(1)); }" 1 "a.rs" = .ok m ∧
      p = ⟨⟨expandedSources, {}⟩, {}⟩ ∧
      (((m.mapSpans expandedSpan).resolved {}).sites p).map (·.span) = [⟨37, 51, 1⟩] ∧
      (((m.mapSpans expandedSpan).resolved {}).findings p).diagnostics = [d] ∧
      d.Edits expandedSources ⟨70, 84, 0⟩ ⟨14, 28, "CreateMessage::new().nonce(1)"⟩ f ∧
      f.name = "b.rs" ∧ d.line = 2 ∧ d.column = 6 := by
  generalize htext : "fn f(c: ChannelId) { c.send_message(|m| m.nonce(1)); }" = text
  have hsites : (readModule text 1 "a.rs").toOption.map (fun m =>
      (((m.mapSpans expandedSpan).resolved {}).sites ⟨⟨expandedSources, {}⟩, {}⟩).map (·.span)) =
      some [⟨37, 51, 1⟩] := by
    rw [← htext]
    decide +kernel
  have hfound : (readModule text 1 "a.rs").toOption.map (fun m =>
      (((m.mapSpans expandedSpan).resolved {}).findings
        ⟨⟨expandedSources, {}⟩, {}⟩).diagnostics.map fun d =>
          (d.file, d.line, d.column, d.suggestion.map (·.edit))) =
      some [("b.rs", 2, 6, some ⟨14, 28, "CreateMessage::new().nonce(1)"⟩)] := by
    rw [← htext]
    decide +kernel
  obtain ⟨m, h, hdiagnostics⟩ := exists_of_toOption_map hfound
  rw [h] at hsites
  have hspans := Option.some.inj hsites
  obtain ⟨-, -, hgrounded⟩ := Module.findings_grounded ⟨⟨expandedSources, {}⟩, {}⟩
    ((m.mapSpans expandedSpan).resolved {})
  obtain ⟨site, hsite, hspan⟩ := List.map_eq_singleton_iff.1 hspans
  obtain ⟨d, hd, hfields⟩ := List.map_eq_singleton_iff.1 hdiagnostics
  rw [hsite, hd, List.forall₂_cons] at hgrounded
  obtain ⟨hfile, hline, hcolumn, hedit⟩ := by simpa only [Prod.mk.injEq] using hfields
  obtain ⟨s, hs, hse⟩ := Option.map_eq_some_iff.1 hedit
  obtain ⟨f, hf⟩ := hgrounded.1.edits s hs
  rw [hspan, hse] at hf
  exact ⟨m, _, d, f, h, rfl, hspans, hd, hf, hf.file.symm.trans hfile, hline, hcolumn⟩

end BuilderMigration
