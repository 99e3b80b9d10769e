import BuilderMigration.Proofs.Migration.Walk
import BuilderMigration.Proofs.Source.Edit

/-! What a migration reports: a list of ranges of the text, one behind the other, each warning with a
fix of just its own range; and the text with all of these fixes made. -/

namespace BuilderMigration

variable {p : Plan} {ts : List Token} {lo mid hi : Int} {site : Site} {sites more : List Site}
  {sources : SourceMap} {f : SourceFile} {code path : String} {m : Module}

/-! ### Outermost sites -/

/-- Sites between two positions, one behind the other, each with text that the user wrote. -/
structure Site.Row (lo : Int) (sites : List Site) (hi : Int) : Prop where
  written : ∀ s ∈ sites, s.span.ctxt = 0 ∧ s.span.lo < s.span.hi
  inside : ∀ s ∈ sites, lo ≤ s.span.lo ∧ s.span.hi ≤ hi
  apart : sites.Pairwise fun s t => s.span.hi ≤ t.span.lo

namespace Site.Row

theorem nil : Row lo [] hi := ⟨nofun, nofun, .nil⟩

theorem append (h : Row lo sites mid) (h' : Row mid more hi) (hl : lo ≤ mid) (hh : mid ≤ hi) :
    Row lo (sites ++ more) hi where
  written s hs := (List.mem_append.1 hs).elim (h.written s) (h'.written s)
  inside s hs := by
    obtain hs | hs := List.mem_append.1 hs
    · have := h.inside s hs
      omega
    · have := h'.inside s hs
      omega
  apart := List.pairwise_append.2
    ⟨h.apart, h'.apart, fun s hs t ht => Int.le_trans (h.inside s hs).2 (h'.inside t ht).1⟩

theorem mono {lo' hi' : Int} (h : Row lo sites hi) (hl : lo' ≤ lo) (hh : hi ≤ hi') :
    Row lo' sites hi' where
  written := h.written
  inside s hs := by
    have := h.inside s hs
    omega
  apart := h.apart

end Site.Row

mutual

/-- The outermost sites of trees in source order are in source order. -/
theorem Rose.row_outermost : ∀ t : Rose Node, t.Laminar ts →
    Site.Row t.span.lo (t.outermost (Site.ofNode? p)) t.span.hi
  | .node n kids, hl => by
    rw [Rose.Laminar] at hl
    cases hs : Site.ofNode? p n with
    | none =>
      rw [Rose.outermost_of_none hs]
      exact Rose.row_outermostAll kids hl.2
    | some site =>
      have he : site.span = n.span := Site.span_of_ofNode? hs
      rw [Rose.outermost_of_some hs]
      refine ⟨?_, ?_, List.pairwise_singleton _ _⟩
      · simpa [he] using ⟨hl.1.written, hl.1.lt⟩
      · simp [he, Rose.span, Rose.value]

theorem Rose.row_outermostAll {lo hi : Int} : ∀ trees : List (Rose Node), Laid ts lo trees hi →
    Site.Row lo (Rose.outermostAll (Site.ofNode? p) trees) hi
  | [], _ => .nil
  | t :: trees, hl => by
    obtain ⟨h₁, h₂, h₃⟩ := Laid.cons_iff.1 hl
    have hlt := h₂.proper.lt
    rw [Rose.outermostAll_cons]
    exact ((Rose.row_outermost t h₂).mono h₁ (Int.le_refl _)).append
      (Rose.row_outermostAll trees h₃) (by omega) h₃.le

end

/-- So are those of a file. -/
theorem Module.row_sites (hl : Laid ts lo (itemTrees m.items) hi) : Site.Row lo (m.sites p) hi := by
  have hroot : Site.ofNode? p (.module m) = none := rfl
  have hs : m.sites p = m.tree.outermost (Site.ofNode? p) := (Module.walk_done hl p).sites
  rw [hs, Module.tree, Rose.outermost_of_none hroot]
  exact Rose.row_outermostAll _ hl

/-! ### Diagnostics -/

/-- A diagnostic of a text of some length: it has a range of characters, and a warning offers a fix
of just that range, which is safe to make if there is nothing to note. -/
structure Diagnostic.Sound (length : Nat) (d : Diagnostic) : Prop where
  start_nonneg : 0 ≤ d.start
  lt : d.start < d.stop
  stop_le : d.stop ≤ length
  fix : match d.level with
    | .note => d.suggestion = none
    | .warning => ∃ s, d.suggestion = some s ∧ s.edit.start = d.start ∧ s.edit.stop = d.stop ∧
        (s.applicability = .machineApplicable ↔ d.notes = [])

theorem Diagnostic.Sound.suggestion {length : Nat} {d : Diagnostic} {s : Suggestion}
    (h : d.Sound length) (hs : d.suggestion = some s) :
    s.edit.start = d.start ∧ s.edit.stop = d.stop := by
  have hfix := h.fix
  cases hd : d.level with
  | note =>
    simp only [hd] at hfix
    rw [hfix] at hs
    cases hs
  | warning =>
    simp only [hd] at hfix
    obtain ⟨s', hs', h₁, h₂, -⟩ := hfix
    obtain rfl : s' = s := Option.some.inj (hs'.symm.trans hs)
    exact ⟨h₁, h₂⟩

/-- The fixes that sound diagnostics offer are apart if the diagnostics are. -/
theorem Diagnostic.suggestions_apart {length : Nat} {ds : List Diagnostic}
    (h : ∀ d ∈ ds, d.Sound length) (ha : ds.Pairwise fun a b => a.stop ≤ b.start) :
    Edit.Apart length 0 ((ds.filterMap (·.suggestion)).map (·.edit)) := by
  refine Edit.apart_of_pairwise (Int.natCast_nonneg _) (fun e he => ?_) ?_
  · obtain ⟨s, hs, rfl⟩ := List.mem_map.1 he
    obtain ⟨d, hd, hds⟩ := List.mem_filterMap.1 hs
    obtain ⟨h₁, h₂⟩ := (h d hd).suggestion hds
    rw [h₁, h₂]
    exact ⟨(h d hd).start_nonneg, (h d hd).lt, (h d hd).stop_le⟩
  · rw [List.pairwise_map, List.pairwise_filterMap]
    refine ha.imp_of_mem fun {a b} hma hmb hab s hs t ht => ?_
    rw [((h a hma).suggestion hs).2, ((h b hmb).suggestion ht).1]
    exact hab

/-- Text that the user wrote is where it is, whatever it is seen from. -/
theorem Expansions.walk_of_written (t : Expansions) {s : Span} (h : s.ctxt = 0) (target : Int) :
    t.walk s target = s := by
  unfold Expansions.walk
  cases t.entries.length with
  | zero => rfl
  | succ n => rw [Expansions.walkFrom, if_pos (.inr (.inl h))]

theorem Expansions.isGenerated_root (t : Expansions) : t.isGenerated 0 = false := rfl

/-- Text within a file can be recovered. -/
theorem SourceMap.exists_snippet {s : Span} (hf : sources.file? s.lo = some f) (hc : s.ctxt = 0)
    (hlt : s.lo < s.hi) (hle : s.hi ≤ f.stop) : ∃ text, sources.snippet? s = some text := by
  have hdummy : s.isDummy = false := by
    rw [Span.isDummy, Bool.and_eq_false_iff, beq_eq_false_iff_ne, beq_eq_false_iff_ne]
    omega
  have hguard : ¬ (s.isDummy || s.hi < s.lo || sources.expansions.isGenerated s.ctxt) = true := by
    simp only [hdummy, hc, Expansions.isGenerated_root, Bool.false_or, Bool.or_false,
      decide_eq_true_eq]
    omega
  unfold SourceMap.snippet?
  rw [if_neg (by simpa using hguard), hf]
  dsimp only
  rw [if_neg (by omega)]
  exact ⟨_, rfl⟩

namespace Site

theorem diagnostic_range (hf : sources.file? site.span.lo = some f) (hc : site.span.ctxt = 0) :
    (site.diagnostic sources).start = site.span.lo - f.start ∧
      (site.diagnostic sources).stop = site.span.hi - f.start := by
  simp only [diagnostic, Expansions.walk_of_written _ hc, hf]
  cases site.outcome with
  | error v => exact ⟨rfl, rfl⟩
  | ok text =>
    cases sources.snippet? site.span with
    | none => exact ⟨rfl, rfl⟩
    | some _ => exact ⟨rfl, rfl⟩

/-- What is said about text within a file is sound. -/
theorem diagnostic_sound (hf : sources.file? site.span.lo = some f) (hc : site.span.ctxt = 0)
    (hlt : site.span.lo < site.span.hi) (hle : site.span.hi ≤ f.stop) :
    (site.diagnostic sources).Sound f.chars.length := by
  have hholds := List.find?_some hf
  rw [SourceFile.holds, Bool.and_eq_true, decide_eq_true_eq, decide_eq_true_eq] at hholds
  obtain ⟨hstart, hstop⟩ := diagnostic_range hf hc
  rw [SourceFile.stop] at hle
  refine ⟨by omega, by omega, by omega, ?_⟩
  obtain ⟨snippet, hs⟩ := SourceMap.exists_snippet hf hc hlt hle
  simp only [diagnostic, Expansions.walk_of_written _ hc, hf, hs]
  cases site.outcome with
  | error v => rfl
  | ok text =>
    refine ⟨_, rfl, rfl, rfl, ?_⟩
    cases site.notes <;> simp

end Site

/-! ### Files -/

/-- The only file of a fresh map has all positions from the first one on. -/
theorem SourceMap.file?_read {pos : Int} (h : 1 ≤ pos) (hle : pos ≤ 1 + code.length) :
    ((SourceMap.read {} path code).2).file? pos = some ⟨path, code.toList, 1⟩ := by
  refine List.find?_cons_of_pos ?_
  rw [SourceFile.holds, SourceFile.stop, Bool.and_eq_true, decide_eq_true_eq, decide_eq_true_eq,
    String.length_toList]
  exact ⟨h, hle⟩

/-- The outcome of a migration, by that of reading its text. -/
theorem migrate_eq_match (settings : Settings) (rules : Rules) (path code : String) :
    migrate settings rules path code = match readModule code 1 path with
      | .error (.rejected e) =>
        .ok { result := { code, errors := [path ++ ": " ++ e.message], success := false } }
      | .error failure => .error failure
      | .ok m =>
        let f := (m.resolved settings).findings (.alone settings rules path code)
        .ok ⟨{ code := f.edited code, diagnostics := f.diagnostics }, f.logs, f.consulted⟩ := by
  have hread : SourceMap.read {} path code =
      (readModule code 1 path, (SourceMap.read {} path code).2) := rfl
  rw [migrate, hread]
  rcases readModule code 1 path with (_ | _ | _) | m <;> rfl

namespace Module

variable (h : readModule code 1 path = .ok m) (settings : Settings) (rules : Rules)

include h

/-- A text that can be read is migrated. -/
theorem migrate_eq :
    let f := (m.resolved settings).findings (.alone settings rules path code)
    BuilderMigration.migrate settings rules path code =
      .ok ⟨{ code := f.edited code, diagnostics := f.diagnostics }, f.logs, f.consulted⟩ := by
  rw [migrate_eq_match, h]

/-- The sites of a text stand within it. -/
theorem row_alone :
    Site.Row 1 ((m.resolved settings).sites (.alone settings rules path code)) (1 + code.length) := by
  obtain ⟨-, -, ts, -, hl⟩ := readModule_laid h (by omega)
  exact row_sites (resolved_laid settings hl)

theorem file?_site
    (hs : site ∈ (m.resolved settings).sites (.alone settings rules path code)) :
    (Plan.alone settings rules path code).workshop.sources.file? site.span.lo =
      some ⟨path, code.toList, 1⟩ := by
  have hinside := (row_alone h settings rules).inside site hs
  have hwritten := (row_alone h settings rules).written site hs
  exact SourceMap.file?_read hinside.1 (by omega)

theorem sound_alone :
    ∀ d ∈ ((m.resolved settings).findings (.alone settings rules path code)).diagnostics,
      d.Sound code.length := by
  intro d hd
  obtain ⟨s, hs, rfl⟩ := List.mem_map.1 hd
  have hrow := row_alone h settings rules
  have hwritten := hrow.written s hs
  rw [← String.length_toList]
  refine Site.diagnostic_sound (file?_site h settings rules hs) hwritten.1 hwritten.2 ?_
  rw [SourceFile.stop, String.length_toList]
  exact (hrow.inside s hs).2

theorem apart_alone :
    ((m.resolved settings).findings (.alone settings rules path code)).diagnostics.Pairwise
      fun a b => a.stop ≤ b.start := by
  have hrow := row_alone h settings rules
  refine List.pairwise_map.2 (hrow.apart.imp_of_mem fun {s t} hs ht hst => ?_)
  rw [(Site.diagnostic_range (file?_site h settings rules hs) (hrow.written s hs).1).2,
    (Site.diagnostic_range (file?_site h settings rules ht) (hrow.written t ht).1).1]
  exact Int.sub_le_sub_right hst _

end Module

/-- A text that can be read is migrated. Its diagnostics are sound and in source order, and its new
text is the old one with the fix of every warning made. -/
theorem migrate_reported (h : readModule code 1 path = .ok m) (settings : Settings) (rules : Rules) :
    ∃ r, migrate settings rules path code = .ok r ∧ r.result.success = true ∧
      r.result.errors = [] ∧ (∀ d ∈ r.result.diagnostics, d.Sound code.length) ∧
      (r.result.diagnostics.Pairwise fun a b => a.start < b.start ∧ a.stop ≤ b.start) ∧
      Spliced 0 code.toList (r.result.suggestions.map (·.edit)) r.result.code.toList := by
  have hsound := Module.sound_alone h settings rules
  have hapart := Module.apart_alone h settings rules
  refine ⟨_, Module.migrate_eq h settings rules, rfl, rfl, hsound, ?_, ?_⟩
  · refine hapart.imp_of_mem fun {a b} ha _ hab => ⟨?_, hab⟩
    have := (hsound a ha).lt
    omega
  · exact applyEdits_spliced (Diagnostic.suggestions_apart hsound hapart)

/-- Two closures, each with a fix of its own. -/
theorem migrate_reported_two : ∃ m r,
    readModule "fn f(c: ChannelId) { c.send_message(|m| m.nonce(1)); c.send_message(|m| m); }" 1
        "a.rs" = .ok m ∧
      migrate {} {} "a.rs"
        "fn f(c: ChannelId) { c.send_message(|m| m.nonce(1)); c.send_message(|m| m); }" = .ok r ∧
      r.result.suggestions.map (·.edit) =
        [⟨36, 50, "CreateMessage::new().nonce(1)"⟩, ⟨68, 73, "CreateMessage::new()"⟩] ∧
      (∀ d ∈ r.result.diagnostics, d.Sound 77) ∧
      Spliced 0 "fn f(c: ChannelId) { c.send_message(|m| m.nonce(1)); c.send_message(|m| m); }".toList
        (r.result.suggestions.map (·.edit)) r.result.code.toList := by
  generalize htext :
    "fn f(c: ChannelId) { c.send_message(|m| m.nonce(1)); c.send_message(|m| m); }" = text
  have hread : (readModule text 1 "a.rs").isOk = true := by
    rw [← htext]
    decide +kernel
  have hlength : text.length = 77 := by
    rw [← htext]
    decide +kernel
  have hedits : (migrate {} {} "a.rs" text).toOption.map
      (fun r => r.result.suggestions.map (·.edit)) = some
        [⟨36, 50, "CreateMessage::new().nonce(1)"⟩, ⟨68, 73, "CreateMessage::new()"⟩] := by
    rw [← htext]
    decide +kernel
  cases h : readModule text 1 "a.rs" with
  | error e =>
    rw [h] at hread
    cases hread
  | ok m =>
    obtain ⟨r, hr, -, -, hsound, -, hspliced⟩ := migrate_reported h {} {}
    rw [hr] at hedits
    exact ⟨m, r, rfl, hr, Option.some.inj hedits, hlength ▸ hsound, hspliced⟩

end BuilderMigration
