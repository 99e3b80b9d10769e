import BuilderMigration.Proofs.Idiom.Nodes
import BuilderMigration.Proofs.Migration.Report
import BuilderMigration.Proofs.Shift.Idiom
import BuilderMigration.Proofs.Shift.Reading
import BuilderMigration.Proofs.Shift.Typing

/-! Migrating a file behind others. What is registered before a file moves all its positions by one
constant, and nothing that a migration says or writes shows it. -/

namespace BuilderMigration

/-! ### Maps of files -/

/-- The map behind the reading of some files, each a name and a text, whatever became of them. -/
def SourceMap.ofFiles (files : List (String × String)) : SourceMap :=
  files.foldl (fun m f => (m.read f.1 f.2).2) {}

/-- A map whose files all lie in front of the next free position, without macro expansions. -/
structure SourceMap.Plain (m : SourceMap) : Prop where
  one_le : 1 ≤ m.next
  before : ∀ f ∈ m.files, f.stop < m.next
  written : m.expansions = {}

namespace SourceMap

variable {m : SourceMap} {name code : String}

theorem plain_empty : Plain {} := ⟨Int.le_refl 1, nofun, rfl⟩

theorem Plain.read (h : m.Plain) (name code : String) : (m.read name code).2.Plain := by
  have hnext : (m.read name code).2.next = m.next + code.toList.length + 1 := rfl
  refine ⟨?_, fun f hf => ?_, h.written⟩
  · have := h.one_le
    omega
  · rw [hnext]
    rcases List.mem_append.1 hf with hf | hf
    · have := h.before f hf
      omega
    · obtain rfl := List.mem_singleton.1 hf
      simp only [SourceFile.stop]
      omega

theorem plain_ofFiles (files : List (String × String)) : (ofFiles files).Plain := by
  have hfold (m : SourceMap) (h : m.Plain) :
      (files.foldl (fun m f => (m.read f.1 f.2).2) m).Plain := by
    induction files generalizing m with
    | nil => exact h
    | cons f files ih => exact ih _ (h.read f.1 f.2)
  exact hfold _ plain_empty

/-- No file registered before holds a position of a new one. -/
theorem Plain.file?_read (h : m.Plain) {pos : Int} (hlo : m.next ≤ pos)
    (hhi : pos ≤ m.next + code.length) :
    (m.read name code).2.file? pos = some ⟨name, code.toList, m.next⟩ := by
  have hfiles : (m.read name code).2.files = m.files ++ [⟨name, code.toList, m.next⟩] := rfl
  rw [file?, hfiles, List.find?_append, List.find?_eq_none.2, Option.none_or]
  · refine List.find?_cons_of_pos ?_
    rw [SourceFile.holds, SourceFile.stop, Bool.and_eq_true, decide_eq_true_eq, decide_eq_true_eq,
      String.length_toList]
    exact ⟨hlo, hhi⟩
  · intro f hf
    have := h.before f hf
    simp only [SourceFile.holds, Bool.and_eq_true, decide_eq_true_eq]
    omega

end SourceMap

/-! ### Text within a file -/

/-- Text of the first file of a map. -/
structure Span.Within (length : Nat) (s : Span) : Prop where
  written : s.ctxt = 0
  one_le : 1 ≤ s.lo
  lt : s.lo < s.hi
  le : s.hi ≤ 1 + length

namespace SourceMap

variable {m shared : SourceMap} {name code : String} {s : Span} {f : SourceFile}

/-- The text of a span within a file. -/
theorem snippet?_eq (hf : m.file? s.lo = some f) (hc : s.ctxt = 0) (hlt : s.lo < s.hi)
    (hle : s.hi ≤ f.stop) : m.snippet? s =
      some (String.ofList (Text.slice f.chars (s.lo - f.start).toNat (s.hi - f.start).toNat)) := by
  obtain ⟨text, ht⟩ := exists_snippet hf hc hlt hle
  rw [ht]
  unfold snippet? at ht
  split at ht
  · cases ht
  · rw [hf] at ht
    dsimp only at ht
    rw [if_neg (by omega)] at ht
    exact ht.symm

theorem file?_within (hs : s.Within code.length) :
    (SourceMap.read {} name code).2.file? s.lo = some ⟨name, code.toList, 1⟩ := by
  obtain ⟨-, h₁, h₂, h₃⟩ := hs
  exact plain_empty.file?_read h₁ (show s.lo ≤ 1 + code.length by omega)

theorem Plain.file?_span (h : shared.Plain) (hs : s.Within code.length) :
    (shared.read name code).2.file? (s.shift (shared.next - 1)).lo =
      some ⟨name, code.toList, shared.next⟩ := by
  obtain ⟨-, h₁, h₂, h₃⟩ := hs
  exact h.file?_read (by simp only [Span.shift]; omega) (by simp only [Span.shift]; omega)

/-- A text has the same pieces behind other files. -/
theorem Plain.snippet?_read (h : shared.Plain) (hs : s.Within code.length) :
    (shared.read name code).2.snippet? (s.shift (shared.next - 1)) =
      (SourceMap.read {} name code).2.snippet? s := by
  rw [snippet?_eq (file?_within hs) hs.written hs.lt ?_, snippet?_eq (h.file?_span hs) hs.written ?_ ?_]
  · have hlo : s.lo + (shared.next - 1) - shared.next = s.lo - 1 := by omega
    have hhi : s.hi + (shared.next - 1) - shared.next = s.hi - 1 := by omega
    simp only [Span.shift, hlo, hhi]
  · have := hs.lt
    simp only [Span.shift]
    omega
  · have := hs.le
    simp only [Span.shift, SourceFile.stop, String.length_toList]
    omega
  · have := hs.le
    simp only [SourceFile.stop, String.length_toList]
    omega

end SourceMap

/-- A place to migrate a text at: the map behind the reading of it. -/
def SourceMap.workshop (shared : SourceMap) (settings : Settings) (name code : String) : Workshop :=
  ⟨(shared.read name code).2, settings⟩

/-- Behind other files a text is the same, wherever it is seen from. -/
theorem SourceMap.Plain.sameText {shared : SourceMap} (h : shared.Plain) (settings : Settings)
    (name : String) {code : String} {s : Span} (hs : s.Within code.length) :
    (SourceMap.workshop {} settings name code).SameText (shared.read name code).2
      (.shift (shared.next - 1)) s := by
  intro ctxt
  have hctxt : (s.shift (shared.next - 1)).ctxt = 0 := hs.written
  rw [Workshop.resolve?, Workshop.resolve?, Expansions.walk_of_written _ hctxt,
    Expansions.walk_of_written _ hs.written]
  exact h.snippet?_read hs

/-! ### Sites -/

/-- A site with its spans moved. -/
def Site.mapSpans (f : Span → Span) (site : Site) : Site :=
  ⟨f site.span, match site.outcome with
    | .ok text => .ok text
    | .error v => .error (v.mapSpan f), site.notes.map (·.mapSpan f)⟩

/-- What is said of a site behind other files is what is said of it alone. -/
theorem Site.diagnostic_shift {shared : SourceMap} (h : shared.Plain) (name : String) {code : String}
    {site : Site} (hs : site.span.Within code.length) :
    (site.mapSpans (.shift (shared.next - 1))).diagnostic (shared.read name code).2 =
      site.diagnostic (SourceMap.read {} name code).2 := by
  have hctxt : (site.span.shift (shared.next - 1)).ctxt = 0 := hs.written
  have hfile : (SourceMap.read {} name code).2.file? site.span.lo = some ⟨name, code.toList, 1⟩ :=
    SourceMap.file?_within hs
  have hlo : (site.span.shift (shared.next - 1)).lo - shared.next = site.span.lo - 1 := by
    simp only [Span.shift]
    omega
  have hhi : (site.span.shift (shared.next - 1)).hi - shared.next = site.span.hi - 1 := by
    simp only [Span.shift]
    omega
  rw [diagnostic, diagnostic]
  simp only [mapSpans, Expansions.walk_of_written _ hctxt, Expansions.walk_of_written _ hs.written,
    SourceMap.locate, h.file?_span hs, hfile, hlo, hhi, h.snippet?_read hs]
  obtain ⟨span, outcome, notes⟩ := site
  cases outcome with
  | error v => rfl
  | ok text =>
    simp only [List.map_map, Function.comp_def, Note.mapSpan]
    cases (SourceMap.read {} name code).2.snippet? span with
    | none => rfl
    | some _ => rfl

/-- So is what it puts into the log. -/
theorem Site.log_shift {shared : SourceMap} (h : shared.Plain) (name : String) {code : String}
    {site : Site} (hs : site.span.Within code.length) :
    (site.mapSpans (.shift (shared.next - 1))).log (shared.read name code).2 =
      site.log (SourceMap.read {} name code).2 := by
  have hd := Site.diagnostic_shift h name hs
  obtain ⟨span, outcome, notes⟩ := site
  cases outcome with
  | ok text => rfl
  | error v =>
    simp only [log, mapSpans] at hd ⊢
    rw [hd]
    rfl

/-! ### The walk -/

variable {p : Plan} {sources : SourceMap} {k : Int}

def Context.mapSpans (f : Span → Span) (c : Context) : Context :=
  { c with notes := c.notes.map (·.mapSpan f) }

/-- A walk with its spans moved. -/
def Walk.mapSpans (f : Span → Span) (w : Walk) : Walk :=
  ⟨w.context.mapSpans f, w.excluded.map f, w.sites.map (·.mapSpans f)⟩

/-- The same plan over other sources. -/
def Plan.over (p : Plan) (sources : SourceMap) : Plan := ⟨p.workshop.over sources, p.rules⟩

/-- A node with all text at and below it the same elsewhere. -/
def Node.SameTexts (p : Plan) (sources : SourceMap) (k : Int) (n : Node) : Prop :=
  ∀ m ∈ n.tree.preorder, p.workshop.SameText sources (.shift k) m.span

theorem Node.isCandidate_shift (n : Node) : (n.shift k).isCandidate = n.isCandidate := by
  cases n with
  | expr e => cases e <;> rfl
  | _ => rfl

theorem Walk.excludes_shift (w : Walk) (s : Span) :
    (w.mapSpans (.shift k)).excludes (s.shift k) = w.excludes s := by
  simp only [excludes, mapSpans, List.any_map, Function.comp_def, Span.contains_shift]
  rfl

open Rewrite in
/-- The rewrite of a builder elsewhere follows that of the builder. -/
theorem Node.builder?_shift {n : Node} (h : n.SameTexts p sources k) :
    Option.Rel (Follows (.moved (.shift k) False) Eq) (n.builder? p)
      ((n.shift k).builder? (p.over sources)) := by
  have hctxt (s : Span) : (s.shift k).ctxt = s.ctxt := rfl
  have hkeeps {part : Part} (hp : n.Holds part) :
      p.workshop.Keeps sources (.shift k) False part := by
    obtain ⟨m, hm, hs⟩ := hp
    have ht := h m hm
    rw [hs] at ht
    cases part with
    | copied span => exact ht
    | rewritten span => exact .inr ht
  cases n with
  | expr e =>
    change Option.Rel _ ((builderClosure? p.workshop.settings e).map (p.workshop.rewriteClosure p.rules))
      ((builderClosure? p.workshop.settings (e.shift k)).map
        ((p.workshop.over sources).rewriteClosure p.rules))
    rw [(e.recognised k p.workshop.settings).2, Option.map_map]
    cases hc : builderClosure? p.workshop.settings e with
    | none => exact .none
    | some c =>
      exact .some (Workshop.follows_rewriteClosure hctxt p.rules c fun part hp =>
        hkeeps ((e.holdsParts p.workshop.settings).2 c hc part hp))
  | stmt s =>
    change Option.Rel _ ((stmtChain? p.workshop.settings true s).map (p.workshop.rewriteChain p.rules))
      ((stmtChain? p.workshop.settings true (s.shift k)).map
        ((p.workshop.over sources).rewriteChain p.rules))
    rw [Expr.Recognised.stmtChain?_shift (fun span e _ => e.recognised k p.workshop.settings),
      Option.map_map]
    cases hc : stmtChain? p.workshop.settings true s with
    | none => exact .none
    | some c =>
      refine .some (Workshop.follows_rewriteChain hctxt p.rules c fun part hp => hkeeps ?_)
      cases s with
      | semi span e =>
        exact ((e.holdsParts p.workshop.settings).1 true c hc part hp).of_child (by simp [children])
      | _ => cases hc
  | item i => exact .none
  | module m => exact .none

/-- Looking at a node elsewhere. -/
theorem Walk.tryNode_shift (w : Walk) {n : Node} (h : n.SameTexts p sources k) :
    (w.mapSpans (.shift k)).tryNode (p.over sources) (n.shift k) =
      ((w.tryNode p n).1, (w.tryNode p n).2.mapSpans (.shift k)) := by
  have hctxt : (n.shift k).span.ctxt = n.span.ctxt := by rw [Node.span_shift]; rfl
  have hrel := n.builder?_shift h
  rw [tryNode, tryNode, Node.isCandidate_shift, Node.classify_apply, Node.classify_apply, hctxt]
  split
  · generalize n.builder? p = found at hrel
    generalize (n.shift k).builder? (p.over sources) = found' at hrel
    cases hrel with
    | none => rfl
    | @some work work' hwork =>
      have hdraft : Draft.mapSpans (.shift k) { ctxt := n.span.ctxt } = { ctxt := n.span.ctxt } := rfl
      obtain ⟨hf, -⟩ | hrun := hwork.moved { ctxt := n.span.ctxt }
      · exact hf.elim
      · rw [hdraft] at hrun
        dsimp only
        rw [hrun]
        obtain ⟨r, d⟩ := work { ctxt := n.span.ctxt }
        cases r <;> simp [Site.ofAttempt?, mapSpans, Site.mapSpans, Context.mapSpans,
          Draft.mapSpans, Except.mapError]
  · rfl

mutual

theorem Rose.visit_shift (w : Walk) : ∀ t : Rose Node,
    (∀ n ∈ t.preorder, n.SameTexts p sources k) →
      (t.shift k).visit (p.over sources) (w.mapSpans (.shift k)) = (t.visit p w).mapSpans (.shift k)
  | .node n kids, h => by
    rw [Rose.preorder, List.forall_mem_cons] at h
    rw [Rose.shift, Rose.visit, Rose.visit, Node.span_shift, Walk.excludes_shift, w.tryNode_shift h.1]
    split
    · rfl
    · rcases w.tryNode p n with ⟨found, w'⟩
      cases found with
      | true => rfl
      | false => exact Rose.visitAll_shift w' kids h.2

theorem Rose.visitAll_shift (w : Walk) : ∀ trees : List (Rose Node),
    (∀ n ∈ Rose.preorders trees, n.SameTexts p sources k) →
      Rose.visitAll (p.over sources) (w.mapSpans (.shift k)) (shiftTrees k trees) =
        (Rose.visitAll p w trees).mapSpans (.shift k)
  | [], _ => rfl
  | t :: trees, h => by
    rw [Rose.preorders, List.forall_mem_append] at h
    rw [shiftTrees, Rose.visitAll, Rose.visitAll, Rose.visit_shift w t h.1,
      Rose.visitAll_shift _ trees h.2]

end

/-! ### Files -/

variable {ts : List Token} {m : Module} {shared : SourceMap} {settings : Settings}

/-- The walk through a file whose nodes all have the same texts elsewhere. -/
theorem Module.walk_shift (h : ∀ n ∈ Rose.preorders (itemTrees m.items), n.SameTexts p sources k) :
    (m.shift k).walk (p.over sources) = (m.walk p).mapSpans (.shift k) := by
  rw [walk, Module.tree_shift]
  exact Rose.visitAll_shift {} (itemTrees m.items) h

/-- What is found in a file that is laid out behind other files is what is found in it alone. -/
theorem Module.findings_shift (hs : shared.Plain) {name code : String}
    (hl : Laid ts 1 (itemTrees m.items) (1 + code.length)) (settings : Settings) (rules : Rules) :
    (m.shift (shared.next - 1)).findings ⟨⟨(shared.read name code).2, settings⟩, rules⟩ =
      m.findings ⟨⟨(SourceMap.read {} name code).2, settings⟩, rules⟩ := by
  have htexts : ∀ n ∈ Rose.preorders (itemTrees m.items),
      n.SameTexts ⟨⟨(SourceMap.read {} name code).2, settings⟩, rules⟩ (shared.read name code).2
        (shared.next - 1) := by
    intro n hn n' hn'
    obtain ⟨-, hlo, hhi⟩ := hl.inside n hn
    obtain ⟨hp, hlo', hhi'⟩ := (Laid.below m.children_trees hl n hn).inside n' hn'
    rw [n.tree_span] at hlo' hhi'
    exact hs.sameText settings name ⟨hp.written, by omega, hp.lt, by omega⟩
  have hrow := Module.row_sites (p := ⟨⟨(SourceMap.read {} name code).2, settings⟩, rules⟩) hl
  have hwithin : ∀ site ∈ (m.walk ⟨⟨(SourceMap.read {} name code).2, settings⟩, rules⟩).sites,
      site.span.Within code.length := fun site h =>
    ⟨(hrow.written site h).1, (hrow.inside site h).1, (hrow.written site h).2, (hrow.inside site h).2⟩
  have hwalk := Module.walk_shift htexts
  simp only [Plan.over] at hwalk
  simp only [findings, hwalk, Walk.mapSpans, Context.mapSpans, List.map_map, List.flatMap_map,
    Findings.mk.injEq, and_true]
  constructor
  · exact List.map_congr_left fun site h => Site.diagnostic_shift hs name (hwithin site h)
  · exact List.flatMap_congr fun site h => Site.log_shift hs name (hwithin site h)

/-- Migrates one text behind the files of a map. -/
def SourceMap.migrate (shared : SourceMap) (settings : Settings) (rules : Rules) (path code : String) :
    Except Failure Migrated :=
  match (shared.read path code).1 with
  | .error (.rejected e) =>
    .ok { result := { code, errors := [path ++ ": " ++ e.message], success := false } }
  | .error failure => .error failure
  | .ok m =>
    let f := m.migrate settings rules (shared.read path code).2
    .ok { result := { code := f.edited code, diagnostics := f.diagnostics }
          logs := f.logs, consulted := f.consulted }

/-- A text alone is a text behind no files. -/
theorem SourceMap.migrate_empty (settings : Settings) (rules : Rules) (path code : String) :
    SourceMap.migrate {} settings rules path code =
      BuilderMigration.migrate settings rules path code := by
  rw [migrate_eq_match]
  rfl

/-- Whatever files were read before, a text is read to the same tree, moved by one constant, or is
rejected at the same line and column; and its migration has the same outcome: the same diagnostics, the
same new text and the same log. -/
theorem SourceMap.migrate_ofFiles (files : List (String × String)) (settings : Settings) (rules : Rules)
    (name code : String) :
    ((ofFiles files).read name code).1 =
        Module.shift ((ofFiles files).next - 1) <$> (SourceMap.read {} name code).1 ∧
      (ofFiles files).migrate settings rules name code =
        BuilderMigration.migrate settings rules name code := by
  have hplain := plain_ofFiles files
  generalize ofFiles files = shared at hplain
  have hread : (shared.read name code).1 =
      Module.shift (shared.next - 1) <$> (SourceMap.read {} name code).1 := by
    have hnext : 1 + (shared.next - 1) = shared.next := by omega
    have hshift := readModule_shift code name 1 (shared.next - 1)
    rwa [hnext] at hshift
  refine ⟨hread, ?_⟩
  rw [← migrate_empty, SourceMap.migrate, SourceMap.migrate, hread]
  cases hm : (SourceMap.read {} name code).1 with
  | error failure => cases failure <;> rfl
  | ok m =>
    obtain ⟨-, -, ts, -, hl⟩ := readModule_laid hm (show (0 : Int) ≤ 1 by omega)
    have hfound : (m.shift (shared.next - 1)).migrate settings rules (shared.read name code).2 =
        m.migrate settings rules (SourceMap.read {} name code).2 := by
      rw [Module.migrate, Module.migrate, Module.resolved_shift]
      exact Module.findings_shift hplain (Module.resolved_laid settings hl) settings rules
    simp only [Functor.map, Except.map, hfound]

end BuilderMigration
