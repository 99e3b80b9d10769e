import BuilderMigration.Proofs.Idiom.Leftover
import BuilderMigration.Proofs.Migration.Again

/-! What a fix leaves of the old style. A fix that is safe to make takes text over from the parts that it
copies and from nothing else, and all idioms outside of these it writes anew; so it leaves an idiom
behind just where one stands in an argument or a statement that is copied. -/

namespace BuilderMigration

open Rewrite (Follows)

variable {p : Plan} {n : Node} {work : Rewrite String} {settings : Settings} {rules : Rules}
  {path code : String} {m : Module} {b : Node × Rewrite String} {s : Suggestion}

/-! ### What a text is written from -/

mutual

theorem Arg.mapSpans_id : ∀ a : Arg, a.mapSpans id = a
  | .literal span path => rfl
  | .closure ⟨builder, binding, stmts, ⟨receiver, base, calls⟩, span⟩ => by
    rw [Arg.mapSpans, mapPreludeSpans_id stmts, mapCallSpans_id calls, id]

theorem mapArgSpans_id : ∀ as : List Arg, mapArgSpans id as = as
  | [] => rfl
  | a :: as => by rw [mapArgSpans, a.mapSpans_id, mapArgSpans_id as]

theorem mapCallSpans_id : ∀ calls : List BuilderCall, mapCallSpans id calls = calls
  | [] => rfl
  | ⟨field, args⟩ :: calls => by rw [mapCallSpans, mapArgSpans_id args, mapCallSpans_id calls]

theorem mapPreludeSpans_id : ∀ stmts : List BuilderPrelude, mapPreludeSpans id stmts = stmts
  | [] => rfl
  | .verbatim span :: stmts => by rw [mapPreludeSpans, mapPreludeSpans_id stmts, id]
  | .assignment ⟨receiver, base, calls⟩ span :: stmts => by
    rw [mapPreludeSpans, mapPreludeSpans_id stmts, mapCallSpans_id calls, id]

end

theorem BuilderChain.mapSpans_id (c : BuilderChain) : BuilderChain.mapSpans id c = c := by
  rw [mapSpans, mapCallSpans_id]

theorem BuilderClosure.mapSpans_id (c : BuilderClosure) : c.mapSpans id = c := by
  rw [mapSpans, mapPreludeSpans_id, BuilderChain.mapSpans_id, id]

/-- A text that a builder has over any sources with the same text in the copied parts of it. -/
def Node.WrittenFromCopies (p : Plan) (n : Node) (text : String) : Prop :=
  ∀ sources, (∀ s, .copied s ∈ n.parts p.workshop.settings → p.workshop.SameText sources id s) →
    ∃ work, n.builder? ⟨p.workshop.over sources, p.rules⟩ = some work ∧
      (work { ctxt := n.span.ctxt }).1 = .ok text

/-- A rewrite that takes no note uses text of the copied parts alone. -/
theorem Node.writtenFromCopies {text : String} {d : Draft} (hb : n.builder? p = some work)
    (h : work { ctxt := n.span.ctxt } = (.ok text, d)) (hd : d.notes = []) :
    n.WrittenFromCopies p text := by
  intro sources hsame
  have hctxt (s : Span) : (id s).ctxt = s.ctxt := rfl
  have hfollows : ∃ work', n.builder? ⟨p.workshop.over sources, p.rules⟩ = some work' ∧
      Follows (.moved id True) Eq work work' := by
    have hkeeps {part : Part} (hp : part ∈ n.parts p.workshop.settings) :
        p.workshop.Keeps sources id True part := by
      cases part with
      | copied s => exact hsame s hp
      | rewritten s => exact .inl trivial
    cases n with
    | expr e =>
      obtain ⟨c, hc, rfl⟩ := Option.map_eq_some_iff.1 hb
      simp only [parts, hc, Option.map_some, Option.getD_some] at hkeeps
      refine ⟨_, congrArg (Option.map _) hc, ?_⟩
      have hf := Workshop.follows_rewriteClosure hctxt p.rules c fun _ => hkeeps
      rwa [BuilderClosure.mapSpans_id] at hf
    | stmt s =>
      obtain ⟨c, hc, rfl⟩ := Option.map_eq_some_iff.1 hb
      simp only [parts, hc, Option.map_some, Option.getD_some] at hkeeps
      refine ⟨_, congrArg (Option.map _) hc, ?_⟩
      have hf := Workshop.follows_rewriteChain hctxt p.rules c fun part hp =>
        hkeeps (List.mem_cons_of_mem _ hp)
      rwa [BuilderChain.mapSpans_id] at hf
    | item i => cases hb
    | module m => cases hb
  obtain ⟨work', hb', hw⟩ := hfollows
  refine ⟨work', hb', ?_⟩
  obtain ⟨-, hlt⟩ | hrun := hw.moved { ctxt := n.span.ctxt }
  · rw [h, hd] at hlt
    cases hlt
  · have hdraft : Draft.mapSpans id { ctxt := n.span.ctxt } = { ctxt := n.span.ctxt } := rfl
    rw [hdraft, h] at hrun
    rw [hrun]
    rfl

/-! ### Fixes that are safe to make -/

/-- A fix of a text that is safe to make, with the builder that it replaces. -/
structure SafeFix (settings : Settings) (rules : Rules) (path code : String) (m : Module)
    (b : Node × Rewrite String) (s : Suggestion) : Prop where
  read : readModule code 1 path = .ok m
  builder : b ∈ (m.resolved settings).builders (.alone settings rules path code)
  suggestion : ((Site.ofBuilder b).diagnostic
    (Plan.alone settings rules path code).workshop.sources).suggestion = some s
  safe : s.applicability = .machineApplicable

/-- A suggestion has the text of its site, and is safe if there is nothing to note. -/
theorem Site.suggestion_inv {sources : SourceMap} {site : Site}
    (h : (site.diagnostic sources).suggestion = some s) :
    site.outcome = .ok s.edit.replacement ∧
      (s.applicability = .machineApplicable → site.notes = []) := by
  unfold diagnostic at h
  dsimp only at h
  cases ho : site.outcome with
  | error v =>
    rw [ho] at h
    cases h
  | ok text =>
    rw [ho] at h
    dsimp only at h
    split at h
    · cases h
    · obtain rfl := Option.some.inj h
      refine ⟨rfl, fun hsafe => ?_⟩
      cases hnotes : site.notes with
      | nil => rfl
      | cons note notes => simp [hnotes] at hsafe

theorem Site.ofBuilder_ok {text : String} (h : (ofBuilder b).outcome = .ok text) :
    ∃ d, b.2 { ctxt := b.1.span.ctxt } = (.ok text, d) ∧ d.notes = (ofBuilder b).notes := by
  unfold ofBuilder at h ⊢
  generalize b.2 { ctxt := b.1.span.ctxt } = run at h ⊢
  obtain ⟨v | text', d⟩ := run
  · cases h
  · obtain rfl := Except.ok.inj h
    exact ⟨d, rfl, rfl⟩

namespace SafeFix

variable (h : SafeFix settings rules path code m b s)

include h

theorem laid : b.1.builder? (.alone settings rules path code) = some b.2 ∧ ∃ ts, b.1.tree.Laminar ts := by
  obtain ⟨-, -, ts, -, hl⟩ := readModule_laid h.read (by omega)
  obtain ⟨hb, -, hts⟩ := Module.builders_laminar (Module.resolved_laid settings hl) h.builder
  exact ⟨hb, ts, hts⟩

theorem written : b.1.WrittenFromCopies (.alone settings rules path code) s.edit.replacement := by
  obtain ⟨hok, hnotes⟩ := Site.suggestion_inv h.suggestion
  obtain ⟨d, hrun, hd⟩ := Site.ofBuilder_ok hok
  exact Node.writtenFromCopies h.laid.1 hrun (hd.trans (hnotes h.safe))

/-- An idiom in what a safe fix replaces is written anew, or it stands in text that is copied. -/
theorem covered {d : Node} (hd : d ∈ b.1.tree.preorder) (hi : d.isIdiom settings = true) :
    d.Covered (b.1.parts settings) := by
  obtain ⟨hb, ts, hl⟩ := h.laid
  exact Node.covered hl hb d hd hi

end SafeFix

/-- No safe fix of a text leaves an idiom behind: all idioms in what it replaces are written anew, and
none of them stands in text that is copied. -/
def LeavesNoIdiom (settings : Settings) (rules : Rules) (path code : String) : Prop :=
  ∀ m b s, SafeFix settings rules path code m b s →
    ∀ d ∈ b.1.tree.preorder, d.isIdiom settings = true →
      .rewritten d.span ∈ b.1.parts settings ∧
        ∀ t, .copied t ∈ b.1.parts settings → t.contains d.span = false

/-- A safe fix is written from the parts that it copies and from no other text, and it leaves no idiom
behind just where none stands in such a part. -/
theorem leavesNoIdiom_iff (settings : Settings) (rules : Rules) (path code : String) :
    (∀ m b s, SafeFix settings rules path code m b s →
      b.1.WrittenFromCopies (.alone settings rules path code) s.edit.replacement) ∧
    (LeavesNoIdiom settings rules path code ↔
      ∀ m b s, SafeFix settings rules path code m b s →
        ∀ d ∈ b.1.tree.preorder, d.isIdiom settings = true →
          ∀ t, .copied t ∈ b.1.parts settings → t.contains d.span = false) := by
  refine ⟨fun m b s h => h.written, fun h m b s hfix d hd hi => (h m b s hfix d hd hi).2,
    fun h m b s hfix d hd hi => ⟨?_, h m b s hfix d hd hi⟩⟩
  rcases hfix.covered hd hi with hwritten | ⟨t, ht, hin⟩
  · exact hwritten
  · rw [h m b s hfix d hd hi t ht] at hin
    cases hin

/-- A closure in the argument of a setter is copied with the argument. -/
theorem not_leavesNoIdiom :
    (∃ m b s, SafeFix {} {} noFile
        "fn f(c: ChannelId) { c.send_message(|m| m.nonce(c.send_message(|x| x))); }" m b s ∧
      s.edit.replacement = "CreateMessage::new().nonce(c.send_message(|x| x))") ∧
    ¬ LeavesNoIdiom {} {} noFile
      "fn f(c: ChannelId) { c.send_message(|m| m.nonce(c.send_message(|x| x))); }" := by
  generalize htext :
    "fn f(c: ChannelId) { c.send_message(|m| m.nonce(c.send_message(|x| x))); }" = text
  have hlook : (readModule text 1 noFile).toOption.map (fun m =>
      ((m.resolved {}).builders (.alone {} {} noFile text)).map fun b =>
        (((Site.ofBuilder b).diagnostic
            (Plan.alone {} {} noFile text).workshop.sources).suggestion.map fun s =>
          (s.applicability, s.edit.replacement),
        b.1.parts {}, (b.1.tree.preorder.filter (·.isIdiom {})).map (·.span))) =
      some [(some (.machineApplicable, "CreateMessage::new().nonce(c.send_message(|x| x))"),
        [.rewritten ⟨37, 71, 0⟩, .copied ⟨49, 70, 0⟩], [⟨37, 71, 0⟩, ⟨64, 69, 0⟩])] := by
    rw [← htext]
    decide +kernel
  obtain ⟨m, hread, hlook⟩ := exists_of_toOption_map hlook
  obtain ⟨b, hb, hlook⟩ := List.map_eq_singleton_iff.1 hlook
  obtain ⟨hs, hlook⟩ := Prod.mk.inj hlook
  obtain ⟨hparts, hidioms⟩ := Prod.mk.inj hlook
  obtain ⟨s, hs, hsafe⟩ := Option.map_eq_some_iff.1 hs
  obtain ⟨hsafe, hreplacement⟩ := Prod.mk.inj hsafe
  have hfix : SafeFix {} {} noFile text m b s := ⟨hread, by simp [hb], hs, hsafe⟩
  refine ⟨⟨m, b, s, hfix, hreplacement⟩, fun h => ?_⟩
  obtain ⟨d, hd, hspan⟩ : ∃ d ∈ b.1.tree.preorder.filter (·.isIdiom {}), d.span = ⟨64, 69, 0⟩ :=
    List.mem_map.1 (by simp [hidioms])
  rw [List.mem_filter] at hd
  have hcopied := (h m b s hfix d hd.1 hd.2).2 ⟨49, 70, 0⟩ (by simp [hparts])
  rw [hspan] at hcopied
  cases hcopied

end BuilderMigration
