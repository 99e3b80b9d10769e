import BuilderMigration.Proofs.Migration.Layout
import BuilderMigration.Proofs.Shift.Reading
import BuilderMigration.Proofs.Source.EditedTokens

/-! The tokens of a migrated text: those of the original with the tokens of each replacement in place of
the ones in its range, just if the text around the replacements is read as it was before. -/

namespace BuilderMigration

variable {settings : Settings} {rules : Rules} {path code : String} {m : Module} {s : Suggestion}
  {ts : List Token}

/-! ### Where the edits cut -/

theorem Site.ofBuilder_span (b : Node × Rewrite String) : (ofBuilder b).span = b.1.span := by
  unfold ofBuilder
  rcases b.2 { ctxt := b.1.span.ctxt } with ⟨v | text, d⟩ <;> rfl

/-- A text that is read has its tokens at every position. -/
theorem readModule_tokens (h : readModule code 1 path = .ok m) :
    ∃ ts, tokensOf code 0 = .ok ts ∧
      Laid (ts.map (·.shift 1)) 1 (itemTrees m.items) (1 + code.length) := by
  obtain ⟨-, -, us, hus, hl⟩ := readModule_laid h (by omega)
  have hshift := tokensOf_shift code 0 1
  rw [Int.zero_add, hus] at hshift
  cases hts : tokensOf code 0 with
  | error f =>
    rw [hts] at hshift
    cases hshift
  | ok ts =>
    rw [hts] at hshift
    obtain rfl : us = ts.map (·.shift 1) := Except.ok.inj hshift
    exact ⟨ts, rfl, hl⟩

namespace Module

variable (h : readModule code 1 path = .ok m)

include h

/-- Every suggestion is the fix of a builder, and cuts the text where tokens begin and end. -/
theorem exists_builder_of_suggestion (hl : Laid (ts.map (·.shift 1)) 1 (itemTrees m.items) (1 + code.length))
    (hs : s ∈ ((m.resolved settings).findings (.alone settings rules path code)).diagnostics.filterMap
      (·.suggestion)) :
    ∃ b ∈ (m.resolved settings).builders (.alone settings rules path code),
      (Site.ofBuilder b).outcome = .ok s.edit.replacement ∧ s.edit.start < s.edit.stop ∧
        (∃ t ∈ ts, t.lo = s.edit.start) ∧ ∃ t ∈ ts, t.hi = s.edit.stop := by
  obtain ⟨d, hd, hs⟩ := List.mem_filterMap.1 hs
  have hfix := (sound_alone h settings rules d hd).suggestion hs
  have hlt := (sound_alone h settings rules d hd).lt
  obtain ⟨site, hsite, rfl⟩ := List.mem_map.1 hd
  have hwritten := (row_alone h settings rules).written site hsite
  have hrange := Site.diagnostic_range (file?_site h settings rules hsite) hwritten.1
  have hbuilder := hsite
  rw [← sites, sites_eq_builders h] at hbuilder
  obtain ⟨b, hb, rfl⟩ := List.mem_map.1 hbuilder
  obtain ⟨-, -, hproper⟩ := builders_laminar (resolved_laid settings hl) hb
  have hproper := hproper.proper
  rw [Node.tree_span, ← Site.ofBuilder_span] at hproper
  obtain ⟨t, ht, hlo⟩ := hproper.exists_lo
  obtain ⟨u, hu, hhi⟩ := hproper.exists_hi
  obtain ⟨t, ht', rfl⟩ := List.mem_map.1 ht
  obtain ⟨u, hu', rfl⟩ := List.mem_map.1 hu
  simp only [Token.shift] at hlo hhi
  dsimp only at hrange
  exact ⟨b, hb, (Site.suggestion_inv hs).1, by omega, ⟨t, ht', by omega⟩, u, hu', by omega⟩

end Module

/-! ### Tokens of migrated texts -/

/-- A text whose migration, where it succeeds, changes the tokens in the ranges of the suggestions and no
others: the migrated text has those of the replacements in their place, wherever they come to stand. -/
def TokenSafe (settings : Settings) (rules : Rules) (path code : String) : Prop :=
  ∀ r, migrate settings rules path code = .ok r → r.result.success = true →
    (∀ s ∈ r.result.suggestions, (tokenize s.edit.replacement 0).fault = none) ∧
    ∃ ts us, tokensOf code 0 = .ok ts ∧ tokensOf r.result.code 0 = .ok us ∧
      us.map Token.bare =
        (Edit.tokensAfter 0 (r.result.suggestions.map (·.edit)) ts).map Token.bare

theorem tokensOf_eq_ok_iff {us : List Token} {start : Int} :
    (∃ vs, tokensOf code start = .ok vs ∧ vs.map Token.bare = us.map Token.bare) ↔
      Lexes [] start code.toList (us.map Token.bare) := by
  constructor
  · rintro ⟨vs, hvs, hbare⟩
    rw [← hbare]
    exact lexes_of_tokensOf hvs
  · exact tokensOf_of_lexes

/-! ### Replacements -/

/-- What is written alike in both layouts is sealed unless it holds a fault. -/
theorem Site.Alike.isSealed {site site' : Site} (h : site.Alike site') (text : String)
    (htext : site.outcome = .ok text) (hsound : (tokenize text 0).fault = none) : Sealed text := by
  cases h with
  | rewritten span notes hab =>
    obtain rfl := Except.ok.inj htext
    obtain ⟨x, hx, -⟩ := hab
    exact hx.sealed_of_sound hsound
  | refused => cases htext

/-- So is every text that a builder of a file is replaced by. -/
theorem Module.sealed_of_outcome (h : readModule code 1 path = .ok m) (hr : rules.Telling)
    (hs : ∀ e ∈ settings.closureSignatures, Legible e.2) :
    ∀ site ∈ (m.resolved settings).sites (.alone settings rules path code), ∀ text,
      site.outcome = .ok text → (tokenize text 0).fault = none → Sealed text :=
  ((List.forall₂_and_left _ _).1 ((sites_layouts h hr hs settings.multiline).imp
    fun _ _ hsite => ⟨hsite.isSealed, hsite⟩)).1

/-- Where the replacements are made of whole tokens the migrated text has them in their places just if it
is set off from them. -/
theorem Module.tokensAfter_iff (h : readModule code 1 path = .ok m) (hr : rules.Telling)
    (hs : ∀ e ∈ settings.closureSignatures, Legible e.2) {r : Migrated}
    (hrun : BuilderMigration.migrate settings rules path code = .ok r)
    (hsound : ∀ s ∈ r.result.suggestions, (tokenize s.edit.replacement 0).fault = none) :
    (∃ ts us, tokensOf code 0 = .ok ts ∧ tokensOf r.result.code 0 = .ok us ∧ us.map Token.bare =
        (Edit.tokensAfter 0 (r.result.suggestions.map (·.edit)) ts).map Token.bare) ↔
      Edit.SetOff 0 (r.result.suggestions.map (·.edit)) code.toList r.result.code.toList := by
  rw [Module.migrate_eq h] at hrun
  obtain rfl := Except.ok.inj hrun
  obtain ⟨ts, hts, hl⟩ := readModule_tokens h
  have hspliced := applyEdits_spliced (Diagnostic.suggestions_apart
    (sound_alone h settings rules) (apart_alone h settings rules))
  have hcuts : ∀ e ∈ (((m.resolved settings).findings
      (.alone settings rules path code)).diagnostics.filterMap (·.suggestion)).map (·.edit),
      Sealed e.replacement ∧ e.start < e.stop ∧
      (∃ t ∈ ts.map Token.bare, t.lo = e.start) ∧ ∃ t ∈ ts.map Token.bare, t.hi = e.stop := by
    intro e he
    obtain ⟨s, hs', rfl⟩ := List.mem_map.1 he
    obtain ⟨b, hb, htext, hlt, ⟨t, ht, hlo⟩, u, hu, hhi⟩ := exists_builder_of_suggestion h hl hs'
    have hsite : Site.ofBuilder b ∈ (m.resolved settings).sites (.alone settings rules path code) := by
      rw [sites_eq_builders h]
      exact List.mem_map_of_mem hb
    exact ⟨sealed_of_outcome h hr hs _ hsite _ htext (hsound s hs'), hlt,
      ⟨_, List.mem_map_of_mem ht, hlo⟩, _, List.mem_map_of_mem hu, hhi⟩
  have hiff := lexes_tokensAfter_iff hspliced (lexes_of_tokensOf hts) (fun e he => (hcuts e he).2)
    (fun e he => (hcuts e he).1) 0
  rw [Edit.tokensAfter_bare, Int.add_zero] at hiff
  refine Iff.trans ?_ hiff
  rw [← tokensOf_eq_ok_iff]
  constructor
  · rintro ⟨ts', us, hts', hus⟩
    obtain rfl := Except.ok.inj (hts.symm.trans hts')
    exact ⟨us, hus⟩
  · rintro ⟨us, hus⟩
    exact ⟨ts, us, hts, hus⟩

/-- Under the bundled rules a migration changes the tokens in the ranges of its suggestions and no others
just if every replacement is made of whole tokens, what is in front of a range is read there as it was
before, and no replacement that ends in a name runs into a name behind it. -/
theorem tokenSafe_iff {raw : List (String × RawValue)} (h : Settings.check raw = .ok settings)
    (path code : String) : TokenSafe settings {} path code ↔
      ∀ r, migrate settings {} path code = .ok r → r.result.success = true →
        (∀ s ∈ r.result.suggestions, (tokenize s.edit.replacement 0).fault = none) ∧
        Edit.SetOff 0 (r.result.suggestions.map (·.edit)) code.toList r.result.code.toList := by
  refine forall₃_congr fun r hr hs => and_congr_right fun hsound => ?_
  obtain ⟨m, hm⟩ := exists_module_of_success hr hs
  exact Module.tokensAfter_iff hm Rules.telling_bundled (Settings.legible_of_check h) hr hsound

/-- A replacement that ends in a name, in front of a bracket. -/
theorem tokenSafe_response : Settings.check [] = .ok {} ∧
    ((migrate {} {} noFile
      "fn f(i: Ci) \x7b i.create_interaction_response(|r| r.kind(InteractionResponseType::Pong)); \x7d"
      ).toOption.map fun r => (r.result.success, r.result.suggestions.map (·.edit.replacement))) =
      some (true, ["CreateInteractionResponse::Pong"]) ∧
    TokenSafe {} {} noFile
      "fn f(i: Ci) \x7b i.create_interaction_response(|r| r.kind(InteractionResponseType::Pong)); \x7d" := by
  have hcheck : Settings.check [] = .ok {} := rfl
  refine ⟨hcheck, ?_⟩
  generalize htext :
    "fn f(i: Ci) \x7b i.create_interaction_response(|r| r.kind(InteractionResponseType::Pong)); \x7d" = text
  have hlook : ((migrate {} {} noFile text).toOption.map fun r =>
      ((r.result.success, r.result.suggestions.map (·.edit.replacement)),
        decide ((∀ s ∈ r.result.suggestions, (tokenize s.edit.replacement 0).fault = none) ∧
          Edit.SetOff 0 (r.result.suggestions.map (·.edit)) text.toList r.result.code.toList))) =
      some ((true, ["CreateInteractionResponse::Pong"]), true) := by
    rw [← htext]
    decide +kernel
  obtain ⟨r, hr, hlook⟩ := exists_of_toOption_map hlook
  obtain ⟨hshape, hsafe⟩ := Prod.mk.inj hlook
  rw [hr]
  refine ⟨congrArg some hshape, (tokenSafe_iff hcheck noFile text).2 fun r' hr' _ => ?_⟩
  obtain rfl := Except.ok.inj (hr.symm.trans hr')
  exact of_decide_eq_true hsafe

/-- A name in front of a closure runs into the constructor that replaces it. -/
theorem not_tokenSafe :
    (∃ r ts us,
      migrate {} {} noFile
        "use serenity::builder::CreateMessage; fn f() \x7b return|m: &mut CreateMessage| m; \x7d" = .ok r ∧
      r.result.success = true ∧
      tokensOf "use serenity::builder::CreateMessage; fn f() \x7b return|m: &mut CreateMessage| m; \x7d" 0
        = .ok ts ∧
      tokensOf r.result.code 0 = .ok us ∧
      us.map (fun t => (t.kind, t.value)) ≠
        (Edit.tokensAfter 0 (r.result.suggestions.map (·.edit)) ts).map fun t => (t.kind, t.value)) ∧
    ¬ TokenSafe {} {} noFile
      "use serenity::builder::CreateMessage; fn f() \x7b return|m: &mut CreateMessage| m; \x7d" := by
  generalize htext :
    "use serenity::builder::CreateMessage; fn f() \x7b return|m: &mut CreateMessage| m; \x7d" = text
  have hlook : ((migrate {} {} noFile text).toOption.map fun r => (r.result.success,
      (tokensOf text 0).toOption.map fun ts => (tokensOf r.result.code 0).toOption.map fun us =>
        decide (us.map (fun t => (t.kind, t.value)) =
          (Edit.tokensAfter 0 (r.result.suggestions.map (·.edit)) ts).map fun t => (t.kind, t.value)))) =
      some (true, some (some false)) := by
    rw [← htext]
    decide +kernel
  obtain ⟨r, hr, hlook⟩ := exists_of_toOption_map hlook
  obtain ⟨hs, hlook⟩ := Prod.mk.inj hlook
  obtain ⟨ts, hts, hlook⟩ := exists_of_toOption_map hlook
  obtain ⟨us, hus, hlook⟩ := exists_of_toOption_map hlook
  have hne := of_decide_eq_false hlook
  refine ⟨⟨r, ts, us, hr, hs, hts, hus, hne⟩, fun hsafe => hne ?_⟩
  obtain ⟨-, ts', us', hts', hus', heq⟩ := hsafe r hr hs
  obtain rfl := Except.ok.inj (hts.symm.trans hts')
  obtain rfl := Except.ok.inj (hus.symm.trans hus')
  have hbare (ws : List Token) : ws.map (fun t => (t.kind, t.value)) =
      (ws.map Token.bare).map fun t => (t.kind, t.value) := by
    rw [List.map_map]
    rfl
  rw [hbare us, heq, ← hbare]

end BuilderMigration
