import BuilderMigration.Proofs.Idiom.Recognition
import BuilderMigration.Proofs.Migration.Again
import BuilderMigration.Proofs.Shift.Reading
import BuilderMigration.Proofs.Typing.Traced

/-! Text that has nothing to do with builders is left alone: without the name of the crate of the
builders and without a method that has a signature, no type is a builder's, and where no type is one
there is no site. -/

namespace BuilderMigration

/-! ### Names that make no builder -/

/-- The methods that have a signature of any kind. -/
def Signatures.methods (t : Signatures) : List String :=
  t.entryPoints.map (·.1) ++ t.nested.map (·.1.2) ++ t.fallbacks.map (·.1)

/-- A name that is neither the crate of the builders nor a method with a signature. -/
structure Settings.Foreign (settings : Settings) (name : String) : Prop where
  not_crate : name ≠ settings.builderCrate
  not_method : name ∉ (Signatures.ofSettings settings).methods

/-- A text without a name that can make a builder. -/
def Settings.Unmentioned (settings : Settings) (code : String) : Prop :=
  ∀ t ∈ (tokenize code 1).tokens, t.kind = .ident → settings.Foreign t.value

instance (settings : Settings) (name : String) : Decidable (settings.Foreign name) :=
  decidable_of_iff (name ≠ settings.builderCrate ∧ name ∉ (Signatures.ofSettings settings).methods)
    ⟨fun h => ⟨h.1, h.2⟩, fun h => ⟨h.not_crate, h.not_method⟩⟩

instance (settings : Settings) (code : String) : Decidable (settings.Unmentioned code) :=
  inferInstanceAs (Decidable (∀ t ∈ (tokenize code 1).tokens, t.kind = .ident → _))

/-- A type that is no builder's. -/
def Ty.Plain (settings : Settings) (ty : Ty) : Prop := ty.builder? settings = none

variable {settings : Settings} {m : Module} {n : Names}

/-- A method without a signature gives a closure no builder to configure, unless it is called on one. -/
theorem Signatures.lookup_eq_none {t : Signatures} {method : String} (h : method ∉ t.methods)
    (known : Bool) : t.lookup method none known = none := by
  simp only [methods, List.mem_append, not_or] at h
  obtain ⟨⟨hentry, -⟩, hfallback⟩ := h
  rw [lookup, Assoc.get?_eq_none hentry]
  cases known with
  | true => rfl
  | false => exact Assoc.get?_eq_none hfallback

/-! ### Types -/

/-- A path from another crate is no builder. -/
theorem Ty.plain_adt {path : List String} (h : ∀ s ∈ path, s ≠ settings.builderCrate) :
    (Ty.adt path).Plain settings := by
  match path with
  | [] | [_] | [_, _] => rfl
  | crate :: scope :: name :: names =>
    have hcrate : crate ≠ settings.builderCrate := h crate (List.mem_cons_self ..)
    exact if_neg fun heq => hcrate heq.1

/-- A path of foreign names stands for no builder, whatever is imported under such names. -/
theorem Names.plain_resolvePath {segments : List String}
    (hi : ∀ i ∈ n.imports, i.Named n.settings.Foreign)
    (hg : ∀ path ∈ n.globs, ∀ s ∈ path, n.settings.Foreign s)
    (hs : ∀ s ∈ segments, n.settings.Foreign s) : (n.resolvePath segments).Plain n.settings := by
  cases segments with
  | nil => rfl
  | cons head rest =>
    rw [resolvePath]
    split
    · rfl
    · cases hpath : n.imported? head with
      | some path =>
        obtain ⟨i, hfind, rfl⟩ := Option.map_eq_some_iff.1 hpath
        have himport := hi i (List.mem_of_find?_eq_some hfind)
        refine Ty.plain_adt fun s hmem => ?_
        rcases List.mem_append.1 hmem with hmem | hmem
        · exact (himport s hmem).not_crate
        · exact (hs s (List.mem_cons_of_mem _ hmem)).not_crate
      | none =>
        -- a glob of the module of builders would name their crate
        have hglob : n.builderModule ∉ n.globs := fun hmem =>
          (hg _ hmem n.settings.builderCrate (List.mem_cons_self ..)).not_crate rfl
        dsimp only
        rw [if_neg fun h => hglob h.2.2]
        exact Ty.plain_adt fun s hmem => (hs s hmem).not_crate

theorem Names.plain_resolve (hi : ∀ i ∈ n.imports, i.Named n.settings.Foreign)
    (hg : ∀ path ∈ n.globs, ∀ s ∈ path, n.settings.Foreign s) :
    ∀ ty : Ty, ty.Written n.settings.Foreign → (n.resolve ty).Plain n.settings
  | .ref inner mutable, h => by
    rw [resolve]
    exact plain_resolve hi hg inner h
  | .path segments, h => by
    rw [resolve]
    exact plain_resolvePath hi hg h
  | .adt _, h => h.elim
  | .tuple elems, _ => by
    rw [resolve]
    rfl
  | .prim _, _ => rfl
  | .param _, _ => rfl
  | .other _, _ => rfl

/-- So no type of a text without builders is a builder's. -/
theorem Names.keeps_plain (settings : Settings) (h : ∀ i ∈ m.items, i.Written settings.Foreign) :
    (ofModule settings m).Keeps settings.Foreign (Ty.Plain settings) where
  written := by
    obtain ⟨hi, hg⟩ := ofModule_written settings h
    exact plain_resolve (n := ofModule settings m) hi hg
  call ty result hty hcall := by
    have hty : ty.builder? (ofModule settings m).settings = none := hty
    rw [callType, hty, Option.map_none] at hcall
    cases hcall
  closureArg receiver method builder hr hm hb := by
    have hbuilder : receiver.bind (·.builder? (ofModule settings m).settings) = none := by
      cases receiver with
      | none => rfl
      | some ty => exact hr ty rfl
    have hlookup : (ofModule settings m).closureBuilder receiver method = none := by
      rw [closureBuilder, hbuilder]
      exact Signatures.lookup_eq_none hm.not_method _
    rw [hlookup] at hb
    cases hb

/-! ### Builders -/

variable {N : String → Prop}

/-- No chain begins at an expression of a plain type. -/
theorem chain?_eq_none_of_plain {e : Expr} (h : e.Named N (Ty.Plain settings)) :
    chain? settings true e = none := by
  induction e using Expr.recognition_induction with
  | methodCall span ty receiver method args hr =>
    rw [Expr.Named] at h
    have hstart : chainStart? settings true receiver = none := by
      cases hc : chainStart? settings true receiver with
      | none => rfl
      | some c =>
        obtain ⟨name, -, -, hb⟩ := chainStart?_eq_some settings hc
        obtain ⟨b, hb⟩ := Option.isSome_iff_exists.1 (hb rfl)
        obtain ⟨ty, hty, hbuilder⟩ := Option.bind_eq_some_iff.1 hb
        exact nomatch (h.2.1.ty ty hty).symm.trans hbuilder
    rw [chain?_methodCall, hr h.2.1, hstart]
    rfl
  | closure span params body captures => simp only [chain?]
  | other e hcall _ =>
    cases e with
    | methodCall => exact (hcall _ _ _ _ _ rfl).elim
    | _ => simp only [chain?]

/-- No closure configures a builder if the types of its parameters are plain. -/
theorem builderBinding?_eq_none_of_plain {params : List Param}
    (h : ∀ p ∈ params, p.Named N (Ty.Plain settings)) : builderBinding? settings params = none := by
  match params with
  | [] | _ :: _ :: _ => rfl
  | [p] =>
    have hty : p.ty.bind (·.mutBuilder? settings) = none := by
      cases hp : p.ty with
      | none => rfl
      | some ty =>
        have hplain : ty.Plain settings := (h p (List.mem_singleton_self p)).ty ty hp
        cases ty with
        | ref inner mutable =>
          cases mutable with
          | true => exact hplain
          | false => rfl
        | _ => rfl
    simp only [builderBinding?, hty]
    cases p.pattern <;> rfl

theorem Node.builder?_eq_none_of_plain {p : Plan} {x : Node}
    (h : x.Named N (Ty.Plain p.workshop.settings)) : x.builder? p = none := by
  cases x with
  | stmt s =>
    cases s with
    | semi span e =>
      rw [Node.Named, Stmt.Named] at h
      simp only [builder?, stmtChain?, chain?_eq_none_of_plain h, Option.map_none]
    | _ => rfl
  | expr e =>
    cases e with
    | closure span params body captures =>
      rw [Node.Named, Expr.Named] at h
      simp only [builder?, builderClosure?_closure, builderBinding?_eq_none_of_plain h.1,
        Option.bind_none, Option.map_none]
    | _ => simp only [builder?, builderClosure?, Option.map_none]
  | item i => rfl
  | module m => rfl

/-! ### Runs -/

variable {code path : String} {r : Migrated}

/-- A text without a name that can make a builder has no site. -/
theorem Module.sites_eq_nil (h : readModule code 1 path = .ok m) (hu : settings.Unmentioned code)
    (rules : Rules) : (m.resolved settings).sites (.alone settings rules path code) = [] := by
  have hwritten := readModule_written h hu
  have hnamed := itemsNamed_iff.1
    ((Names.keeps_plain settings hwritten).items m.items (itemsNamed_iff.2 hwritten))
  have hnodes : ∀ x ∈ (m.resolved settings).tree.preorder,
      x.Named settings.Foreign (Ty.Plain settings) :=
    Node.forall_preorder (x := .module (m.resolved settings)) (fun _ _ => Node.Named.child) hnamed
  rw [sites_eq_builders h, List.map_eq_nil_iff, List.eq_nil_iff_forall_not_mem]
  intro b hb
  obtain ⟨x, hx, hxb⟩ := Rose.exists_mem_of_mem_outermost hb
  rw [Node.builder?_eq_none_of_plain (p := .alone settings rules path code) (hnodes x hx)] at hxb
  cases hxb

/-- Where neither the crate of the builders nor a method with a signature is named, a migration that
comes to an end finds nothing and changes nothing, whether or not the text can be read. -/
theorem migrate_unmentioned (h : settings.Unmentioned code) (rules : Rules)
    (hr : migrate settings rules path code = .ok r) :
    r.result.diagnostics = [] ∧ r.result.code = code := by
  rw [migrate_eq_match] at hr
  cases hm : readModule code 1 path with
  | error failure =>
    rw [hm] at hr
    cases failure with
    | rejected e =>
      cases hr
      exact ⟨rfl, rfl⟩
    | _ => cases hr
  | ok m =>
    rw [hm] at hr
    have hnone : ((m.resolved settings).findings (.alone settings rules path code)).diagnostics = [] := by
      have hsites := Module.sites_eq_nil hm h rules
      exact List.map_eq_nil_iff.2 hsites
    cases hr
    refine ⟨hnone, ?_⟩
    rw [Findings.edited, hnone]
    exact applyEdits_nil code

/-- Builders of another crate, imported, annotated and passed to closures. -/
theorem migrate_unmentioned_other : ∃ r,
    Settings.Unmentioned {} "use b::builder::*; fn f(m: &mut CreateEmbed) { g(|e: &mut CreateEmbed| e.x(m)); m.y(1); }" ∧
      migrate {} {} "a.rs"
        "use b::builder::*; fn f(m: &mut CreateEmbed) { g(|e: &mut CreateEmbed| e.x(m)); m.y(1); }" = .ok r ∧
      r.result.success = true ∧ r.result.diagnostics = [] ∧ r.result.code =
        "use b::builder::*; fn f(m: &mut CreateEmbed) { g(|e: &mut CreateEmbed| e.x(m)); m.y(1); }" := by
  generalize htext :
    "use b::builder::*; fn f(m: &mut CreateEmbed) { g(|e: &mut CreateEmbed| e.x(m)); m.y(1); }" = text
  have hu : Settings.Unmentioned {} text := by
    rw [← htext]
    decide +kernel
  have hsuccess : (migrate {} {} "a.rs" text).toOption.map (·.result.success) = some true := by
    rw [← htext]
    decide +kernel
  obtain ⟨r, hr, hsuccess⟩ := exists_of_toOption_map hsuccess
  exact ⟨r, hu, hr, hsuccess, migrate_unmentioned hu {} hr⟩

end BuilderMigration
