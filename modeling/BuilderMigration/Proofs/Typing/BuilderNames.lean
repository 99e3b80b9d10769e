import BuilderMigration.Proofs.Grammar.Reading
import BuilderMigration.Proofs.Idiom.Names
import BuilderMigration.Proofs.Settings.Names
import BuilderMigration.Proofs.Shift.Reading
import BuilderMigration.Proofs.Typing.Traced

/-! Where the names of builders come from: from paths in the file, and from the signatures. -/

namespace BuilderMigration

variable {N : String → Prop} {settings : Settings} {m : Module} {n : Names} {t : Signatures}

/-! ### Signatures -/

namespace Signatures

/-- The builders that closures can configure. -/
def builders (t : Signatures) : List String :=
  t.entryPoints.map (·.2) ++ t.nested.map (·.2) ++ t.fallbacks.map (·.2)

theorem forall_builders : (∀ b ∈ t.builders, N b) ↔
    (∀ e ∈ t.entryPoints, N e.2) ∧ (∀ e ∈ t.nested, N e.2) ∧ ∀ e ∈ t.fallbacks, N e.2 := by
  simp only [builders, List.forall_mem_append, List.forall_mem_map, and_assoc]

theorem forall_builders_add {entry : String × String} (h : ∀ b ∈ t.builders, N b) (he : N entry.2) :
    ∀ b ∈ (t.add entry).builders, N b := by
  obtain ⟨hentry, hnested, hfallback⟩ := forall_builders.1 h
  unfold add
  split
  · exact forall_builders.2 ⟨hentry, Assoc.forall_put hnested he, hfallback⟩
  · exact forall_builders.2 ⟨Assoc.forall_put hentry he, hnested, hfallback⟩

/-- The built-in signatures with those of the settings. -/
theorem forall_builders_ofSettings (hb : ∀ b ∈ builtin.builders, N b)
    (hs : ∀ e ∈ settings.closureSignatures, N e.2) : ∀ b ∈ (ofSettings settings).builders, N b := by
  rw [ofSettings]
  generalize settings.closureSignatures = entries at hs
  generalize builtin = t at hb ⊢
  induction entries generalizing t with
  | nil => exact hb
  | cons e entries ih =>
    rw [List.forall_mem_cons] at hs
    exact ih hs.2 _ (forall_builders_add hb hs.1)

/-- What is looked up is one of the builders. -/
theorem lookup_mem {method b : String} {receiver : Option String} {known : Bool}
    (h : t.lookup method receiver known = some b) : b ∈ t.builders := by
  have hall : ∀ b ∈ t.builders, b ∈ t.builders := fun _ h => h
  obtain ⟨hentry, hnested, hfallback⟩ := forall_builders.1 hall
  have hget {κ : Type} [DecidableEq κ] {key : κ} {l : List (κ × String)}
      (hl : ∀ e ∈ l, e.2 ∈ t.builders) (h : Assoc.get? key l = some b) : b ∈ t.builders :=
    hl (key, b) (Assoc.mem_of_get? h)
  unfold lookup at h
  split at h
  · cases hown : Assoc.get? (_, method) t.nested with
    | some b' =>
      rw [hown] at h
      exact hget hnested (hown.trans h)
    | none =>
      rw [hown] at h
      exact hget hnested h
  · split at h
    · next hown => exact hget hentry (hown.trans h)
    · split at h
      · cases h
      · exact hget hfallback h

end Signatures

/-! ### Types -/

theorem Ty.stripRefs_stripRefs : ∀ ty : Ty, ty.stripRefs.stripRefs = ty.stripRefs
  | .ref inner _ => inner.stripRefs_stripRefs
  | .adt _ | .path _ | .tuple _ | .prim _ | .param _ | .other _ => rfl

theorem Ty.builderIs_adt {path : List String} (h : ∀ s ∈ path, N s) :
    (Ty.adt path).BuilderIs settings N := by
  intro b hb
  match path with
  | [] | [_] | [_, _] => cases hb
  | crate :: scope :: name :: names =>
    simp only [builder?, stripRefs, Option.mem_def, Option.ite_none_right_eq_some,
      Option.some.injEq] at hb
    obtain ⟨-, rfl⟩ := hb
    rw [List.getLastD_cons, List.getLastD_eq_getLast?]
    have hname := h name (by simp)
    cases hlast : names.getLast? with
    | none => exact hname
    | some b => exact h b (by simp [List.mem_of_getLast? hlast])

theorem Ty.builderIs_of_eq_some {ty : Ty} {b : String} (h : ty.builder? settings = some b) (hb : N b) :
    ty.BuilderIs settings N := by
  intro b' hb'
  obtain rfl := Option.some.inj (h.symm.trans hb')
  exact hb

theorem Ty.builderIs_of_eq_none {ty : Ty} (h : ty.builder? settings = none) :
    ty.BuilderIs settings N := by simp [BuilderIs, h]

/-- A type in the module of builders. -/
theorem Names.builder?_own (n : Names) (b : String) :
    (Ty.adt (n.builderModule ++ [b])).builder? n.settings = some b := by
  simp [Ty.builder?, Ty.stripRefs, builderModule]

theorem Names.builderIs_resolvePath (hi : ∀ i ∈ n.imports, i.Named N) {segments : List String}
    (hs : ∀ s ∈ segments, N s) : (n.resolvePath segments).BuilderIs n.settings N := by
  cases segments with
  | nil => exact Ty.builderIs_adt hs
  | cons head rest =>
    have hsegments := List.forall_mem_cons.1 hs
    rw [resolvePath]
    split
    · exact Ty.builderIs_of_eq_none rfl
    · split
      · next path hpath =>
        obtain ⟨i, hfind, rfl⟩ := Option.map_eq_some_iff.1 hpath
        have himport := hi i (List.mem_of_find?_eq_some hfind)
        exact Ty.builderIs_adt (List.forall_mem_append.2 ⟨himport, hsegments.2⟩)
      · split
        · exact Ty.builderIs_of_eq_some (n.builder?_own head) hsegments.1
        · exact Ty.builderIs_adt hs

theorem Names.builderIs_resolve (hi : ∀ i ∈ n.imports, i.Named N) :
    ∀ ty : Ty, ty.Written N → (n.resolve ty).BuilderIs n.settings N
  | .ref inner mutable, h => by
    rw [resolve]
    exact builderIs_resolve hi inner h
  | .path segments, h => by
    rw [resolve]
    exact builderIs_resolvePath hi h
  | .adt _, h => h.elim
  | .tuple elems, _ => by
    rw [resolve]
    exact Ty.builderIs_of_eq_none rfl
  | .prim _, _ => Ty.builderIs_of_eq_none rfl
  | .param _, _ => Ty.builderIs_of_eq_none rfl
  | .other _, _ => Ty.builderIs_of_eq_none rfl

/-- So what holds of the names in a file and of the builders with signatures holds of all builders that
types are. -/
theorem Names.keeps_builderIs (h : ∀ i ∈ m.items, i.Written N)
    (hb : ∀ b ∈ (Signatures.ofSettings settings).builders, N b) :
    (ofModule settings m).Keeps N (Ty.BuilderIs settings N) where
  written := builderIs_resolve (n := ofModule settings m) (ofModule_written settings h).1
  call ty result hty hcall := by
    obtain ⟨b, hb, rfl⟩ := Option.map_eq_some_iff.1 hcall
    have hsame : (Ty.ref ty.stripRefs true).builder? settings = ty.builder? settings := by
      rw [Ty.builder?, Ty.stripRefs, Ty.stripRefs_stripRefs, Ty.builder?]
    intro b' hb'
    exact hty b' (hsame ▸ hb')
  closureArg receiver method builder _ _ hbuilder :=
    Ty.builderIs_of_eq_some ((ofModule settings m).builder?_own builder)
      (hb builder (Signatures.lookup_mem hbuilder))

/-- Every builder of a file is written with such names. -/
theorem Module.resolved_named (h : ∀ i ∈ m.items, i.Written N)
    (hb : ∀ b ∈ (Signatures.ofSettings settings).builders, N b) :
    ∀ x ∈ (m.resolved settings).tree.preorder, x.Named N (Ty.BuilderIs settings N) :=
  Node.forall_preorder (x := .module (m.resolved settings)) (fun _ _ => Node.Named.child)
    (itemsNamed_iff.1 ((Names.keeps_builderIs h hb).items m.items (itemsNamed_iff.2 h)))

/-! ### Files -/

variable {code path : String}

/-- The names in a file are words. -/
theorem words_of_readModule (h : readModule code 1 path = .ok m) :
    ∀ t ∈ (tokenize code 1).tokens, t.Named IsWord := by
  obtain ⟨-, -, ts, hts, -⟩ := readModule_laid h (by omega)
  rw [← tokensOf_eq_ok hts]
  intro t ht hkind
  exact (lexes_of_tokensOf hts).isWord t.bare (List.mem_map_of_mem ht) hkind

theorem Module.resolved_words (h : readModule code 1 path = .ok m) (settings : Settings) :
    ∀ x ∈ (m.resolved settings).tree.preorder, x.Named IsWord fun _ => True := by
  have hkeeps : (Names.ofModule settings m).Keeps IsWord fun _ => True :=
    ⟨fun _ _ => trivial, fun _ _ _ _ => trivial, fun _ _ _ _ _ _ => trivial⟩
  have hitems := itemsNamed_iff.2 (readModule_written h (words_of_readModule h))
  exact Node.forall_preorder (x := .module (m.resolved settings)) (fun _ _ => Node.Named.child)
    (itemsNamed_iff.1 (hkeeps.items m.items hitems))

/-- The names in a file are legible, and so are its builders if those of the settings are. -/
theorem Module.resolved_legible (h : readModule code 1 path = .ok m)
    (hs : ∀ e ∈ settings.closureSignatures, Legible e.2) :
    ∀ x ∈ (m.resolved settings).tree.preorder, x.Named Legible (Ty.BuilderIs settings Legible) := by
  have hbuiltin : ∀ b ∈ Signatures.builtin.builders, IsWord b := by decide +kernel
  have htokens : ∀ t ∈ (tokenize code 1).tokens, t.Named Legible := fun t ht hkind =>
    (words_of_readModule h t ht hkind).legible
  exact resolved_named (readModule_written h htokens)
    (Signatures.forall_builders_ofSettings (fun b hb => (hbuiltin b hb).legible) hs)

end BuilderMigration
