import BuilderMigration.Proofs.Printing.Reading
import BuilderMigration.Proofs.Printing.WrittenTypes

/-! Types in annotations. A type that is written behind the name of a binding is read without its
lifetimes and generic arguments, which are passed over. -/

namespace BuilderMigration

open Parse

variable {ws vs : List Spelling} {w : Spelling} {g : Grammar}

/-! ### Generic arguments -/

namespace Grammar

/-- What to do at a token of generic arguments, `depth` of which are open beside the first. -/
def angleVerdict (depth : Nat) (t : Token) : Verdict Nat :=
  if t.isPunct "<" then .pass (depth + 1)
  else if t.isPunct ">" then
    match depth with
    | 0 => .halt
    | d + 1 => .pass d
  else .pass depth

theorem skipGenerics_eq : skipGenerics = (do
    let _ ← expect "<"
    sweep angleVerdict (some .genericArguments) 0
    let _ ← next) := rfl

/-- Within generic arguments the tokens spelt `ws` are passed over, whatever groups are open, and leave
as many arguments open as there were. -/
def PassedOver (ws : List Spelling) : Prop :=
  ∀ ds depth ts rest last, ts.map Token.spelling = ws → ∃ last',
    sweepFrom angleVerdict (some .genericArguments) ds depth last (ts ++ rest) =
      sweepFrom angleVerdict (some .genericArguments) ds depth last' rest

namespace PassedOver

theorem nil : PassedOver [] := by
  intro ds depth ts rest last hts
  obtain rfl := List.map_eq_nil_iff.1 hts
  exact ⟨last, rfl⟩

theorem append (h : PassedOver ws) (h' : PassedOver vs) : PassedOver (ws ++ vs) := by
  intro ds depth ts rest last hts
  obtain ⟨us, us', rfl, hus, hus'⟩ := List.map_eq_append_iff.1 hts
  obtain ⟨last₁, h₁⟩ := h ds depth us (us' ++ rest) last hus
  obtain ⟨last₂, h₂⟩ := h' ds depth us' rest last₁ hus'
  exact ⟨last₂, by rw [List.append_assoc, h₁, h₂]⟩

/-- A token that is no bracket. -/
theorem plain (hw : ∀ v ∈ ["(", ")", "[", "]", "\x7b", "\x7d", "<", ">"], w ≠ mark v) :
    PassedOver [w] := by
  intro ds depth ts rest last hts
  obtain ⟨t, us, rfl, ht, hus⟩ := List.map_eq_cons_iff.1 hts
  obtain rfl := List.map_eq_nil_iff.1 hus
  have hno (v : String) (hv : v ∈ ["(", ")", "[", "]", "\x7b", "\x7d", "<", ">"]) :
      t.isPunct v = false := by
    rw [Token.isPunct, Bool.and_eq_false_iff, beq_eq_false_iff_ne, beq_eq_false_iff_ne]
    by_contra h
    rw [not_or, not_ne_iff, not_ne_iff] at h
    exact hw v hv (ht ▸ Prod.ext h.1 h.2)
  have hopen : t.opens? = none := by
    simp [Token.opens?, hno "(" (by decide), hno "[" (by decide), hno "\x7b" (by decide)]
  have hclose : t.closes? = none := by
    simp [Token.closes?, hno ")" (by decide), hno "]" (by decide), hno "\x7d" (by decide)]
  refine ⟨t.hi, ?_⟩
  cases ds with
  | nil =>
    have hpass : angleVerdict depth t = .pass depth := by
      simp [angleVerdict, hno "<" (by decide), hno ">" (by decide)]
    rw [List.singleton_append, sweepFrom, hpass]
    simp only [hopen, Option.toList_none]
  | cons d ds => rw [List.singleton_append, sweepFrom, hopen, hclose]

theorem cons (hw : ∀ v ∈ ["(", ")", "[", "]", "\x7b", "\x7d", "<", ">"], w ≠ mark v)
    (h : PassedOver ws) : PassedOver (w :: ws) :=
  (plain hw).append h

/-- Tokens in angle brackets. -/
theorem angles (h : PassedOver ws) : PassedOver (mark "<" :: (ws ++ [mark ">"])) := by
  intro ds depth ts rest last hts
  obtain ⟨t, us, rfl, ht, hus⟩ := List.map_eq_cons_iff.1 hts
  obtain ⟨us, us', rfl, hws, hus'⟩ := List.map_eq_append_iff.1 hus
  obtain ⟨u, vs, rfl, hu, hvs⟩ := List.map_eq_cons_iff.1 hus'
  obtain rfl := List.map_eq_nil_iff.1 hvs
  obtain ⟨hkind, hvalue⟩ := Prod.mk.inj ht
  obtain ⟨hkind', hvalue'⟩ := Prod.mk.inj hu
  have hopen : t.opens? = none ∧ u.opens? = none := by
    simp [Token.opens?, Token.isPunct, hvalue, hvalue']
  have hclose : t.closes? = none ∧ u.closes? = none := by
    simp [Token.closes?, Token.isPunct, hvalue, hvalue']
  cases ds with
  | nil =>
    obtain ⟨last', hpassed⟩ := h [] (depth + 1) us (u :: rest) t.hi hws
    refine ⟨u.hi, ?_⟩
    have hless : angleVerdict depth t = .pass (depth + 1) := by
      simp [angleVerdict, Token.isPunct, hkind, hvalue]
    have hgreater : angleVerdict (depth + 1) u = .pass depth := by
      simp [angleVerdict, Token.isPunct, hkind', hvalue']
    rw [List.cons_append, List.append_assoc, List.singleton_append, sweepFrom, hless]
    simp only [hopen.1, Option.toList_none, hpassed]
    rw [sweepFrom, hgreater]
    simp only [hopen.2, Option.toList_none]
  | cons d ds =>
    obtain ⟨last', hpassed⟩ := h (d :: ds) depth us (u :: rest) t.hi hws
    refine ⟨u.hi, ?_⟩
    rw [List.cons_append, List.append_assoc, List.singleton_append, sweepFrom, hopen.1, hclose.1]
    simp only [hpassed]
    rw [sweepFrom, hopen.2, hclose.2]

/-- Tokens in parentheses. -/
theorem parens (h : PassedOver ws) : PassedOver (mark "(" :: (ws ++ [mark ")"])) := by
  intro ds depth ts rest last hts
  obtain ⟨t, us, rfl, ht, hus⟩ := List.map_eq_cons_iff.1 hts
  obtain ⟨us, us', rfl, hws, hus'⟩ := List.map_eq_append_iff.1 hus
  obtain ⟨u, vs, rfl, hu, hvs⟩ := List.map_eq_cons_iff.1 hus'
  obtain rfl := List.map_eq_nil_iff.1 hvs
  obtain ⟨hkind, hvalue⟩ := Prod.mk.inj ht
  obtain ⟨hkind', hvalue'⟩ := Prod.mk.inj hu
  have hopen : t.opens? = some .paren ∧ u.opens? = none := by
    simp [Token.opens?, Token.isPunct, hkind, hvalue, hvalue']
  have hclose : u.closes? = some .paren := by
    simp [Token.closes?, Token.isPunct, hkind', hvalue']
  have hinner (ds : List Delimiter) : sweepFrom angleVerdict (some .genericArguments) (.paren :: ds)
      depth t.hi (us ++ u :: rest) =
        sweepFrom angleVerdict (some .genericArguments) ds depth u.hi rest := by
    obtain ⟨last', hpassed⟩ := h (.paren :: ds) depth us (u :: rest) t.hi hws
    rw [hpassed, sweepFrom, hopen.2, hclose]
    exact if_pos rfl
  refine ⟨u.hi, ?_⟩
  cases ds with
  | nil =>
    have hpass : angleVerdict depth t = .pass depth := by
      simp [angleVerdict, Token.isPunct, hvalue]
    rw [List.cons_append, List.append_assoc, List.singleton_append, sweepFrom, hpass]
    simp only [hopen.1, Option.toList_some]
    exact hinner []
  | cons d ds =>
    rw [List.cons_append, List.append_assoc, List.singleton_append, sweepFrom, hopen.1]
    exact hinner (d :: ds)

theorem commas {items : List (List Spelling)} (h : ∀ ws ∈ items, PassedOver ws) :
    PassedOver (commas items) := by
  induction items with
  | nil => exact nil
  | cons ws items ih =>
    have hitems := ih fun ws hws => h ws (List.mem_cons_of_mem _ hws)
    cases items with
    | nil =>
      rw [commas_singleton]
      exact h ws List.mem_cons_self
    | cons vs items =>
      have hlist : BuilderMigration.commas (ws :: vs :: items) =
          ws ++ mark "," :: BuilderMigration.commas (vs :: items) := by
        simp [BuilderMigration.commas, List.intercalate]
      rw [hlist]
      exact (h ws List.mem_cons_self).append (.cons (by decide) hitems)

/-- Generic arguments are passed over to the bracket that closes them. -/
theorem consumes (h : PassedOver ws) :
    Consumes (fun _ => True) skipGenerics (mark "<" :: (ws ++ [mark ">"])) fun _ => True := by
  rw [skipGenerics_eq]
  refine .cons (.expect rfl) fun _ _ => ?_
  refine .bind (M := At ">") (Q := fun _ => True) ?_ (fun _ _ => rfl) fun _ _ =>
    .last .next fun _ _ => .pure trivial
  intro ts rest last hts hn
  obtain ⟨u, us, rfl, hu⟩ := nextSpelling_eq_some hn
  obtain ⟨hkind, hvalue⟩ := Prod.mk.inj hu
  have hhalt : angleVerdict 0 u = .halt := by
    simp [angleVerdict, Token.isPunct, hkind, hvalue]
  obtain ⟨last', hpassed⟩ := h [] 0 ts (u :: us) last hts
  refine ⟨(), last', ?_, trivial⟩
  rw [sweep_apply, hpassed, sweepFrom, hhalt]

end PassedOver

end Grammar

/-! ### The tokens of types -/

/-- Generic arguments, if there are any. -/
def genericsSpelt : List (List Spelling) → List Spelling
  | [] => []
  | args => mark "<" :: (commas args ++ [mark ">"])

theorem spellings_genericsGlyphs (args : List (List Glyph)) :
    Glyph.spellings (genericsGlyphs args) = genericsSpelt (args.map Glyph.spellings) := by
  cases args with
  | nil => rfl
  | cons a args => simp [genericsGlyphs, genericsSpelt, Glyph.spellings_commas]

theorem spellings_referenceGlyphs (lifetime : Option Ident) (mutable : Bool) :
    Glyph.spellings (referenceGlyphs lifetime mutable) = Grammar.referenceSpelt lifetime mutable := by
  cases lifetime <;> cases mutable <;> rfl

theorem spellings_singleCommaGlyphs {α : Type} (as : List α) :
    Glyph.spellings (singleCommaGlyphs as) = Grammar.singleSpelt as := by
  match as with
  | [] | [_] | _ :: _ :: _ => rfl

theorem spellings_loneAmpersand (amp : Bool) :
    Glyph.spellings (loneAmpersand amp) = if amp then [mark "&"] else [] := by
  cases amp <;> rfl

theorem glyphsOf_eq (as : List WrittenType) : glyphsOf as = as.map (·.glyphs false) := by
  induction as with
  | nil => rfl
  | cons a as ih => rw [glyphsOf, ih, List.map_cons]

theorem tysOf_eq (as : List WrittenType) : tysOf as = as.map (·.ty) := by
  induction as with
  | nil => rfl
  | cons a as ih => rw [tysOf, ih, List.map_cons]

/-- The tokens of a type, behind an ampersand with `amp`. -/
def WrittenType.spelt (a : WrittenType) (amp : Bool) : List Spelling := Glyph.spellings (a.glyphs amp)

def WrittenTail.spelt (b : WrittenTail) : List Spelling := Glyph.spellings b.glyphs

namespace WrittenType

theorem spelt_ampersand (lifetime : Option Ident) (mutable : Bool) (inner : WrittenType) :
    (ref lifetime mutable inner).spelt true =
      mark "&&" :: (Grammar.referenceSpelt lifetime mutable ++ inner.spelt false) := by
  simp [spelt, glyphs, spellings_referenceGlyphs]

theorem spelt_plain (inner : WrittenType) : (ref none false inner).spelt false = inner.spelt true := by
  rw [spelt, glyphs, spelt]

theorem spelt_ref (lifetime : Option Ident) (mutable : Bool) (inner : WrittenType)
    (h : lifetime = none → mutable = true) :
    (ref lifetime mutable inner).spelt false =
      mark "&" :: (Grammar.referenceSpelt lifetime mutable ++ inner.spelt false) := by
  cases lifetime with
  | some i => simp [spelt, glyphs, spellings_referenceGlyphs]
  | none =>
    obtain rfl := h rfl
    simp [spelt, glyphs, spellings_referenceGlyphs]

theorem spelt_path (name : FreeName) (args : List WrittenType) (tail : WrittenTail) (amp : Bool) :
    (path name args tail).spelt amp = (if amp then [mark "&"] else []) ++
      name.name.spelling :: (genericsSpelt (args.map (·.spelt false)) ++ tail.spelt) := by
  simp [spelt, glyphs, glyphsOf_eq, spellings_loneAmpersand, spellings_genericsGlyphs,
    WrittenTail.spelt, Function.comp_def]

theorem spelt_tuple (elems : List WrittenType) (amp : Bool) :
    (tuple elems).spelt amp = (if amp then [mark "&"] else []) ++ mark "(" ::
      (commas (elems.map (·.spelt false)) ++ (Grammar.singleSpelt elems ++ [mark ")"])) := by
  simp [spelt, glyphs, glyphsOf_eq, spellings_loneAmpersand, spellings_singleCommaGlyphs,
    Glyph.spellings_commas, Function.comp_def]

end WrittenType

theorem WrittenTail.spelt_more (name : Ident) (args : List WrittenType) (tail : WrittenTail) :
    (more name args tail).spelt = mark "::" :: name.spelling ::
      (genericsSpelt (args.map (·.spelt false)) ++ tail.spelt) := by
  simp [spelt, glyphs, glyphsOf_eq, spellings_genericsGlyphs, WrittenType.spelt, Function.comp_def]

/-! ### Types within generic arguments -/

open Grammar (PassedOver)

theorem passedOver_name (i : Ident) (h : PassedOver ws) : PassedOver (i.spelling :: ws) :=
  .cons (fun _ _ => nofun) h

theorem passedOver_generics {args : List (List Spelling)} (h : ∀ ws ∈ args, PassedOver ws) :
    PassedOver (genericsSpelt args) := by
  cases args with
  | nil => exact .nil
  | cons a args => exact .angles (.commas h)

theorem passedOver_reference (lifetime : Option Ident) (mutable : Bool) (h : PassedOver ws) :
    PassedOver (Grammar.referenceSpelt lifetime mutable ++ ws) := by
  cases lifetime <;> cases mutable
  · exact h
  · exact .cons (by decide) h
  · exact .cons (fun _ _ => nofun) h
  · exact .cons (fun _ _ => nofun) (.cons (by decide) h)

theorem passedOver_ampersand (amp : Bool) (h : PassedOver ws) :
    PassedOver ((if amp then [mark "&"] else []) ++ ws) := by
  cases amp with
  | false => exact h
  | true => exact .cons (by decide) h

mutual

theorem WrittenType.passedOver : ∀ (a : WrittenType) (amp : Bool), PassedOver (a.spelt amp)
  | .ref lifetime mutable inner, true => by
    rw [WrittenType.spelt_ampersand]
    exact .cons (by decide) (passedOver_reference lifetime mutable (inner.passedOver false))
  | .ref none false inner, false => by
    rw [WrittenType.spelt_plain]
    exact inner.passedOver true
  | .ref (some i) mutable inner, false => by
    rw [WrittenType.spelt_ref (some i) mutable inner nofun]
    exact .cons (by decide) (passedOver_reference (some i) mutable (inner.passedOver false))
  | .ref none true inner, false => by
    rw [WrittenType.spelt_ref _ _ _ fun _ => rfl]
    exact .cons (by decide) (passedOver_reference none true (inner.passedOver false))
  | .path name args tail, amp => by
    rw [WrittenType.spelt_path]
    refine passedOver_ampersand amp (passedOver_name name.name (.append ?_ tail.passedOver))
    exact passedOver_generics (passedOver_each args)
  | .tuple elems, amp => by
    rw [WrittenType.spelt_tuple, ← List.append_assoc (commas _)]
    refine passedOver_ampersand amp (.parens (.append (.commas (passedOver_each elems)) ?_))
    match elems with
    | [] | _ :: _ :: _ => exact .nil
    | [_] => exact .plain (by decide)

theorem WrittenTail.passedOver : ∀ b : WrittenTail, PassedOver b.spelt
  | .done => .nil
  | .more name args tail => by
    rw [WrittenTail.spelt_more]
    refine .cons (by decide) (passedOver_name name (.append ?_ tail.passedOver))
    exact passedOver_generics (passedOver_each args)

theorem passedOver_each : ∀ as : List WrittenType, ∀ ws ∈ as.map (·.spelt false), PassedOver ws
  | [], ws, h => nomatch h
  | a :: as, ws, h => by
    rcases List.mem_cons.1 h with rfl | h
    · exact a.passedOver false
    · exact passedOver_each as ws h

end

/-! ### No type begins an attribute -/

theorem hash_not_mem_commas {items : List (List Spelling)} (h : ∀ ws ∈ items, mark "#" ∉ ws) :
    mark "#" ∉ commas items := by
  intro hmem
  rcases mem_commas hmem with hcomma | ⟨ws, hws, hmem⟩
  · simp at hcomma
  · exact h ws hws hmem

theorem hash_not_mem_generics {args : List (List Spelling)} (h : ∀ ws ∈ args, mark "#" ∉ ws) :
    mark "#" ∉ genericsSpelt args := by
  cases args with
  | nil => exact List.not_mem_nil
  | cons a args => simp [genericsSpelt, hash_not_mem_commas h]

theorem hash_not_mem_reference (lifetime : Option Ident) (mutable : Bool) :
    mark "#" ∉ Grammar.referenceSpelt lifetime mutable := by
  cases lifetime <;> cases mutable <;> simp [Grammar.referenceSpelt, mark, keyword]

mutual

theorem WrittenType.no_hash : ∀ (a : WrittenType) (amp : Bool), mark "#" ∉ a.spelt amp
  | .ref lifetime mutable inner, true => by
    rw [WrittenType.spelt_ampersand]
    simp [hash_not_mem_reference, inner.no_hash false]
  | .ref none false inner, false => by
    rw [WrittenType.spelt_plain]
    exact inner.no_hash true
  | .ref (some i) mutable inner, false => by
    rw [WrittenType.spelt_ref (some i) mutable inner nofun]
    simp [hash_not_mem_reference, inner.no_hash false]
  | .ref none true inner, false => by
    rw [WrittenType.spelt_ref _ _ _ fun _ => rfl]
    simp [hash_not_mem_reference, inner.no_hash false]
  | .path name args tail, amp => by
    rw [WrittenType.spelt_path]
    cases amp <;> simp [hash_not_mem_generics (no_hash_each args), tail.no_hash]
  | .tuple elems, amp => by
    have hsingle : mark "#" ∉ Grammar.singleSpelt elems := by
      match elems with
      | [] | [_] | _ :: _ :: _ => simp [Grammar.singleSpelt]
    rw [WrittenType.spelt_tuple]
    cases amp <;> simp [hash_not_mem_commas (no_hash_each elems), hsingle]

theorem WrittenTail.no_hash : ∀ b : WrittenTail, mark "#" ∉ b.spelt
  | .done => List.not_mem_nil
  | .more name args tail => by
    rw [WrittenTail.spelt_more]
    simp [hash_not_mem_generics (no_hash_each args), tail.no_hash]

theorem no_hash_each : ∀ as : List WrittenType, ∀ ws ∈ as.map (·.spelt false), mark "#" ∉ ws
  | [], ws, h => nomatch h
  | a :: as, ws, h => by
    rcases List.mem_cons.1 h with rfl | h
    · exact a.no_hash false
    · exact no_hash_each as ws h

end

/-! ### Types are read -/

namespace Grammar

/-- A turn through a name that has generic arguments. -/
theorem pathTurn_generics {S : Turn String Unit → Prop} (i : Ident) (h : PassedOver ws)
    (hend : Consumes N (nameEnd i.text) vs S) :
    Consumes N (pathTurn g) (i.spelling :: (mark "<" :: (ws ++ [mark ">"]) ++ vs)) S := by
  refine .cons .expectName fun name hname => ?_
  subst hname
  exact .nextIs (b := true) (fun _ _ => rfl) (.then h.consumes fun _ _ => hend)

theorem pathTurn_args_one {args : List (List Spelling)} (h : ∀ ws ∈ args, PassedOver ws) (i : Ident) :
    Consumes NameNext (pathTurn g) (i.spelling :: (genericsSpelt args ++ [mark "::"]))
      (· = .one i.text) := by
  cases args with
  | nil => exact pathTurn_one g i
  | cons a args => exact pathTurn_generics i (.commas h) (nameEnd_one i.text)

theorem pathTurn_args_last {args : List (List Spelling)} (h : ∀ ws ∈ args, PassedOver ws) (i : Ident) :
    Consumes (Before typeEnds) (pathTurn g) (i.spelling :: genericsSpelt args)
      (· = .last i.text ()) := by
  cases args with
  | nil => exact pathTurn_last g i
  | cons a args =>
    have hcolons (o : Option Spelling) (ho : Before typeEnds o) : o.any (·.is "::") = false :=
      ho.any_is (by decide)
    have hall := pathTurn_generics (g := g) i (.commas h) (nameEnd_last i.text hcolons)
    rwa [List.append_nil] at hall

/-- The names of a path are read one after another, and the generic arguments behind each are passed
over. -/
theorem path_consumes_tail (g : Grammar) : ∀ (tail : WrittenTail) (i : Ident) (args : List WrittenType),
    Consumes (Before typeEnds) (collect (pathTurn g))
      (i.spelling :: (genericsSpelt (args.map (·.spelt false)) ++ tail.spelt))
      (·.1 = i.text :: tail.segments)
  | .done, i, args => by
    rw [show WrittenTail.spelt .done = [] from rfl, List.append_nil]
    exact (pathTurn_args_last (passedOver_each args) i).lastName
  | .more name args' tail, i, args => by
    have hall := Consumes.oneName (List.cons_ne_nil _ _)
      (pathTurn_args_one (g := g) (passedOver_each args) i) ⟨name, rfl⟩
      (path_consumes_tail g tail name args')
    rw [List.cons_append, List.append_assoc, List.singleton_append] at hall
    rwa [WrittenTail.spelt_more]

end Grammar

namespace WrittenType

/-- A grammar reads a type as it is written, behind an ampersand or not. -/
def ReadBy (a : WrittenType) (g : Grammar) : Prop :=
  ∀ amp, Consumes (Before typeEnds) g.ty (a.spelt amp) (· = if amp then .ref a.ty false else a.ty)

theorem opened_name (name : FreeName) (ws : List Spelling) :
    Opened typeBarriers (name.name.spelling :: ws) := by
  refine ⟨_, _, rfl, opens_word fun hv => ?_⟩
  have hword : ∀ v ∈ typeBarriers, v ∈ reserved ∨ ¬ IsWord v := by decide
  rcases hword _ hv with hv | hv
  · exact name.free hv
  · exact hv name.name.isWord

theorem opened : ∀ (a : WrittenType) (amp : Bool), Opened typeBarriers (a.spelt amp)
  | .ref lifetime mutable inner, true => by
    rw [spelt_ampersand]
    exact ⟨_, _, rfl, opens_mark (by decide)⟩
  | .ref none false inner, false => by
    rw [spelt_plain]
    exact inner.opened true
  | .ref (some i) mutable inner, false => by
    rw [spelt_ref (some i) mutable inner nofun]
    exact ⟨_, _, rfl, opens_mark (by decide)⟩
  | .ref none true inner, false => by
    rw [spelt_ref _ _ _ fun _ => rfl]
    exact ⟨_, _, rfl, opens_mark (by decide)⟩
  | .path name args tail, amp => by
    rw [spelt_path]
    cases amp with
    | false => exact opened_name name _
    | true => exact ⟨_, _, rfl, opens_mark (by decide)⟩
  | .tuple elems, amp => by
    rw [spelt_tuple]
    cases amp <;> exact ⟨_, _, rfl, opens_mark (by decide)⟩

/-- What makes no mark with the ampersand in front of it is read behind it. -/
theorem ReadBy.of_lone {a : WrittenType} (hamp : a.spelt true = mark "&" :: a.spelt false)
    (h : Deep fun g => Consumes (Before typeEnds) g.ty (a.spelt false) (· = a.ty)) :
    Deep a.ReadBy := by
  have hbehind : Deep fun g => Consumes (Before typeEnds) g.ty (a.spelt true) (· = .ref a.ty false) :=
    h.above fun g hg => hamp ▸ Grammar.typeOf_reference false none false (a.opened false) hg
  refine (h.and hbehind).imp fun g hg amp => ?_
  cases amp with
  | false => exact hg.1
  | true => exact hg.2

/-- A reference is read as the one mark that it has in common with an ampersand in front of it. -/
theorem ReadBy.of_ref {lifetime : Option Ident} {mutable : Bool} {inner : WrittenType}
    (hinner : Deep inner.ReadBy)
    (h : Deep fun g => Consumes (Before typeEnds) g.ty ((ref lifetime mutable inner).spelt false)
      (· = .ref inner.ty mutable)) : Deep (ref lifetime mutable inner).ReadBy := by
  have hbehind : Deep fun g => Consumes (Before typeEnds) g.ty ((ref lifetime mutable inner).spelt true)
      (· = .ref (.ref inner.ty mutable) false) := by
    refine hinner.above fun g hg => ?_
    rw [spelt_ampersand]
    exact Grammar.typeOf_reference true lifetime mutable (inner.opened false) (hg false)
  refine (h.and hbehind).imp fun g hg amp => ?_
  cases amp with
  | false => exact hg.1
  | true => exact hg.2

/-- A reference that has a mark of its own. -/
theorem ReadBy.of_marked {lifetime : Option Ident} {mutable : Bool} {inner : WrittenType}
    (hmarked : lifetime = none → mutable = true) (h : Deep inner.ReadBy) :
    Deep (ref lifetime mutable inner).ReadBy := by
  refine ReadBy.of_ref h (h.above fun g hg => ?_)
  rw [spelt_ref _ _ _ hmarked]
  exact Grammar.typeOf_reference false lifetime mutable (inner.opened false) (hg false)

mutual

/-- Deep grammars read types as they are written. -/
theorem read : ∀ a : WrittenType, Deep a.ReadBy
  | .ref none false inner =>
    ReadBy.of_ref (read inner) ((read inner).imp fun _ h => spelt_plain inner ▸ h true)
  | .ref (some _) _ inner => ReadBy.of_marked nofun (read inner)
  | .ref none true inner => ReadBy.of_marked (fun _ => rfl) (read inner)
  | .path name args tail => by
    refine ReadBy.of_lone (by rw [spelt_path, spelt_path]; rfl) ?_
    refine (Deep.of fun _ => trivial).above fun g _ => ?_
    have hpath : Consumes (Before typeEnds) g.pathType ((path name args tail).spelt false)
        (· = name.name.text :: tail.segments) := by
      rw [spelt_path]
      refine .acceptNot (fun o _ => name.name.is_of_not_isWord (by decide)) ?_
      exact .last (Grammar.path_consumes_tail g tail name.name args) fun _ hr => .pure hr
    rw [spelt_path] at hpath ⊢
    refine (Grammar.typeOf_name hpath).imp fun ty hty => ?_
    obtain ⟨names, rfl, rfl⟩ := hty
    rw [ty]
  | .tuple elems => by
    refine ReadBy.of_lone (by rw [spelt_tuple, spelt_tuple]; rfl) ?_
    refine (Deep.all (read_each elems)).above fun g hg => ?_
    rw [spelt_tuple, ty, tysOf_eq]
    exact Grammar.typeOf_parens (fun a _ => (a.opened false).is_head (by decide))
      fun a ha => hg a ha false

theorem read_each : ∀ as : List WrittenType, ∀ a ∈ as, Deep a.ReadBy
  | a :: _, _, .head _ => read a
  | _ :: as, b, .tail _ hb => read_each as b hb

end

end WrittenType

/-! ### Annotations -/

/-- A name that is bound, with its type, to another name. -/
structure Annotation where
  mutable : Bool
  name : Ident
  named : name.text ≠ "_"
  ty : WrittenType
  value : FreeName

namespace Annotation

def text (a : Annotation) : String :=
  "\x7b let " ++ (if a.mutable then "mut " else "") ++ a.name.text ++ ": " ++ a.ty.text ++ " = " ++
    a.value.name.text ++ "; \x7d"

def tree (a : Annotation) : Expr :=
  .block (.mk ⟨0, 0, 0⟩ .plain
    [.letStmt ⟨0, 0, 0⟩ (.binding ⟨0, 0, 0⟩ a.name.text a.mutable) (some a.ty.ty)
      (some (.path ⟨0, 0, 0⟩ none [a.value.name.text])) none] none)

def glyphs (a : Annotation) : List Glyph :=
  .token (mark "\x7b") :: .gap [' '] :: .token (keyword "let") :: .gap [' '] ::
    ((if a.mutable then [.token (keyword "mut"), .gap [' ']] else []) ++
      (.token a.name.spelling :: .token (mark ":") :: .gap [' '] :: (a.ty.glyphs false ++
        (.gap [' '] :: .token (mark "=") :: .gap [' '] :: .token a.value.name.spelling ::
          [.token (mark ";"), .gap [' '], .token (mark "\x7d")]))))

theorem text_glyphs (a : Annotation) : Glyph.text a.glyphs = a.text.toList := by
  cases hmut : a.mutable <;>
    simp [glyphs, text, hmut, a.ty.text_glyphs, mark, keyword, Ident.spelling]

theorem fits (a : Annotation) : Glyph.Fits [] a.glyphs := by
  have hlet : IsWord "let" := by decide
  have hmut : IsWord "mut" := by decide
  have hvalue : Glyph.Fits [] (.gap [' '] :: .token (mark "=") :: .gap [' '] ::
      .token a.value.name.spelling :: [.token (mark ";"), .gap [' '], .token (mark "\x7d")]) := by
    refine .gap (by decide) (.token (mark_stands (by decide) (clear_blank rfl "=" _)) (.gap (by decide) ?_))
    refine .word a.value.name.isWord (broken_cons (by decide) _).aside (.ofMark (by decide) (by decide) ?_)
    exact .gap (by decide) (.ofMark (by decide) (by decide) .nil)
  have htype : Glyph.Fits [] (.token a.name.spelling :: .token (mark ":") :: .gap [' '] ::
      (a.ty.glyphs false ++ (.gap [' '] :: .token (mark "=") :: .gap [' '] ::
        .token a.value.name.spelling :: [.token (mark ";"), .gap [' '], .token (mark "\x7d")]))) := by
    refine .word a.name.isWord (typeEnd_cons (by decide) _).1 ?_
    refine .token (mark_stands (by decide) (clear_blank rfl ":" _)) (.gap (by decide) ?_)
    exact .append (a.ty.fits false _ (typeEnd_cons (by decide) _)) hvalue
  refine .ofMark (by decide) (by decide) (.gap (by decide) ?_)
  refine .word hlet (aside_blank rfl _) (.gap (by decide) ?_)
  cases a.mutable with
  | false => exact htype
  | true => exact .word hmut (aside_blank rfl _) (.gap (by decide) htype)

/-- The tokens of the text. -/
theorem spellings_glyphs (a : Annotation) : Glyph.spellings a.glyphs =
    mark "\x7b" :: (keyword "let" :: ((if a.mutable then [keyword "mut"] else []) ++ [a.name.spelling] ++
      (mark ":" :: a.ty.spelt false ++ [mark "=", a.value.name.spelling, mark ";"])) ++
        [mark "\x7d"]) := by
  cases hmut : a.mutable <;> simp [glyphs, hmut, WrittenType.spelt]

/-- The name of a binding is a binding without its type. -/
def binding (a : Annotation) : Binding := ⟨a.mutable, a.name, a.named, none⟩

def initial (a : Annotation) : Phrase := .operand (.path ⟨a.value.name, a.value.free, []⟩)

/-- Deep grammars read the statement. -/
theorem read_statement (a : Annotation) : Deep fun g =>
    Consumes (fun _ => True) (Grammar.blockTurn g)
      (keyword "let" :: (a.binding.nameSpelt ++
        (mark ":" :: a.ty.spelt false ++ Grammar.valueSpelt (some a.initial))))
      fun t => ∃ stmt, t = .one stmt ∧ stmt.unplaced =
        .letStmt ⟨0, 0, 0⟩ a.binding.pattern (some a.ty.ty) (some a.initial.tree) none := by
  refine (a.ty.read.and (Phrase.read a.initial)).imp fun g hg => ?_
  have htype : Consumes (Before [",", "|", "=", ";"]) (Grammar.declaredType g)
      (mark ":" :: a.ty.spelt false) (· = some a.ty.ty) := by
    refine .cons (.accept rfl) fun found hfound => ?_
    subst hfound
    exact .last ((hg.1 false).mono fun o ho => ho.mono (by decide)) fun ty hty => .pure (by rw [hty]; rfl)
  refine Grammar.blockTurn_begun ⟨_, _, rfl, opens_word (by decide)⟩ ?_
  refine .nextIs (b := true) (fun o _ => rfl) ?_
  refine .last (Grammar.letStmt_typed (fun o _ => before_mark (by decide)) htype fun p hp => ?_)
    fun stmt hstmt => .pure ⟨stmt, rfl, hstmt⟩
  obtain rfl := Option.some.inj hp
  exact hg.2

/-- Deep grammars read the block. -/
theorem read (a : Annotation) : Deep fun g =>
    Consumes (· = none) (g.expr false) (Glyph.spellings a.glyphs) fun e => e.unplaced = a.tree := by
  have hspelt : Glyph.spellings a.glyphs = mark "\x7b" :: (keyword "let" :: (a.binding.nameSpelt ++
      (mark ":" :: a.ty.spelt false ++ Grammar.valueSpelt (some a.initial))) ++ [mark "\x7d"]) := by
    rw [spellings_glyphs]
    rfl
  rw [hspelt]
  refine Deep.above (P := fun g => Consumes (Before phraseEnds) (Grammar.exprOf g false) _
    fun e => e.unplaced = a.tree) (a.read_statement.above fun g hg => ?_) fun g hg =>
      hg.mono fun o ho => ho ▸ .none
  have hstop : Consumes (At "\x7d") (Grammar.blockTurn g) [] fun t => ∃ b, t = .stop b ∧ b = none :=
    .nextIs (b := true) (fun o ho => ho ▸ rfl) (.pure ⟨_, rfl, rfl⟩)
  have hturns := Consumes.collectOne (List.cons_ne_nil _ _) hg (fun _ _ => trivial) hstop.collectStop
  rw [List.append_nil] at hturns
  have hblock : Consumes (fun _ => True) (g.above.block .plain none) _ _ :=
    Grammar.blockOf_consumes (fun o => rfl) hturns
  refine Grammar.exprOf_consumes ⟨_, _, rfl, opens_mark (by decide)⟩
    (.last ((Grammar.primaryOf_block hblock).mono fun _ _ => trivial) fun e he => ?_)
  refine (Grammar.suffixes_end _ e).imp fun e' he' => he' ▸ ?_
  obtain ⟨b, rfl, span, r, rfl, stmt, stmts, hr, hstmt, hstmts, hvalue⟩ := he
  obtain ⟨lines, tail⟩ := r
  dsimp only at hr hstmts hvalue ⊢
  subst hr hstmts hvalue
  rw [Expr.unplaced, Block.unplaced, unplacedStmts, hstmt]
  rfl

/-- A type that is written in a statement is read without its lifetimes and generic arguments. -/
theorem readExpr_let (a : Annotation) (start : Int) :
    Expr.unplaced <$> readExpr a.text start = .ok a.tree := by
  obtain ⟨ts, hts, hspelling⟩ := a.fits.spelt a.text_glyphs.symm start
  have hm : ¬ HasStrayMark ts := by
    refine not_hasStrayMark_of_not_mem ?_
    rw [hspelling, spellings_glyphs]
    cases a.mutable <;> simp [a.ty.no_hash]
  obtain ⟨e, he, htree⟩ := readExprTokens_of_deep hspelling hm a.read
  have hread : readExpr a.text start = .ok e := by
    rw [readExpr, hts]
    exact he
  rw [hread, ← htree]
  rfl

example :
    let plain (v : String) (h : IsWord v ∧ v ∉ reserved) : FreeName := ⟨⟨v, h.1⟩, h.2⟩
    let value : WrittenType := .ref none false (.ref none true (.path (plain "V" (by decide)) [] .done))
    let table : WrittenType := .path (plain "HashMap" (by decide))
      [.tuple [], .path (plain "Vec" (by decide)) [value] .done] .done
    let a : Annotation := ⟨true, ⟨"x", by decide⟩, by decide,
      .ref none false (.ref (some ⟨"a", by decide⟩) false (.tuple [table])), plain "v" (by decide)⟩
    a.text = "\x7b let mut x: &&'a (HashMap<(), Vec<&&mut V>>,) = v; \x7d" := by decide

end Annotation

end BuilderMigration
