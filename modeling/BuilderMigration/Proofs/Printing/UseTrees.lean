import BuilderMigration.Proofs.Printing.Layout
import BuilderMigration.Proofs.Printing.Reading

/-! Declarations of names that are brought in from elsewhere. A tree of such names, printed and read,
brings in its leaves from left to right, each with the path down to it. -/

namespace BuilderMigration

open Parse

/-! ### Trees -/

mutual

/-- A tree of names, with or without a double colon in front of it. -/
inductive UseTree where
  | mk (rooted : Bool) (branch : UseBranch)

/-- A name and a `self`, which may go under another name, everything there is, trees in braces with or
without a comma behind the last one, and what lies under a name. -/
inductive UseBranch where
  | name (i : Ident) (other : i.text ≠ "self") (rename : Option Ident)
  | self (rename : Option Ident)
  | glob
  | group (trees : List UseTree) (comma : Bool)
  | under (i : Ident) (branch : UseBranch)

end

mutual

/-- What a tree under the path `path` brings in. -/
def UseTree.leaves (path : List String) : UseTree → List UseLeaf
  | .mk _ b => b.leaves path

/-- A name stands for itself at the end of the path, and `self` for the path under its last name. -/
def UseBranch.leaves (path : List String) : UseBranch → List UseLeaf
  | .name i _ rename => [.named ⟨path ++ [i.text], (rename.getD i).text⟩]
  | .self rename => [.named ⟨path, (rename.map (·.text)).getD (path.getLastD "self")⟩]
  | .glob => [.glob path]
  | .group trees _ => leavesOfEach path trees
  | .under i b => b.leaves (path ++ [i.text])

def leavesOfEach (path : List String) : List UseTree → List UseLeaf
  | [] => []
  | t :: ts => t.leaves path ++ leavesOfEach path ts

end

/-! ### Texts -/

/-- The other name of a leaf. -/
def renameGlyphs : Option Ident → List Glyph
  | none => []
  | some i => [.gap [' '], .token (keyword "as"), .gap [' '], .token i.spelling]

mutual

def UseTree.glyphs : UseTree → List Glyph
  | .mk rooted b => (if rooted then [.token (mark "::")] else []) ++ b.glyphs

def UseBranch.glyphs : UseBranch → List Glyph
  | .name i _ rename => .token i.spelling :: renameGlyphs rename
  | .self rename => .token (keyword "self") :: renameGlyphs rename
  | .glob => [.token (mark "*")]
  | .group trees comma =>
    .token (mark "\x7b") :: (Glyph.commas (glyphsOfEach trees) ++
      ((if comma && !trees.isEmpty then [.token (mark ",")] else []) ++ [.token (mark "\x7d")]))
  | .under i b => .token i.spelling :: .token (mark "::") :: b.glyphs

def glyphsOfEach : List UseTree → List (List Glyph)
  | [] => []
  | t :: ts => t.glyphs :: glyphsOfEach ts

end

/-- The declaration. -/
def UseTree.declaration (t : UseTree) : List Glyph :=
  .token (keyword "use") :: .gap [' '] :: (t.glyphs ++ [.token (mark ";")])

def UseTree.text (t : UseTree) : String := String.ofList (Glyph.text t.declaration)

/-! ### Tokens of the texts -/

theorem renameGlyphs_fits (rename : Option Ident) {i : Ident} {rest : List Char} (h : Broken rest) :
    Glyph.Fits rest (.token i.spelling :: renameGlyphs rename) := by
  cases rename with
  | none => exact .word i.isWord h.aside .nil
  | some j =>
    have has : IsWord "as" := by decide
    have hblank : Text.isBlank ' ' = true := rfl
    refine .word i.isWord (aside_blank hblank _) (.gap (by decide) ?_)
    refine .word has (aside_blank hblank _) (.gap (by decide) ?_)
    exact .word j.isWord h.aside .nil

mutual

theorem UseTree.fits : ∀ (t : UseTree) (rest : List Char), Broken rest → Glyph.Fits rest t.glyphs
  | .mk false b, rest, h => b.fits rest h
  | .mk true b, rest, h =>
    .ofMark (by decide) (by decide) (b.fits rest h)

theorem UseBranch.fits : ∀ (b : UseBranch) (rest : List Char), Broken rest → Glyph.Fits rest b.glyphs
  | .name i _ rename, rest, h => renameGlyphs_fits rename h
  | .self rename, rest, h => renameGlyphs_fits (i := ⟨"self", by decide⟩) rename h
  | .glob, rest, h => .token (mark_stands (by decide) (h.clear _)) .nil
  | .group trees comma, rest, h => by
    have hclose : Glyph.Fits rest [.token (mark "\x7d")] :=
      .ofMark (by decide) (by decide) .nil
    have hcomma : Glyph.Fits rest
        ((if comma && !trees.isEmpty then [.token (mark ",")] else []) ++ [.token (mark "\x7d")]) := by
      split
      · exact .ofMark (by decide) (by decide) hclose
      · exact hclose
    refine .ofMark (by decide) (by decide) (.append ?_ hcomma)
    refine .commas (fits_each trees) (fun cs => broken_cons (by decide) cs) ?_
    split <;> exact broken_cons (by decide) _
  | .under i b, rest, h => by
    refine .word i.isWord ?_ (.ofMark (by decide) (by decide) (b.fits rest h))
    intro c hc
    obtain rfl : ':' = c := Option.some.inj hc
    decide

theorem fits_each : ∀ ts : List UseTree, ∀ gs ∈ glyphsOfEach ts, ∀ rest, Broken rest →
    Glyph.Fits rest gs
  | [], gs, h => nomatch h
  | t :: ts, gs, h => by
    rcases List.mem_cons.1 h with rfl | h
    · exact t.fits
    · exact fits_each ts gs h

end

theorem UseTree.declaration_fits (t : UseTree) : Glyph.Fits [] t.declaration := by
  have huse : IsWord "use" := by decide
  refine .word huse (aside_blank rfl _) (.gap (by decide) (.append (t.fits _ ?_) ?_))
  · exact broken_cons (by decide) _
  · exact .ofMark (by decide) (by decide) .nil

/-! ### Reading -/

/-- What a tree ends before. -/
def useEnds : List String := [",", "\x7d", ";"]

def UseTree.spellings (t : UseTree) : List Spelling := Glyph.spellings t.glyphs

def UseBranch.spellings (b : UseBranch) : List Spelling := Glyph.spellings b.glyphs

/-- Branches that begin with a name, or with `self`. -/
def UseBranch.Named : UseBranch → Prop
  | .glob | .group .. => False
  | _ => True

theorem UseBranch.spellings_named {b : UseBranch} (h : b.Named) :
    ∃ i : Ident, ∃ ws, b.spellings = i.spelling :: ws := by
  cases b with
  | name i other rename => exact ⟨i, _, rfl⟩
  | self rename => exact ⟨⟨"self", by decide⟩, _, rfl⟩
  | under i b => exact ⟨i, _, rfl⟩
  | glob | group => cases h

/-- A branch begins with no double colon, and with nothing that closes a list. -/
theorem UseBranch.spellings_head (b : UseBranch) :
    ∃ w ws, b.spellings = w :: ws ∧ w.is "::" = false ∧ w.is "\x7d" = false := by
  by_cases h : b.Named
  · obtain ⟨i, ws, hb⟩ := b.spellings_named h
    exact ⟨_, ws, hb, i.is_of_not_isWord (by decide), i.is_of_not_isWord (by decide)⟩
  · cases b with
    | glob => exact ⟨mark "*", [], rfl, rfl, rfl⟩
    | group => exact ⟨mark "\x7b", _, rfl, rfl, rfl⟩
    | _ => exact absurd trivial h

theorem UseTree.spellings_mk (rooted : Bool) (b : UseBranch) :
    (UseTree.mk rooted b).spellings = (if rooted then [mark "::"] else []) ++ b.spellings := by
  cases rooted <;> rfl

namespace Grammar

/-- A tree behind the double colon that it may begin with. -/
def useBranch (g : Grammar) (path : List String) : Parse (List UseLeaf) := do
  if ← accept "\x7b" then
    let (groups, _) ← commaList "\x7d" (g.useTree path)
    let _ ← expect "\x7d"
    return groups.flatten
  if ← accept "*" then return [.glob path]
  usePath g path

theorem useTreeOf_eq (g : Grammar) (path : List String) :
    useTreeOf g path = (do let _ ← accept "::"; useBranch g path) := rfl

/-- The last name of a path and its other name. -/
theorem useName_consumes (path : List String) (name : String) (rename : Option Ident) :
    Consumes (Before useEnds) (useName path name) (Glyph.spellings (renameGlyphs rename))
      (· = .named ⟨if name = "self" then path else path ++ [name],
        (rename.map (·.text)).getD (if name = "self" then path.getLastD name else name)⟩) := by
  cases rename with
  | none => exact .acceptNot (fun o ho => ho.any_is (by decide)) (.pure rfl)
  | some i =>
    refine .cons (.accept rfl) fun found hfound => ?_
    subst hfound
    refine .last .expectName fun other hother => ?_
    subst hother
    exact .pure rfl

theorem renameGlyphs_next (rename : Option Ident) {o : Option Spelling} (ho : Before useEnds o) :
    ((Glyph.spellings (renameGlyphs rename)).head?.or o).any (·.is "::") = false := by
  cases rename with
  | none => exact ho.any_is (by decide)
  | some i => rfl

/-- The last step through a path. -/
theorem usePath_last (g : Grammar) (path : List String) (i : Ident) (rename : Option Ident) :
    Consumes (Before useEnds) (usePath g path) (i.spelling :: Glyph.spellings (renameGlyphs rename))
      (· = [.named ⟨if i.text = "self" then path else path ++ [i.text],
        (rename.map (·.text)).getD (if i.text = "self" then path.getLastD i.text else i.text)⟩]) := by
  refine .iterateStop (.cons .expectName fun name hname => ?_)
  subst hname
  refine .acceptNot (fun o ho => renameGlyphs_next rename ho) ?_
  refine .last (useName_consumes path i.text rename) fun leaf hleaf => ?_
  subst hleaf
  exact .pure ⟨_, rfl, rfl⟩

/-- A step through a path in front of another name. -/
theorem usePath_under {g : Grammar} {path : List String} (i : Ident) {b : UseBranch} (hb : b.Named)
    (h : Consumes (Before useEnds) (usePath g (path ++ [i.text])) b.spellings
      (· = b.leaves (path ++ [i.text]))) :
    Consumes (Before useEnds) (usePath g path) (i.spelling :: mark "::" :: b.spellings)
      (· = b.leaves (path ++ [i.text])) := by
  obtain ⟨j, ws, hj⟩ := b.spellings_named hb
  have hnext (o : Option Spelling) : NameNext (b.spellings.head?.or o) :=
    ⟨j, congrArg (fun ws : List Spelling => ws.head?.or o) hj⟩
  rw [show i.spelling :: mark "::" :: b.spellings = [i.spelling, mark "::"] ++ b.spellings from rfl]
  refine .iterateOne (List.cons_ne_nil _ _) ?_ (fun o _ => hnext o) h
  refine .cons .expectName fun name hname => ?_
  subst hname
  refine .cons (.accept rfl) fun found hfound => ?_
  subst hfound
  have hno (v : String) (hv : ¬ IsWord v) (o : Option Spelling) (ho : NameNext o) :
      (([] : List Spelling).head?.or o).any (·.is v) = false := by
    obtain ⟨k, rfl⟩ := ho
    exact k.is_of_not_isWord hv
  refine .nextIs (b := false) (hno "\x7b" (by decide)) ?_
  exact .nextIs (b := false) (hno "*" (by decide)) (.pure rfl)

/-- A step through a path in front of a glob or of braces. -/
theorem usePath_fork {g : Grammar} {path : List String} (i : Ident) {b : UseBranch} (hb : ¬ b.Named)
    (h : Consumes (Before useEnds) (g.useTree (path ++ [i.text])) b.spellings
      (· = b.leaves (path ++ [i.text]))) :
    Consumes (Before useEnds) (usePath g path) (i.spelling :: mark "::" :: b.spellings)
      (· = b.leaves (path ++ [i.text])) := by
  refine .iterateStop (.cons .expectName fun name hname => ?_)
  subst hname
  refine .cons (.accept rfl) fun found hfound => ?_
  subst hfound
  have htree : Consumes (Before useEnds) (do return .inr (← g.useTree (path ++ [i.text])))
      b.spellings fun r : List String ⊕ List UseLeaf =>
        ∃ leaves, r = .inr leaves ∧ leaves = b.leaves (path ++ [i.text]) :=
    .last h fun leaves hleaves => .pure ⟨leaves, rfl, hleaves⟩
  cases b with
  | glob =>
    refine .nextIs (b := false) (fun _ _ => rfl) (.nextIs (b := true) (fun _ _ => rfl) ?_)
    exact htree
  | group trees comma =>
    refine .nextIs (b := true) (fun _ _ => rfl) (.nextIs (b := false) (fun _ _ => rfl) ?_)
    exact htree
  | _ => exact absurd trivial hb

/-- A branch that begins with a name is a path. -/
theorem useBranch_named {g : Grammar} {path : List String} {b : UseBranch} (hb : b.Named)
    (h : Consumes (Before useEnds) (usePath g path) b.spellings (· = b.leaves path)) :
    Consumes (Before useEnds) (useBranch g path) b.spellings (· = b.leaves path) := by
  obtain ⟨i, ws, hi⟩ := b.spellings_named hb
  rw [hi] at h ⊢
  refine .acceptNot (fun o _ => i.is_of_not_isWord (by decide)) ?_
  exact .acceptNot (fun o _ => i.is_of_not_isWord (by decide)) h

theorem useBranch_glob (g : Grammar) (path : List String) :
    Consumes (Before useEnds) (useBranch g path) UseBranch.glob.spellings
      (· = UseBranch.glob.leaves path) := by
  refine .acceptNot (fun o _ => rfl) (.last (.accept rfl) fun found hfound => ?_)
  subst hfound
  exact .pure (by rw [UseBranch.leaves])

end Grammar

theorem leavesOfEach_eq (path : List String) (ts : List UseTree) :
    leavesOfEach path ts = (ts.map (·.leaves path)).flatten := by
  induction ts with
  | nil => rfl
  | cons t ts ih => rw [leavesOfEach, ih, List.map_cons, List.flatten_cons]

theorem glyphsOfEach_eq (ts : List UseTree) : glyphsOfEach ts = ts.map (·.glyphs) := by
  induction ts with
  | nil => rfl
  | cons t ts ih => rw [glyphsOfEach, ih, List.map_cons]

theorem UseBranch.spellings_group (ts : List UseTree) (comma : Bool) :
    (UseBranch.group ts comma).spellings = mark "\x7b" :: (commas (ts.map (·.spellings)) ++
      ((if comma && !ts.isEmpty then [mark ","] else []) ++ [mark "\x7d"])) := by
  have hcomma : Glyph.spellings (if comma && !ts.isEmpty then [.token (mark ",")] else []) =
      if comma && !ts.isEmpty then [mark ","] else [] := by
    split <;> rfl
  rw [spellings, UseBranch.glyphs, glyphsOfEach_eq, Glyph.spellings_token, Glyph.spellings_append,
    Glyph.spellings_append, hcomma, Glyph.spellings_commas, List.map_map]
  rfl

namespace Grammar

theorem useBranch_group {g : Grammar} {path : List String} {ts : List UseTree} (comma : Bool)
    (h : ∀ t ∈ ts, Consumes (Before useEnds) (g.useTree path) t.spellings (· = t.leaves path)) :
    Consumes (Before useEnds) (useBranch g path) (UseBranch.group ts comma).spellings
      (· = (UseBranch.group ts comma).leaves path) := by
  have hhead : ∀ t ∈ ts, ∃ w ws, t.spellings = w :: ws ∧ w.is "\x7d" = false := by
    rintro ⟨rooted, b⟩ -
    obtain ⟨w, ws, hb, -, hw⟩ := b.spellings_head
    cases rooted with
    | false => exact ⟨w, ws, hb, hw⟩
    | true => exact ⟨mark "::", _, rfl, rfl⟩
  have hitem : ∀ t ∈ ts, Consumes (Before [",", "\x7d"]) (g.useTree path) t.spellings
      fun leaves => id leaves = t.leaves path := fun t ht =>
    (h t ht).mono fun o ho => ho.mono (by decide)
  have hlist : Consumes (At "\x7d") (commaList "\x7d" (g.useTree path))
      (commas (ts.map (·.spellings)) ++ (if comma && !ts.isEmpty then [mark ","] else []))
      fun r => r.1.map id = ts.map (·.leaves path) := by
    by_cases hc : comma && !ts.isEmpty
    · have hne : ts ≠ [] := by
        rintro rfl
        simp at hc
      rw [if_pos hc]
      exact (Consumes.commaListTrailing hne hhead hitem).imp fun r hr => hr.1
    · rw [if_neg hc, List.append_nil]
      exact (Consumes.commaList (by decide) hhead hitem).imp fun r hr => hr.1
  rw [UseBranch.spellings_group, ← List.append_assoc, UseBranch.leaves, leavesOfEach_eq]
  refine .cons (.accept rfl) fun found hfound => ?_
  subst hfound
  refine .bind hlist (fun o _ => rfl) fun r hr => ?_
  refine .last (.expect rfl) fun _ _ => .pure ?_
  rw [← hr, List.map_id]

theorem useTreeOf_branch {g : Grammar} {path : List String} (rooted : Bool) {b : UseBranch}
    (h : Consumes (Before useEnds) (useBranch g path) b.spellings (· = b.leaves path)) :
    Consumes (Before useEnds) (useTreeOf g path) (UseTree.mk rooted b).spellings
      (· = (UseTree.mk rooted b).leaves path) := by
  rw [useTreeOf_eq, UseTree.spellings_mk, UseTree.leaves]
  cases rooted with
  | false =>
    obtain ⟨w, ws, hb, hw, -⟩ := b.spellings_head
    rw [if_neg Bool.false_ne_true, List.nil_append]
    exact .acceptNot (fun o _ => by simpa using any_is_of_head ⟨w, ws, hb, hw⟩ [] o) h
  | true => exact .cons (.accept rfl) fun _ _ => h

end Grammar

mutual

/-- Deep grammars read a tree as what it brings in. -/
theorem UseTree.read : ∀ t : UseTree, Deep fun g => ∀ path,
    Consumes (Before useEnds) (g.useTree path) t.spellings (· = t.leaves path)
  | .mk rooted b => (b.read).1.above fun _ h path => Grammar.useTreeOf_branch rooted (h path)

theorem UseBranch.read : ∀ b : UseBranch,
    (Deep fun g => ∀ path,
      Consumes (Before useEnds) (g.useBranch path) b.spellings (· = b.leaves path)) ∧
    (b.Named → Deep fun g => ∀ path,
      Consumes (Before useEnds) (g.usePath path) b.spellings (· = b.leaves path))
  | .name i other rename => by
    have hpath (g : Grammar) (path : List String) : Consumes (Before useEnds) (g.usePath path)
        (UseBranch.name i other rename).spellings (· = (UseBranch.name i other rename).leaves path) := by
      refine (Grammar.usePath_last g path i rename).imp fun leaves hleaves => ?_
      rw [hleaves, if_neg other, if_neg other, UseBranch.leaves]
      cases rename <;> rfl
    exact ⟨.of fun g path => Grammar.useBranch_named trivial (hpath g path), fun _ => .of hpath⟩
  | .self rename => by
    have hpath (g : Grammar) (path : List String) : Consumes (Before useEnds) (g.usePath path)
        (UseBranch.self rename).spellings (· = (UseBranch.self rename).leaves path) :=
      Grammar.usePath_last g path ⟨"self", by decide⟩ rename
    exact ⟨.of fun g path => Grammar.useBranch_named trivial (hpath g path), fun _ => .of hpath⟩
  | .glob => ⟨.of Grammar.useBranch_glob, nofun⟩
  | .group ts comma =>
    ⟨(Deep.all (UseTree.read_each ts)).imp fun _ h path =>
      Grammar.useBranch_group comma fun t ht => h t ht path, nofun⟩
  | .under i b => by
    have hpath : Deep fun g => ∀ path, Consumes (Before useEnds) (g.usePath path)
        (UseBranch.under i b).spellings (· = (UseBranch.under i b).leaves path) := by
      by_cases hb : b.Named
      · exact ((b.read).2 hb).imp fun _ h path => Grammar.usePath_under i hb (h _)
      · exact (b.read).1.above fun _ h path =>
          Grammar.usePath_fork i hb (Grammar.useTreeOf_branch false (h _))
    exact ⟨hpath.imp fun _ h path => Grammar.useBranch_named trivial (h path), fun _ => hpath⟩

theorem UseTree.read_each : ∀ ts : List UseTree, ∀ t ∈ ts, Deep fun g => ∀ path,
    Consumes (Before useEnds) (g.useTree path) t.spellings (· = t.leaves path)
  | [], t, h => nomatch h
  | t :: ts, u, h => by
    rcases List.mem_cons.1 h with he | h
    · exact he ▸ UseTree.read t
    · exact UseTree.read_each ts u h

end

/-! ### Declarations -/

/-- The names among some leaves. -/
def importsOf (leaves : List UseLeaf) : List Import :=
  leaves.filterMap fun | .named i => some i | .glob _ => none

/-- The paths under which everything is brought in. -/
def globsOf (leaves : List UseLeaf) : List (List String) :=
  leaves.filterMap fun | .named _ => none | .glob path => some path

namespace Grammar

theorem useItem_consumes {g : Grammar} {t : UseTree} (lo : Int)
    (h : Consumes (Before useEnds) (g.useTreeOf []) t.spellings (· = t.leaves [])) :
    Consumes (fun _ => True) (g.useItem lo) (keyword "use" :: (t.spellings ++ [mark ";"]))
      fun item => ∃ span, item = .use span (importsOf (t.leaves [])) (globsOf (t.leaves [])) := by
  refine .cons (.expect rfl) fun _ _ => ?_
  refine .bind h (fun o _ => before_mark (by decide)) fun leaves hleaves => ?_
  subst hleaves
  exact .last (.expect rfl) fun _ _ => .spanFrom fun span => .pure ⟨span, rfl⟩

/-- Nothing that qualifies an item is next. -/
theorem qualifiers_none {c : Cursor} (h : ∀ v ∈ ["pub", "async", "unsafe", "const", "extern"],
    (nextSpelling c.rest).any (·.is v) = false) : qualifiers c = .ok ((), c) := by
  have hno (v : String) (hv : v ∈ ["pub", "async", "unsafe", "const", "extern"]) :
      nextIs v c = .ok (false, c) := by rw [nextIs_eq, h v hv]
  have hany : looksAtOneOf 0 ["async", "unsafe"] c = .ok (false, c) := by
    rw [looksAtOneOf_eq]
    have hasync := h "async" (by decide)
    have hunsafe := h "unsafe" (by decide)
    cases hn : nextSpelling c.rest with
    | none => rfl
    | some w =>
      rw [hn] at hasync hunsafe
      simp_all [Spelling.is]
  have hlook (vs : List String) : looksAtOneOf 1 vs c = .ok (c.rest[1]?.any (·.isOneOf vs), c) := rfl
  have hqualifier : qualifier c = .ok (false, c) := by
    rw [qualifier, bind_of_ok hany, if_neg Bool.false_ne_true, bind_of_ok (hno "const" (by decide)),
      bind_of_ok (hlook _), Bool.false_and, if_neg Bool.false_ne_true,
      bind_of_ok (hno "extern" (by decide)), if_neg Bool.false_ne_true]
    rfl
  have hpub : accept "pub" c = .ok (false, c) := by
    rw [accept, bind_of_ok (hno "pub" (by decide))]
    rfl
  rw [qualifiers, bind_of_ok hpub, if_neg Bool.false_ne_true]
  refine iterate_of_stop ?_
  rw [bind_of_ok hqualifier]
  rfl

theorem useDeclaration_consumes {g : Grammar} {t : UseTree}
    (h : Consumes (Before useEnds) (g.useTreeOf []) t.spellings (· = t.leaves [])) :
    Consumes (fun _ => True) g.itemOf (keyword "use" :: (t.spellings ++ [mark ";"]))
      fun item => ∃ span, item = .use span (importsOf (t.leaves [])) (globsOf (t.leaves [])) := by
  refine .skipAttributes (fun _ _ => rfl) (.lookHead fun t ht => .peek (x := ()) (fun o _ c hc => ?_) ?_)
  · have hother : ∀ v ∈ ["pub", "async", "unsafe", "const", "extern"],
        (some (keyword "use")).any (·.is v) = false := by decide
    exact qualifiers_none fun v hv => by
      rw [hc]
      exact hother v hv
  · refine .lookHead fun t ht => ?_
    obtain ⟨hkind, hvalue⟩ := Prod.mk.inj ht
    have hfn : t.isKeyword "fn" = false := by rw [Token.isKeyword, hkind, hvalue]; decide
    have huse : t.isKeyword "use" = true := by rw [Token.isKeyword, hkind, hvalue]; decide
    dsimp only
    rw [hfn, huse, if_neg Bool.false_ne_true, if_pos rfl]
    exact useItem_consumes _ h

/-- One turn of a list of items. -/
def itemsTurn (item : Parse Item) (braced : Bool) : Parse (Turn Item Unit) := do
  skipAttributes
  if (← look 0).isNone then
    if braced then rejectEnd (.awaiting "'\x7d'") else return .stop ()
  else if braced && (← nextIs "\x7d") then return .stop ()
  else if ← accept ";" then return .skip
  else return .one (← item)

theorem items_eq (item : Parse Item) (braced : Bool) :
    items item braced = (do
      let (found, _) ← collect (itemsTurn item braced)
      return found) := rfl

/-- A turn that reads an item of a file. -/
theorem itemsTurn_one {item : Parse Item} {ws : List Spelling} {w : Spelling} {Q : Item → Prop}
    (hhash : w.is "#" = false) (hsemi : w.is ";" = false)
    (h : Consumes (fun _ => True) item (w :: ws) Q) :
    Consumes (fun _ => True) (itemsTurn item false) (w :: ws) fun t => ∃ i, t = .one i ∧ Q i := by
  refine .skipAttributes (fun o _ => hhash) (.lookHead fun t ht => .ite (fun h => nomatch h) fun _ => ?_)
  refine .looking (P := fun _ => True) (.nextIs "\x7d") fun _ _ => .ite (fun h => nomatch h) fun _ => ?_
  exact .acceptNot (fun o _ => hsemi) (.last h fun i hi => .pure ⟨i, rfl, hi⟩)

theorem itemsTurn_end (item : Parse Item) :
    Consumes (· = none) (itemsTurn item false) [] fun t => ∃ u, t = .stop u ∧ True := by
  refine .skipAttributes (fun o ho => by rw [ho]; rfl) (.lookNext fun o ho => ?_)
  obtain rfl := Option.map_eq_none_iff.1 ho
  exact .pure ⟨(), rfl, trivial⟩

/-- A file of one item. -/
theorem items_one {item : Parse Item} {ws : List Spelling} {w : Spelling} {Q : Item → Prop}
    (hhash : w.is "#" = false) (hsemi : w.is ";" = false)
    (h : Consumes (fun _ => True) item (w :: ws) Q) :
    Consumes (· = none) (items item false) (w :: ws) fun found => ∃ i, found = [i] ∧ Q i := by
  have hturns := Consumes.collectOne (List.cons_ne_nil w ws) (itemsTurn_one hhash hsemi h)
    (fun _ _ => trivial) (itemsTurn_end item).collectStop
  rw [List.append_nil] at hturns
  rw [items_eq]
  refine .last hturns fun r hr => ?_
  obtain ⟨i, is, hr, hQ, rfl, -⟩ := hr
  exact .pure ⟨i, hr, hQ⟩

end Grammar

/-- What a deep grammar reads of a file is what is read of it. -/
theorem readItems_of_deep {ts : List Token} {Q : List Item → Prop} {ws : List Spelling}
    (hts : ts.map Token.spelling = ws) (hm : ¬ HasStrayMark ts)
    (h : Deep fun g => Consumes (· = none) (Grammar.items g.item false) ws Q) :
    ∃ items, readItems ts = .ok items ∧ Q items := by
  obtain ⟨depth, hdeep⟩ := h
  obtain ⟨items, last, hitems, hQ⟩ := hdeep (ts.length + 1 + depth) (by omega) ts [] 0 hts rfl
  have hhalts :=
    ((Grammar.haltsBelow_ofDepth (ts.length + 1) depth).items false).lower.start
      (Nat.lt_succ_self _) hm
  rw [List.append_nil] at hitems
  refine ⟨items, hhalts.2.trans ?_, hQ⟩
  rw [hitems]
  rfl

theorem renameGlyphs_no_hash (rename : Option Ident) :
    mark "#" ∉ Glyph.spellings (renameGlyphs rename) := by
  cases rename <;> simp [renameGlyphs]

mutual

theorem UseTree.no_hash : ∀ t : UseTree, mark "#" ∉ t.spellings
  | .mk rooted b => by
    rw [UseTree.spellings_mk]
    cases rooted <;> simp [UseBranch.no_hash b]

theorem UseBranch.no_hash : ∀ b : UseBranch, mark "#" ∉ b.spellings
  | .name i other rename => by
    have := renameGlyphs_no_hash rename
    simpa [UseBranch.spellings, UseBranch.glyphs] using this
  | .self rename => by
    have := renameGlyphs_no_hash rename
    simpa [UseBranch.spellings, UseBranch.glyphs] using this
  | .glob => by decide
  | .group ts comma => by
    have hlist : mark "#" ∉ commas (ts.map (·.spellings)) := by
      intro h
      rcases mem_commas h with h | ⟨ws, hws, h⟩
      · simp at h
      · obtain ⟨t, ht, rfl⟩ := List.mem_map.1 hws
        exact UseTree.no_hash_each ts t ht h
    rw [UseBranch.spellings_group]
    split <;> simp [hlist]
  | .under i b => by
    have := UseBranch.no_hash b
    simpa [UseBranch.spellings, UseBranch.glyphs] using this

theorem UseTree.no_hash_each : ∀ ts : List UseTree, ∀ t ∈ ts, mark "#" ∉ t.spellings
  | [], t, h => nomatch h
  | t :: ts, u, h => by
    rcases List.mem_cons.1 h with he | h
    · exact he ▸ UseTree.no_hash t
    · exact UseTree.no_hash_each ts u h

end

/-- A declaration that is printed and read brings in the leaves of its tree, from left to right. -/
theorem UseTree.readModule_text (t : UseTree) (start : Int) (file : String) : ∃ span,
    readModule t.text start file = .ok ⟨⟨start, start + t.text.length, 0⟩,
      [.use span (importsOf (t.leaves [])) (globsOf (t.leaves []))], file⟩ := by
  obtain ⟨ts, hts, hbare⟩ := t.declaration_fits.tokensOf String.toList_ofList start
  have hspelling : ts.map Token.spelling = keyword "use" :: (t.spellings ++ [mark ";"]) := by
    have hplaced := Glyph.spelling_placed start t.declaration
    rw [← hbare, List.map_map] at hplaced
    rw [UseTree.declaration, Glyph.spellings_token, Glyph.spellings_gap, Glyph.spellings_append] at hplaced
    exact hplaced
  have hm : ¬ HasStrayMark ts := by
    refine not_hasStrayMark_of_not_mem ?_
    rw [hspelling]
    simp [t.no_hash]
  have hread : Deep fun g => Consumes (· = none) (Grammar.items g.item false)
      (keyword "use" :: (t.spellings ++ [mark ";"]))
      fun items => ∃ span, items = [.use span (importsOf (t.leaves [])) (globsOf (t.leaves []))] := by
    obtain ⟨rooted, b⟩ := t
    refine (b.read).1.above fun g h => ?_
    have hitem := Grammar.useDeclaration_consumes (Grammar.useTreeOf_branch rooted (h []))
    refine (Grammar.items_one rfl rfl hitem).imp ?_
    rintro _ ⟨_, rfl, span, rfl⟩
    exact ⟨span, rfl⟩
  obtain ⟨items, hitems, span, rfl⟩ := readItems_of_deep hspelling hm hread
  refine ⟨span, ?_⟩
  rw [readModule, UseTree.text, hts]
  change (do return ⟨_, ← readItems ts, file⟩ : Except Failure Module) = _
  rw [hitems]
  rfl

example :
    let name (v : String) (h : IsWord v) : Ident := ⟨v, h⟩
    let t : UseTree := .mk true (.under (name "a" (by decide)) (.group
      [.mk false (.self none), .mk false (.name (name "b" (by decide)) (by decide) (name "_" (by decide))),
       .mk false (.under (name "c" (by decide)) .glob)] true))
    t.text = "use ::a::\x7bself, b as _, c::*,\x7d;" := by decide

end BuilderMigration
