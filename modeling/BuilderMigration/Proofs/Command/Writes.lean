import BuilderMigration.Files.FileTree
import BuilderMigration.Command.Run

/-! Writing into a tree of files: the whole text is stored where the path leads to, or all files stay as
they are; directories may be new either way. Behind several writes the files of those that were done hold
their texts, and all other files are as they were. -/

namespace BuilderMigration.FileTree

variable {t later : FileTree} {p : Path} {names other : List String} {bytes : List UInt8}
  {entry : FileEntry}

/-! ### Entries -/

theorem lookup_replace_of_ne (l : List (List String × FileEntry)) (entry : FileEntry)
    (h : other ≠ names) :
    (l.map fun e => if e.1 == names then (names, entry) else e).lookup other = l.lookup other := by
  induction l with
  | nil => rfl
  | cons e l ih =>
    rw [List.map_cons, List.lookup_cons, List.lookup_cons, ih]
    by_cases he : e.1 = names
    · rw [if_pos (beq_iff_eq.2 he), beq_eq_false_iff_ne.2 h, he, beq_eq_false_iff_ne.2 h]
    · rw [if_neg (by simpa using he)]

theorem lookup_replace_self {l : List (List String × FileEntry)} (entry : FileEntry)
    (h : l.any (·.1 == names) = true) :
    (l.map fun e => if e.1 == names then (names, entry) else e).lookup names = some entry := by
  induction l with
  | nil => cases h
  | cons e l ih =>
    rw [List.map_cons, List.lookup_cons]
    by_cases he : e.1 = names
    · rw [if_pos (beq_iff_eq.2 he), beq_self_eq_true]
    · rw [List.any_cons, beq_eq_false_iff_ne.2 he, Bool.false_or] at h
      rw [if_neg (by simpa using he), beq_eq_false_iff_ne.2 (Ne.symm he), ih h]

/-- What stands under some names behind an entry. -/
theorem lookup_enter (t : FileTree) (names : List String) (entry : FileEntry) (other : List String) :
    (t.enter names entry).entries.lookup other =
      if other = names then some entry else t.entries.lookup other := by
  by_cases hany : t.entries.any (·.1 == names) = true
  · rw [enter, if_pos hany]
    split
    · next heq => rw [heq, lookup_replace_self entry hany]
    · next hne => exact lookup_replace_of_ne t.entries entry hne
  · rw [enter, if_neg hany, List.lookup_append, List.lookup_cons, List.lookup_nil]
    rw [Bool.not_eq_true, List.any_eq_false] at hany
    by_cases heq : other = names
    · have hnone : t.entries.lookup names = none := by
        rw [List.lookup_eq_none_iff]
        intro e he
        simpa using Ne.symm (by simpa using hany e he : e.1 ≠ names)
      rw [heq, hnone, beq_self_eq_true, Option.none_or, if_pos rfl]
    · rw [beq_eq_false_iff_ne.2 heq, Option.or_none, if_neg heq]

theorem here_enter (t : FileTree) (names : List String) (entry : FileEntry) :
    (t.enter names entry).here = t.here := by
  unfold enter
  split <;> rfl

theorem bytesAt?_enter_file (t : FileTree) (names : List String) (bytes : List UInt8)
    (other : List String) : (t.enter names (.file bytes)).bytesAt? other =
      if other = names then some bytes else t.bytesAt? other := by
  unfold bytesAt?
  rw [lookup_enter]
  by_cases h : other = names
  · rw [if_pos h, if_pos h]
  · rw [if_neg h, if_neg h]

theorem bytesAt?_enter_directory (h : t.bytesAt? names = none) (other : List String) :
    (t.enter names .directory).bytesAt? other = t.bytesAt? other := by
  by_cases heq : other = names
  · rw [heq, h, bytesAt?, lookup_enter, if_pos rfl]
  · unfold bytesAt?
    rw [lookup_enter, if_neg heq]

/-! ### Directories -/

/-- A tree with the same files and the same working directory. -/
structure SameFiles (t later : FileTree) : Prop where
  here : later.here = t.here
  bytes : ∀ names, later.bytesAt? names = t.bytesAt? names

namespace SameFiles

theorem refl (t : FileTree) : SameFiles t t := ⟨rfl, fun _ => rfl⟩

theorem trans {last : FileTree} (h : SameFiles t later) (h' : SameFiles later last) :
    SameFiles t last :=
  ⟨h'.here.trans h.here, fun names => (h'.bytes names).trans (h.bytes names)⟩

end SameFiles

theorem sameFiles_makeDirectory (h : t.makeDirectory p = .ok later) : SameFiles t later := by
  unfold makeDirectory at h
  cases hl : t.locate p with
  | error e =>
    rw [hl] at h
    cases h
  | ok names =>
    rw [hl] at h
    simp only [bind, Except.bind] at h
    split at h
    · cases h
    · next hnew =>
      obtain rfl := Except.ok.inj h
      simp only [isFileAt, Bool.or_eq_true, not_or, Bool.not_eq_true, Option.isSome_eq_false_iff,
        Option.isNone_iff_eq_none] at hnew
      exact ⟨here_enter t names _, bytesAt?_enter_directory hnew.1⟩

theorem sameFiles_ensureDirectory (t : FileTree) (p : Path) :
    SameFiles t (t.ensureDirectory p).1 := by
  unfold ensureDirectory
  split
  · next h => exact sameFiles_makeDirectory h
  · exact .refl t

theorem sameFiles_makeWay (t : FileTree) (p : Path) (n : Nat) : SameFiles t (t.makeWay p n).1 := by
  induction n with
  | zero => exact .refl t
  | succ n ih =>
    rw [makeWay]
    split
    · split
      · next later hway =>
        rw [hway] at ih
        exact ih.trans (sameFiles_ensureDirectory later _)
      · exact ih
    · exact sameFiles_ensureDirectory t _

/-! ### Where paths lead -/

theorem plain_congr (h : later.here = t.here) (p : Path) : later.plain p = t.plain p := by
  rw [plain, plain, origin, origin, h]

theorem eq_of_step {part : String} (h : t.step p names part = .ok other) :
    other = if part = ".." then names.dropLast else names ++ [part] := by
  unfold step at h
  split at h
  · cases h
  split at h
  · cases h
  split at h
  · next hpart => rw [if_pos hpart, Except.ok.inj h]
  split at h
  · cases h
  · next hpart _ => rw [if_neg hpart, Except.ok.inj h]

/-- A path whose directories are there leads where its names say. -/
theorem eq_plain_of_locate (h : t.locate p = .ok names) : names = t.plain p := by
  unfold locate at h
  split at h
  · cases h
  split at h
  · cases h
  · unfold plain
    generalize t.origin p = front at h ⊢
    generalize p.parts = parts at h ⊢
    induction parts generalizing front with
    | nil => exact (Except.ok.inj h).symm
    | cons part parts ih =>
      rw [List.foldlM_cons] at h
      cases hstep : t.step p front part with
      | error e =>
        rw [hstep] at h
        cases h
      | ok next =>
        rw [hstep] at h
        rw [List.foldl_cons, ← eq_of_step hstep]
        exact ih next h

/-! ### Files -/

theorem eq_enter_of_writeBytes (h : t.writeBytes p bytes = .ok later) :
    later = t.enter (t.plain p) (.file bytes) := by
  unfold writeBytes at h
  cases hl : t.locate p with
  | error e =>
    rw [hl] at h
    cases h
  | ok names =>
    rw [hl] at h
    simp only [bind, Except.bind] at h
    split at h
    · cases h
    · rw [← eq_plain_of_locate hl]
      exact (Except.ok.inj h).symm

/-- What is known of a tree behind the writing of a text, and of the outcome. -/
structure Stored (t : FileTree) (p : Path) (text : String)
    (written : FileTree × Except FileError Unit) : Prop where
  here : written.1.here = t.here
  stored : written.2 = .ok () → written.1.bytesAt? (t.plain p) = some (Utf8.encode text)
  failed : ∀ e, written.2 = .error e → ∀ names, written.1.bytesAt? names = t.bytesAt? names
  others : ∀ names, names ≠ t.plain p → written.1.bytesAt? names = t.bytesAt? names

theorem SameFiles.stored {e : FileError} (h : SameFiles t later) (p : Path) (text : String) :
    Stored t p text (later, .error e) where
  here := h.here
  stored := nofun
  failed _ _ := h.bytes
  others names _ := h.bytes names

theorem stored_writeText (t : FileTree) (p : Path) (text : String) :
    Stored t p text (t.writeText p text) := by
  have hway := sameFiles_makeWay t p.parent p.parent.parts.length
  unfold writeText
  split
  · next later hmade =>
    rw [hmade] at hway
    split
    · next written hw =>
      obtain rfl := eq_enter_of_writeBytes hw
      have hplain := plain_congr hway.here p
      refine ⟨(here_enter _ _ _).trans hway.here, fun _ => ?_, nofun, fun names hne => ?_⟩
      · rw [← hplain, bytesAt?_enter_file, if_pos rfl]
      · rw [bytesAt?_enter_file, hplain, if_neg hne, hway.bytes]
    · exact hway.stored p text
  · next hne =>
    cases hmade : t.makeWay p.parent p.parent.parts.length with
    | mk later outcome =>
      rw [hmade] at hway
      cases outcome with
      | ok _ => exact absurd hmade (hne later)
      | error e => exact hway.stored p text

end BuilderMigration.FileTree

/-! ### One write after another -/

namespace BuilderMigration.Command

variable {write : Writer} {t later : FileTree} {w : Write} {ws : List Write} {names : List String}
  {outcome : Except FileError Unit}

/-- A way of writing that stores a whole text or leaves all files as they are. -/
def Stores (write : Writer) : Prop := ∀ t p text, FileTree.Stored t p text (write t p text)

theorem stores_writeText : Stores FileTree.writeText := FileTree.stored_writeText

/-- A write that was tried, and what came of it. -/
abbrev Attempt := Write × Except FileError Unit

/-- The writes that are tried. One whose target names nothing is the last of them. -/
def attempts (write : Writer) (t : FileTree) : List Write → List Attempt
  | [] => []
  | w :: ws =>
    match write t w.target w.code with
    | (_, .error .nullCharacter) => [(w, .error .nullCharacter)]
    | (later, outcome) => (w, outcome) :: attempts write later ws

/-- What is said of a write. -/
def Attempt.event? : Attempt → Option Event
  | (_, .error .nullCharacter) => none
  | (w, .error e) =>
    some (.logged .error ("Failed to write " ++ w.target.text ++ ": " ++ e.message))
  | (w, .ok ()) =>
    some (.logged .success
      ("Migrated: " ++ styled "path" w.source.text ++ " -> " ++ styled "path" w.target.text))

/-! ### What is tried -/

theorem attempts_cons (h : write t w.target w.code = (later, outcome))
    (hne : outcome ≠ .error .nullCharacter) :
    attempts write t (w :: ws) = (w, outcome) :: attempts write later ws := by
  rw [attempts, h]
  split
  · next heq => exact absurd (Prod.mk.inj heq).2 hne
  · next heq => rw [← (Prod.mk.inj heq).1, ← (Prod.mk.inj heq).2]

theorem Attempt.event?_error {e : FileError} (w : Write) (he : e ≠ .nullCharacter) :
    Attempt.event? (w, .error e) =
      some (.logged .error ("Failed to write " ++ w.target.text ++ ": " ++ e.message)) := by
  unfold Attempt.event?
  split <;> simp_all

/-- A run says of its writes, one after another, what came of them. -/
theorem events_carryOut (write : Writer) (t : FileTree) (ws : List Write) :
    (carryOut write t ws).events = (attempts write t ws).filterMap Attempt.event? := by
  fun_induction carryOut write t ws with
  | case1 t => rfl
  | case2 t w ws later h => rw [attempts, h]; rfl
  | case3 t w ws later e he h rest ih =>
    rw [attempts_cons h (by simpa using he), List.filterMap_cons, Attempt.event?_error w he, ← ih]
  | case4 t w ws later h rest ih => rw [attempts_cons h nofun, List.filterMap_cons, ← ih]; rfl

theorem fault_carryOut (write : Writer) (t : FileTree) (ws : List Write) :
    (carryOut write t ws).fault = none ↔
      ∀ w, (w, .error .nullCharacter) ∉ attempts write t ws := by
  fun_induction carryOut write t ws with
  | case1 t => simp [attempts]
  | case2 t w ws later h => simp [attempts, h]
  | case3 t w ws later e he h rest ih =>
    rw [attempts_cons h (by simpa using he)]
    simp [ih, rest, Ne.symm he]
  | case4 t w ws later h rest ih =>
    rw [attempts_cons h nofun]
    simp [ih, rest]

theorem complete_carryOut (write : Writer) (t : FileTree) (ws : List Write)
    (h : (carryOut write t ws).fault = none) :
    (carryOut write t ws).complete = true ↔ ∀ a ∈ attempts write t ws, a.2 = .ok () := by
  fun_induction carryOut write t ws with
  | case1 t => simp [attempts]
  | case2 t w ws later h => cases h
  | case3 t w ws later e he hw rest ih =>
    rw [attempts_cons hw (by simpa using he)]
    simp
  | case4 t w ws later hw rest ih =>
    rw [attempts_cons hw nofun, List.forall_mem_cons]
    simpa using ih h

/-- The writes that are tried are the first of all. -/
theorem map_attempts_initial (write : Writer) (t : FileTree) (ws : List Write) :
    (attempts write t ws).map Prod.fst <+: ws := by
  fun_induction attempts write t ws with
  | case1 t => exact List.prefix_refl []
  | case2 t w ws later h => exact ⟨ws, rfl⟩
  | case3 t w ws later outcome h hne ih => exact List.prefix_cons_inj w |>.2 ih

theorem Stores.of_eq {p : Path} {text : String} (hs : Stores write)
    (h : write t p text = (later, outcome)) : FileTree.Stored t p text (later, outcome) :=
  h ▸ hs t p text

/-- A file that no write was done to holds what it held. -/
theorem bytesAt?_carryOut_of_ne (hs : Stores write)
    (h : ∀ w, (w, .ok ()) ∈ attempts write t ws → names ≠ t.plain w.target) :
    (carryOut write t ws).tree.bytesAt? names = t.bytesAt? names := by
  fun_induction carryOut write t ws with
  | case1 t => rfl
  | case2 t w ws later hw => exact (hs.of_eq hw).failed _ rfl names
  | case3 t w ws later e he hw rest ih =>
    have hstep := hs.of_eq hw
    rw [attempts_cons hw (by simpa using he)] at h
    refine (ih fun v hv => ?_).trans (hstep.failed e rfl names)
    rw [FileTree.plain_congr hstep.here]
    exact h v (List.mem_cons_of_mem _ hv)
  | case4 t w ws later hw rest ih =>
    have hstep := hs.of_eq hw
    rw [attempts_cons hw nofun] at h
    refine (ih fun v hv => ?_).trans (hstep.others names (h w List.mem_cons_self))
    rw [FileTree.plain_congr hstep.here]
    exact h v (List.mem_cons_of_mem _ hv)

/-- Where no two writes go into one file, each file that a write was done to holds its text. -/
theorem bytesAt?_carryOut (hs : Stores write) (hnodup : (ws.map fun w => t.plain w.target).Nodup)
    (h : (w, .ok ()) ∈ attempts write t ws) :
    (carryOut write t ws).tree.bytesAt? (t.plain w.target) = some (Utf8.encode w.code) := by
  fun_induction carryOut write t ws with
  | case1 t => cases h
  | case2 t v ws later hv =>
    rw [attempts, hv] at h
    cases List.mem_singleton.1 h
  | case3 t v ws later e he hv rest ih =>
    have hstep := hs.of_eq hv
    rw [attempts_cons hv (by simpa using he)] at h
    have hw := (List.mem_cons.1 h).resolve_left nofun
    simp only [FileTree.plain_congr hstep.here] at ih
    exact ih (List.nodup_cons.1 hnodup).2 hw
  | case4 t v ws later hv rest ih =>
    have hstep := hs.of_eq hv
    obtain ⟨hnotMem, hnodup⟩ := List.nodup_cons.1 hnodup
    rw [attempts_cons hv nofun] at h
    simp only [FileTree.plain_congr hstep.here] at ih
    obtain heq | hw := List.mem_cons.1 h
    · obtain rfl := (Prod.mk.inj heq).1
      rw [bytesAt?_carryOut_of_ne hs, hstep.stored rfl]
      -- The later writes go elsewhere.
      intro v hv heq
      rw [FileTree.plain_congr hstep.here] at heq
      have hmem : v ∈ ws := (map_attempts_initial write later ws).subset (List.mem_map_of_mem hv)
      exact hnotMem (List.mem_map.2 ⟨v, hmem, heq.symm⟩)
    · exact ih hnodup hw

end BuilderMigration.Command
