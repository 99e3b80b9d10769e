import BuilderMigration.Files.Sources
import BuilderMigration.Command.Run
import Mathlib.Data.List.Forall2
import Mathlib.Data.List.Nodup

/-! Names in a tree of files: how they are joined to a path and read back from it, which of them a
path leads to, and that no source file is listed twice. A request has an outcome for each file that its
path stands for, worked out from the tree as the request finds it, and no two of these files have one
destination. -/

namespace BuilderMigration

variable {names : List String} {name : String}

namespace Path

/-! ### Names between slashes -/

/-- What can be the name of an entry in a directory. -/
def IsName (name : String) : Prop := name ≠ "" ∧ name ≠ "." ∧ name ≠ ".." ∧ '/' ∉ name.toList

instance (name : String) : Decidable (IsName name) := inferInstanceAs (Decidable (_ ∧ _))

theorem pieces_of_notMem {cs : List Char} (h : '/' ∉ cs) : pieces cs = [cs] := by
  induction cs with
  | nil => rfl
  | cons c cs ih =>
    rw [List.mem_cons, not_or] at h
    rw [pieces, if_neg (Ne.symm h.1), ih h.2]

theorem pieces_append_slash {cs : List Char} (h : '/' ∉ cs) (rest : List Char) :
    pieces (cs ++ '/' :: rest) = cs :: pieces rest := by
  induction cs with
  | nil => rw [List.nil_append, pieces, if_pos rfl]
  | cons c cs ih =>
    rw [List.mem_cons, not_or] at h
    rw [List.cons_append, pieces, if_neg (Ne.symm h.1), ih h.2]

theorem pieces_intercalate (hne : names ≠ []) (h : ∀ name ∈ names, IsName name) :
    pieces (String.intercalate "/" names).toList = names.map String.toList := by
  induction names with
  | nil => exact absurd rfl hne
  | cons name names ih =>
    obtain ⟨hname, hnames⟩ := List.forall_mem_cons.1 h
    cases names with
    | nil => rw [String.intercalate_singleton, pieces_of_notMem hname.2.2.2]; rfl
    | cons next names =>
      have hslash : "/".toList = ['/'] := rfl
      rw [String.intercalate_cons_cons, String.toList_append, String.toList_append, hslash,
        List.append_assoc, List.singleton_append, pieces_append_slash hname.2.2.2,
        ih (List.cons_ne_nil _ _) hnames]
      rfl

/-- A text that begins with a name begins in the working directory. -/
theorem start_intercalate (h : ∀ name ∈ names, IsName name) :
    PathStart.ofChars (String.intercalate "/" names).toList = .here := by
  cases names with
  | nil => rfl
  | cons name names =>
    obtain ⟨hne, -, -, hslash⟩ := h name List.mem_cons_self
    have hprefix : ∃ rest, (String.intercalate "/" (name :: names)).toList = name.toList ++ rest := by
      cases names with
      | nil => exact ⟨[], by rw [String.intercalate_singleton, List.append_nil]⟩
      | cons next names =>
        rw [String.intercalate_cons_cons, String.toList_append, String.toList_append,
          List.append_assoc]
        exact ⟨_, rfl⟩
    obtain ⟨rest, hrest⟩ := hprefix
    rw [hrest]
    cases hc : name.toList with
    | nil => exact absurd (String.toList_eq_nil_iff.1 hc) hne
    | cons c cs =>
      have hcne : c ≠ '/' := fun heq => hslash (hc ▸ heq ▸ List.mem_cons_self)
      rw [List.cons_append]
      unfold PathStart.ofChars
      split <;> simp_all

/-- Joined names are read back. -/
theorem ofString_intercalate (h : ∀ name ∈ names, IsName name) :
    ofString (String.intercalate "/" names) = { parts := names } := by
  rw [ofString, start_intercalate h]
  congr 1
  cases names with
  | nil => rfl
  | cons name rest =>
    rw [pieces_intercalate (List.cons_ne_nil _ _) h, List.map_map, List.filter_eq_self.2]
    · simp [Function.comp_def]
    · intro piece hp
      simp only [Function.comp_def, String.ofList_toList, List.map_id'] at hp
      obtain ⟨hne, hdot, -⟩ := h piece hp
      simpa using ⟨hne, hdot⟩

end Path

namespace FileTree

variable {t : FileTree} {p : Path}

/-! ### Where paths lead -/

/-- Names below a path lead on from where the path leads. -/
theorem plain_join (t : FileTree) (p : Path) (h : ∀ name ∈ names, Path.IsName name) :
    t.plain (p.join { parts := names }) = t.plain p ++ names := by
  have hfold (front : List String) :
      names.foldl (fun names part => if part = ".." then names.dropLast else names ++ [part]) front =
        front ++ names := by
    induction names generalizing front with
    | nil => exact (List.append_nil front).symm
    | cons name names ih =>
      obtain ⟨hname, hnames⟩ := List.forall_mem_cons.1 h
      rw [List.foldl_cons, if_neg hname.2.2.1, ih hnames, List.append_assoc, List.singleton_append]
  have hjoin : p.join { parts := names } = { p with parts := p.parts ++ names } := rfl
  have horigin : t.origin { p with parts := p.parts ++ names } = t.origin p := rfl
  rw [hjoin, plain, horigin, List.foldl_append, hfold]
  rfl

/-! ### Source files -/

/-- A tree whose entries all have proper names. -/
def WellNamed (t : FileTree) : Prop := ∀ e ∈ t.entries, ∀ name ∈ e.1, Path.IsName name

instance (t : FileTree) : Decidable t.WellNamed := inferInstanceAs (Decidable (∀ _ ∈ _, _))

theorem nodup_eraseDups {α : Type} [BEq α] [LawfulBEq α] (l : List α) : l.eraseDups.Nodup := by
  match l with
  | [] => exact .nil
  | a :: l =>
    rw [List.eraseDups_cons, List.nodup_cons, List.mem_eraseDups]
    exact ⟨by simp, nodup_eraseDups _⟩
termination_by l.length
decreasing_by exact Nat.lt_succ_of_le (List.length_filter_le _ _)

theorem nodup_below (t : FileTree) (names : List String) : (t.below names).Nodup :=
  (List.mergeSort_perm _ _).nodup_iff.2 (nodup_eraseDups _)

theorem WellNamed.below (h : t.WellNamed) {directory : List String} (hn : names ∈ t.below directory) :
    ∀ name ∈ names, Path.IsName name := by
  rw [FileTree.below, List.mem_mergeSort, List.mem_eraseDups, List.mem_flatMap] at hn
  obtain ⟨rest, hrest, hn⟩ := hn
  obtain ⟨n, -, rfl⟩ := List.mem_map.1 hn
  obtain ⟨e, he, hdrop⟩ := List.mem_filterMap.1 hrest
  split at hdrop
  · obtain rfl := Option.some.inj hdrop
    exact fun name hname => h e he name (List.mem_of_mem_drop (List.mem_of_mem_take hname))
  · cases hdrop

theorem sublist_of_keep {exclude : List String} {found kept : List (List String)}
    (h : keep exclude found = .ok kept) : kept.Sublist found := by
  induction found generalizing kept with
  | nil =>
    obtain rfl := Except.ok.inj h
    exact .slnil
  | cons names found ih =>
    rw [keep] at h
    cases hx : isExcluded names exclude with
    | error e =>
      rw [hx] at h
      cases h
    | ok excluded =>
      cases hk : keep exclude found with
      | error e =>
        rw [hx, hk] at h
        cases h
      | ok rest =>
        rw [hx, hk] at h
        obtain rfl := Except.ok.inj h
        cases excluded with
        | true => exact (ih hk).cons names
        | false => exact (ih hk).cons_cons names

/-- The source files under a directory, none of them twice and all with proper names. -/
theorem sources_spec {directory : Path} {exclude : List String} {found : List (List String)}
    (ht : t.WellNamed) (h : t.sources directory exclude = .ok found) :
    found.Nodup ∧ ∀ names ∈ found, ∀ name ∈ names, Path.IsName name := by
  unfold sources at h
  split at h
  · split at h
    · have hsub := sublist_of_keep h
      refine ⟨((nodup_below t _).filter _).sublist hsub, fun names hn => ?_⟩
      exact ht.below (List.mem_filter.1 (hsub.subset hn)).1
    · obtain rfl := Except.ok.inj h
      exact ⟨.nil, nofun⟩
  · cases h
  · obtain rfl := Except.ok.inj h
    exact ⟨.nil, nofun⟩

end FileTree

end BuilderMigration

namespace BuilderMigration.Command

variable {t : FileTree} {r : Request} {settings : Settings} {path : Path} {place : Destination}
  {files : List (String × Path)} {results : Results}

/-! ### The files of a request -/

/-- A file with its outcome. -/
def Outcomes (settings : Settings) (t : FileTree) : List (String × Path) → Results → Prop :=
  List.Forall₂ fun file entry =>
    entry.1 = file.1 ∧ (migrateFile settings t file.2).2 = .ok entry.2

theorem outcomes_of_migrateFiles (h : (migrateFiles settings t files).2 = .ok results) :
    Outcomes settings t files results := by
  fun_induction migrateFiles settings t files generalizing results with
  | case1 =>
    obtain rfl := Except.ok.inj h
    exact .nil
  | case2 name path files events f hf => cases h
  | case3 name path files events result hf later rest hrest ih =>
    cases rest with
    | error f => cases h
    | ok rest =>
      obtain rfl := Except.ok.inj h
      exact .cons ⟨rfl, congrArg Prod.snd hf⟩ (ih (congrArg Prod.snd hrest))

theorem Outcomes.exists_file {entry : String × MigrationResult}
    (h : Outcomes settings t files results) (he : entry ∈ results) :
    ∃ file ∈ files, entry.1 = file.1 ∧ (migrateFile settings t file.2).2 = .ok entry.2 := by
  induction h with
  | nil => cases he
  | @cons file first _ _ hfirst _ ih =>
    obtain rfl | he := List.mem_cons.1 he
    · exact ⟨file, List.mem_cons_self, hfirst⟩
    · obtain ⟨file, hf, hentry⟩ := ih he
      exact ⟨file, List.mem_cons_of_mem _ hf, hentry⟩

theorem inputFiles_cases (h : (inputFiles settings t path).2 = .ok files) :
    (t.isFile path = true ∧ files = [(path.name, path)]) ∨
      (t.isFile path = false ∧ ∃ found, t.sources path settings.exclude = .ok found ∧
        files = found.map fun names =>
          (String.intercalate "/" names, path.join { parts := names })) := by
  unfold inputFiles at h
  split at h
  · next hfile => exact .inl ⟨hfile, (Except.ok.inj h).symm⟩
  · next hfile =>
    refine .inr ⟨by simpa using hfile, ?_⟩
    split at h
    · cases h
    · next hfound => exact ⟨[], hfound, (Except.ok.inj h).symm⟩
    · next found _ hfound => exact ⟨found, hfound, (Except.ok.inj h).symm⟩

/-! ### Where they are and where their texts go -/

theorem sourcePath_directory {names : List String} (hfile : t.isFile path = false)
    (hn : ∀ name ∈ names, Path.IsName name) :
    sourcePath t path (String.intercalate "/" names) = path.join { parts := names } := by
  rw [sourcePath, if_neg (Bool.eq_false_iff.1 hfile), Path.ofString_intercalate hn]

/-- The texts of a directory go under one path. -/
theorem exists_targetPath_directory (place : Destination) (hfile : t.isFile path = false) :
    ∃ base : Path, ∀ names : List String, (∀ name ∈ names, Path.IsName name) →
      targetPath t path place (String.intercalate "/" names) = base.join { parts := names } := by
  cases place with
  | inPlace => exact ⟨path, fun names hn => sourcePath_directory hfile hn⟩
  | nowhere => exact ⟨path, fun names hn => sourcePath_directory hfile hn⟩
  | path out =>
    refine ⟨out, fun names hn => ?_⟩
    rw [targetPath, if_neg (Bool.eq_false_iff.1 hfile), Path.ofString_intercalate hn]

theorem eq_sourcePath {file : String × Path} (ht : t.WellNamed)
    (h : (inputFiles settings t path).2 = .ok files) (hf : file ∈ files) :
    file.2 = sourcePath t path file.1 := by
  obtain ⟨hfile, rfl⟩ | ⟨hfile, found, hfound, rfl⟩ := inputFiles_cases h
  · obtain rfl := List.mem_singleton.1 hf
    rw [sourcePath, if_pos hfile]
  · obtain ⟨names, hn, rfl⟩ := List.mem_map.1 hf
    exact (sourcePath_directory hfile ((FileTree.sources_spec ht hfound).2 names hn)).symm

/-- No two texts go into one file. -/
theorem nodup_targets (ht : t.WellNamed) (h : (inputFiles settings t path).2 = .ok files)
    (place : Destination) :
    (files.map fun file => t.plain (targetPath t path place file.1)).Nodup := by
  obtain ⟨-, rfl⟩ | ⟨hfile, found, hfound, rfl⟩ := inputFiles_cases h
  · exact List.nodup_singleton _
  · obtain ⟨hnodup, hnames⟩ := FileTree.sources_spec ht hfound
    obtain ⟨base, hbase⟩ := exists_targetPath_directory place hfile
    rw [List.map_map]
    refine hnodup.map_on fun names hn names' hn' heq => ?_
    have hplain : t.plain base ++ names = t.plain base ++ names' := by
      simpa only [Function.comp_apply, hbase _ (hnames _ hn), hbase _ (hnames _ hn'),
        FileTree.plain_join t base (hnames _ hn), FileTree.plain_join t base (hnames _ hn')]
        using heq
    exact List.append_cancel_left hplain

theorem write?_eq_some_iff {name : String} {result : MigrationResult} {w : Write} :
    write? t path place name result = some w ↔
      (result.success = true ∧ (targetPath t path place name = sourcePath t path name →
        result.suggestions ≠ [])) ∧
        w = ⟨sourcePath t path name, targetPath t path place name, result.code⟩ := by
  unfold write?
  simp only [Option.ite_none_left_eq_some, Option.some.injEq, Bool.or_eq_true, Bool.not_eq_true',
    Bool.and_eq_true, beq_iff_eq, List.isEmpty_iff, not_or, not_and, Bool.not_eq_false]
  exact and_congr_right' eq_comm

theorem mem_writes_iff {w : Write} : w ∈ writes t path place results ↔
    ∃ entry ∈ results, write? t path place entry.1 entry.2 = some w :=
  List.mem_filterMap

theorem nodup_targets_writes
    (h : (results.map fun entry => t.plain (targetPath t path place entry.1)).Nodup) :
    ((writes t path place results).map fun w => t.plain w.target).Nodup := by
  rw [List.Nodup, List.pairwise_map] at h ⊢
  refine h.filterMap _ fun entry entry' hne w hw w' hw' => ?_
  obtain ⟨-, rfl⟩ := write?_eq_some_iff.1 hw
  obtain ⟨-, rfl⟩ := write?_eq_some_iff.1 hw'
  exact hne

/-! ### The analysis -/

/-- What is known of a request that all outcomes are there for. -/
structure Analysed (t : FileTree) (r : Request) (results : Results) : Prop where
  overlong : t.isOverlong r.path = false
  there : t.exists? r.path = true
  files : ∃ settings logs files,
    Settings.load t (searchPath t r.path) r.strict r.multiline = .ok (settings, logs) ∧
      (inputFiles settings t r.path).2 = .ok files ∧ Outcomes settings t files results

theorem analysed_of_analyse (h : (analyse t r).2 = .ok (some results)) : Analysed t r results := by
  unfold analyse at h
  split at h
  · cases h
  next hoverlong =>
  split at h
  · cases h
  next hthere =>
  split at h
  · cases h
  next settings logs hload =>
  split at h
  · cases h
  next said files hfiles =>
  split at h
  · cases h
  next events outcomes hresults =>
  obtain rfl : outcomes = results := Option.some.inj (Except.ok.inj h)
  exact ⟨by simpa using hoverlong, by simpa using hthere, settings, logs, files, hload,
    congrArg Prod.snd hfiles, outcomes_of_migrateFiles (congrArg Prod.snd hresults)⟩

theorem missing_of_analyse (h : (analyse t r).2 = .ok none) :
    t.isOverlong r.path = false ∧ t.exists? r.path = false := by
  unfold analyse at h
  split at h
  · cases h
  next hoverlong =>
  split at h
  · next hthere => exact ⟨by simpa using hoverlong, by simpa using hthere⟩
  -- The path leads somewhere, so there are outcomes or an error.
  · repeat' split at h
    all_goals cases h

namespace Analysed

theorem nodup_targets (ht : t.WellNamed) (h : Analysed t r results) (place : Destination) :
    (results.map fun entry => t.plain (targetPath t r.path place entry.1)).Nodup := by
  obtain ⟨settings, logs, files, -, hfiles, houtcomes⟩ := h.files
  have htargets : results.map (fun entry => t.plain (targetPath t r.path place entry.1)) =
      files.map fun file => t.plain (targetPath t r.path place file.1) := by
    rw [← List.forall₂_eq_eq_eq, List.forall₂_map_left_iff, List.forall₂_map_right_iff]
    exact houtcomes.flip.imp fun _ _ hentry => by rw [hentry.1]
  rw [htargets]
  exact Command.nodup_targets ht hfiles place

theorem exists_migrateFile (ht : t.WellNamed) (h : Analysed t r results)
    {entry : String × MigrationResult} (he : entry ∈ results) :
    ∃ settings, (migrateFile settings t (sourcePath t r.path entry.1)).2 = .ok entry.2 := by
  obtain ⟨settings, logs, files, -, hfiles, houtcomes⟩ := h.files
  obtain ⟨file, hf, hname, hresult⟩ := houtcomes.exists_file he
  exact ⟨settings, by rwa [hname, ← eq_sourcePath ht hfiles hf]⟩

end Analysed

end BuilderMigration.Command
