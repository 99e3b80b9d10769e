import BuilderMigration.Proofs.Command.Frame
import BuilderMigration.Proofs.Migration.Report
import BuilderMigration.Proofs.Source.Edit
import BuilderMigration.Proofs.Text.Utf8
import BuilderMigration.Text.Lines

/-! The bytes of a file that is fixed in place. The file is read as text, where every end of line is a
newline, and the text is written as it is; so the bytes outside the ranges of the suggestions stay just
where no carriage return is among them. -/

namespace BuilderMigration

/-! ### Ends of lines -/

namespace Text

/-- The characters of a text, where a carriage return and the newline behind it go together. -/
def cells : List Char → List (List Char)
  | '\r' :: '\n' :: cs => ['\r', '\n'] :: cells cs
  | c :: cs => [c] :: cells cs
  | [] => []

theorem flatten_cells (cs : List Char) : (cells cs).flatten = cs := by
  fun_induction cells cs with
  | case1 cs ih => rw [List.flatten_cons, ih]; rfl
  | case2 c cs _ ih => rw [List.flatten_cons, ih]; rfl
  | case3 => rfl

theorem unifyNewlines_singleton (c : Char) :
    unifyNewlines [c] = [if c = '\r' then '\n' else c] := by
  rw [unifyNewlines]
  · rfl
  · nofun

/-- Every cell becomes one character. -/
theorem map_unifyNewlines_cells (cs : List Char) :
    (cells cs).map unifyNewlines = (unifyNewlines cs).map fun c => [c] := by
  fun_induction cells cs with
  | case1 cs ih => rw [List.map_cons, ih]; rfl
  | case2 c cs hcs ih =>
    rw [unifyNewlines, List.map_cons, List.map_cons, ih, unifyNewlines_singleton]
    exact hcs
  | case3 => rfl

theorem mem_cells {cs cell : List Char} (h : cell ∈ cells cs) :
    cell = ['\r', '\n'] ∨ ∃ c, cell = [c] := by
  fun_induction cells cs with
  | case1 cs ih => exact (List.mem_cons.1 h).elim .inl ih
  | case2 c cs _ ih => exact (List.mem_cons.1 h).elim (fun h => .inr ⟨c, h⟩) ih
  | case3 => cases h

/-- No cell becomes longer, and those without a carriage return stay as they are. -/
theorem unifyNewlines_cell {cs cell : List Char} (h : cell ∈ cells cs) :
    (unifyNewlines cell).length ≤ cell.length ∧ (unifyNewlines cell = cell ↔ '\r' ∉ cell) := by
  obtain rfl | ⟨c, rfl⟩ := mem_cells h
  · decide
  · rw [unifyNewlines_singleton, List.mem_singleton]
    refine ⟨Nat.le_refl 1, ?_⟩
    by_cases hc : c = '\r'
    · subst hc
      decide
    · simp [hc, Ne.symm hc]

end Text

/-! ### From a text to its bytes -/

/-- Edits of a text with its ends of lines unified are edits of the text itself just if no carriage
return is kept. -/
theorem Spliced.eq_patch_cells_iff {raw out : List Char} {es : List Edit}
    (h : Spliced 0 (Text.unifyNewlines raw) es out) :
    out = (Edit.patch String.toList 0 es (Text.cells raw)).flatten ↔
      ∀ cell ∈ Edit.kept 0 es (Text.cells raw), '\r' ∉ cell := by
  have hcells : List.Forall₂ (fun a b : List Char => a.length ≤ b.length)
      ((Text.cells raw).map Text.unifyNewlines) (Text.cells raw) :=
    List.forall₂_map_left_iff.2 (List.forall₂_same.2 fun cell hc =>
      (Text.unifyNewlines_cell hc).1)
  have hpatch : List.Forall₂ (fun a b : List Char => a.length ≤ b.length)
      (Edit.patch String.toList 0 es ((Text.cells raw).map Text.unifyNewlines))
      (Edit.patch String.toList 0 es (Text.cells raw)) := by
    refine Edit.forall₂_patch ?_ hcells 0 es
    exact fun text => Nat.le_refl text.toList.length
  rw [h.eq_flatten_patch, ← Text.map_unifyNewlines_cells, flatten_eq_flatten_iff hpatch,
    Edit.patch_map_eq_iff]
  exact forall₂_congr fun cell hc => (Text.unifyNewlines_cell (Edit.mem_of_mem_kept hc)).2

namespace Utf8

variable {raw code : String} {es : List Edit}

/-- The bytes of a text, those of a character together, and those of a carriage return with the newline
behind it. -/
def cells (text : String) : List (List UInt8) :=
  (Text.cells text.toList).map fun cell => encode (String.ofList cell)

theorem flatten_cells (text : String) : (cells text).flatten = encode text := by
  rw [cells, ← encode_flatten, Text.flatten_cells, String.ofList_toList]

theorem flatten_patch_cells (es : List Edit) (text : String) :
    (Edit.patch encode 0 es (cells text)).flatten =
      encode (String.ofList (Edit.patch String.toList 0 es (Text.cells text.toList)).flatten) := by
  have hwrite : (fun cell => encode (String.ofList cell)) ∘ String.toList = encode := by
    funext text
    rw [Function.comp_apply, String.ofList_toList]
  rw [encode_flatten, Edit.map_patch, hwrite, cells]

theorem encode_eq_patch_cells_iff
    (h : Spliced 0 (Text.unifyNewlines raw.toList) es code.toList) :
    encode code = (Edit.patch encode 0 es (cells raw)).flatten ↔
      ∀ cell ∈ Edit.kept 0 es (Text.cells raw.toList), '\r' ∉ cell := by
  rw [flatten_patch_cells, encode_injective.eq_iff, ← String.toList_inj, String.toList_ofList,
    h.eq_patch_cells_iff]

end Utf8

/-! ### One file -/

theorem spliced_of_migrate {settings : Settings} {rules : Rules} {path code : String} {r : Migrated}
    (h : migrate settings rules path code = .ok r) :
    Spliced 0 code.toList (r.result.suggestions.map (·.edit)) r.result.code.toList := by
  cases hm : readModule code 1 path with
  | error failure =>
    rw [migrate_eq_match, hm] at h
    cases failure with
    | rejected e =>
      obtain rfl := Except.ok.inj h
      exact .done 0 _
    | _ => cases h
  | ok m =>
    obtain rfl := Except.ok.inj ((Module.migrate_eq hm settings rules).symm.trans h)
    exact applyEdits_spliced (Diagnostic.suggestions_apart (Module.sound_alone hm settings rules)
      (Module.apart_alone hm settings rules))

namespace Command

variable {write : Writer} {t : FileTree} {r : Request} {settings : Settings} {path : Path}
  {w : Write} {raw : String} {result : MigrationResult} {bytes : List UInt8}

theorem eq_of_readText {code : String} (h : t.readText path = .ok code)
    (hb : t.bytesAt? (t.plain path) = some bytes) (hd : Utf8.decode bytes = .ok raw) :
    code.toList = Text.unifyNewlines raw.toList := by
  unfold FileTree.readText FileTree.readBytes at h
  cases hl : t.locate path with
  | error e =>
    rw [hl] at h
    cases h
  | ok names =>
    obtain rfl := FileTree.eq_plain_of_locate hl
    simp only [hl, hb, bind, Except.bind, pure, Except.pure, hd] at h
    rw [← Except.ok.inj h, String.toList_ofList]

/-- The new text of a file is its old text, with all ends of lines unified, and the edits made. -/
theorem spliced_of_migrateFile (h : (migrateFile settings t path).2 = .ok result)
    (hedits : result.suggestions ≠ []) (hb : t.bytesAt? (t.plain path) = some bytes)
    (hd : Utf8.decode bytes = .ok raw) :
    Spliced 0 (Text.unifyNewlines raw.toList) (result.suggestions.map (·.edit))
      result.code.toList := by
  unfold migrateFile at h
  split at h
  · obtain rfl := Except.ok.inj h
    exact absurd rfl hedits
  next code hread =>
  split at h
  · cases h
  next m hm =>
  obtain rfl := Except.ok.inj h
  exact eq_of_readText hread hb hd ▸ spliced_of_migrate hm

/-! ### A run in place -/

namespace Request

/-- A file of a request that has suggestions, with the bytes and the text that it had, and whose new text
was written into itself. -/
structure Rewrites (write : Writer) (t : FileTree) (r : Request) (name : String)
    (result : MigrationResult) (bytes : List UInt8) (raw : String) : Prop where
  finds : r.Finds t name result
  edits : result.suggestions ≠ []
  held : t.bytesAt? (t.plain (sourcePath t r.path name)) = some bytes
  reads : Utf8.decode bytes = .ok raw
  written : (⟨sourcePath t r.path name, sourcePath t r.path name, result.code⟩, .ok ()) ∈
    r.attempts write t

/-- Behind a run every file that it has rewritten has the bytes that it had, but for those in the ranges
of the suggestions, which are replaced. -/
def KeepsBytes (write : Writer) (t : FileTree) (r : Request) : Prop :=
  ∀ name result bytes raw, r.Rewrites write t name result bytes raw →
    (Utf8.cells raw).flatten = bytes ∧
      (r.runWith write t).tree.bytesAt? (t.plain (sourcePath t r.path name)) =
        some (Edit.patch Utf8.encode 0 (result.suggestions.map (·.edit)) (Utf8.cells raw)).flatten

theorem placeFault?_inPlace (t : FileTree) (r : Request) (results : Results) :
    placeFault? t r .inPlace results = none :=
  placeFault?_eq_none_iff.2 fun _ _ _ => rfl

/-- What is written into the files themselves is there behind the run. -/
theorem bytesAt?_inPlace (hs : Stores write) (ht : t.WellNamed)
    (htask : r.task = .fix .inPlace false) (hw : (w, .ok ()) ∈ r.attempts write t) :
    (r.runWith write t).tree.bytesAt? (t.plain w.target) = some (Utf8.encode w.code) := by
  obtain ⟨-, -, -, -, ⟨results, h, -⟩, -⟩ := finds_of_attempt hw
  have hplace := placeFault?_inPlace t r results
  have htree : (r.runWith write t).tree =
      (carryOut write t (writes t r.path .inPlace results)).tree := by
    rw [runWith_of_analyse write h, conclude, htask]
    dsimp only
    rw [fixFiles_write hplace]
    split <;> rfl
  rw [attempts_of_fix write htask h hplace] at hw
  rw [htree]
  exact bytesAt?_carryOut hs
    (nodup_targets_writes ((analysed_of_analyse h).nodup_targets ht .inPlace)) hw

/-- A run in place keeps the bytes outside the ranges of its suggestions just where no carriage return is
outside of them. -/
theorem keepsBytes_iff (hs : Stores write) (ht : t.WellNamed)
    (htask : r.task = .fix .inPlace false) : r.KeepsBytes write t ↔
      ∀ name result bytes raw, r.Rewrites write t name result bytes raw →
        ∀ cell ∈ Edit.kept 0 (result.suggestions.map (·.edit)) (Text.cells raw.toList),
          '\r' ∉ cell := by
  refine forall₄_congr fun name result bytes raw => forall_congr' fun h => ?_
  obtain ⟨results, hresults, hmem⟩ := h.finds
  obtain ⟨settings, hfile⟩ := (analysed_of_analyse hresults).exists_migrateFile ht hmem
  have hspliced := spliced_of_migrateFile hfile h.edits h.held h.reads
  have hcells : (Utf8.cells raw).flatten = bytes := by
    rw [Utf8.flatten_cells, Utf8.encode_of_decode h.reads]
  rw [bytesAt?_inPlace hs ht htask h.written, Option.some.injEq, and_iff_right hcells]
  exact Utf8.encode_eq_patch_cells_iff hspliced

/-- A tree of one source file. -/
def sourceTree (code : String) : FileTree where
  entries := [(["a.rs"], .file (Utf8.encode code))]

/-- Fixes that file in place. -/
def fixSource : Request where
  task := .fix .inPlace false
  path := { parts := ["a.rs"] }

theorem rewrites_fixSource {code : String} {result : MigrationResult}
    (h : (analyse (sourceTree code) fixSource).2 = .ok (some [("a.rs", result)]))
    (hedits : result.suggestions ≠ [])
    (hheld : (sourceTree code).bytesAt?
      ((sourceTree code).plain (sourcePath (sourceTree code) fixSource.path "a.rs")) =
        some (Utf8.encode code))
    (hreads : Utf8.decode (Utf8.encode code) = .ok code)
    (hwritten : (⟨sourcePath (sourceTree code) fixSource.path "a.rs",
        sourcePath (sourceTree code) fixSource.path "a.rs", result.code⟩, .ok ()) ∈
      Command.attempts FileTree.writeText (sourceTree code)
        (writes (sourceTree code) fixSource.path .inPlace [("a.rs", result)])) :
    fixSource.Rewrites FileTree.writeText (sourceTree code) "a.rs" result (Utf8.encode code) code where
  finds := ⟨_, h, List.mem_singleton_self _⟩
  edits := hedits
  held := hheld
  reads := hreads
  written := by rwa [attempts_of_fix FileTree.writeText rfl h (placeFault?_inPlace _ _ _)]

/-- A closure of two lines. -/
def closureOfLines : String := "fn f(c: ChannelId) \x7b c.send_message(|m| m\r\n.nonce(1)); \x7d"

def closureOfLinesFixed : MigrationResult where
  code := "fn f(c: ChannelId) { c.send_message(CreateMessage::new().nonce(1)); }"
  diagnostics := [
    { level := .warning, message := breakingMessage, file := "a.rs", line := 1, column := 37
      start := 36, stop := 51, notes := []
      suggestion := some
        { edit := ⟨36, 51, "CreateMessage::new().nonce(1)"⟩, applicability := .machineApplicable } }]

/-- A carriage return in the range of a suggestion goes with it. -/
theorem keepsBytes_iff_closureOfLines : (sourceTree closureOfLines).WellNamed ∧
    fixSource.task = .fix .inPlace false ∧
    fixSource.Rewrites FileTree.writeText (sourceTree closureOfLines) "a.rs" closureOfLinesFixed
      (Utf8.encode closureOfLines) closureOfLines ∧
    fixSource.KeepsBytes FileTree.writeText (sourceTree closureOfLines) := by
  have hnamed : (sourceTree closureOfLines).WellNamed := by decide +kernel
  have hanalyse : (analyse (sourceTree closureOfLines) fixSource).2 =
      .ok (some [("a.rs", closureOfLinesFixed)]) := by decide +kernel
  have hkept : ∀ cell ∈ Edit.kept 0 (closureOfLinesFixed.suggestions.map (·.edit))
      (Text.cells closureOfLines.toList), '\r' ∉ cell := by decide +kernel
  have hrewrites := rewrites_fixSource hanalyse (by decide) (by decide +kernel) (by decide +kernel)
    (by decide +kernel)
  refine ⟨hnamed, rfl, hrewrites, (keepsBytes_iff stores_writeText hnamed rfl).2 ?_⟩
  intro name result bytes raw h
  obtain ⟨rfl, rfl⟩ := Prod.mk.inj (List.mem_singleton.1 (h.finds.mem hanalyse))
  obtain rfl := Option.some.inj (hrewrites.held.symm.trans h.held)
  obtain rfl := Except.ok.inj (hrewrites.reads.symm.trans h.reads)
  exact hkept

/-- A line that ends in a carriage return and a newline, and a closure behind it. -/
def closureBehindLine : String :=
  "fn a() {}\r\nfn f(c: ChannelId) { c.send_message(|m| m.nonce(1)); }"

def closureBehindLineFixed : MigrationResult where
  code := "fn a() {}\nfn f(c: ChannelId) { c.send_message(CreateMessage::new().nonce(1)); }"
  diagnostics := [
    { level := .warning, message := breakingMessage, file := "a.rs", line := 2, column := 37
      start := 46, stop := 60, notes := []
      suggestion := some
        { edit := ⟨46, 60, "CreateMessage::new().nonce(1)"⟩, applicability := .machineApplicable } }]

/-- The carriage return in front of the closure is lost. -/
theorem not_keepsBytes : Stores FileTree.writeText ∧ (sourceTree closureBehindLine).WellNamed ∧
    fixSource.task = .fix .inPlace false ∧
    ¬ fixSource.KeepsBytes FileTree.writeText (sourceTree closureBehindLine) := by
  have hnamed : (sourceTree closureBehindLine).WellNamed := by decide +kernel
  have hanalyse : (analyse (sourceTree closureBehindLine) fixSource).2 =
      .ok (some [("a.rs", closureBehindLineFixed)]) := by decide +kernel
  have hrewrites := rewrites_fixSource hanalyse (by decide) (by decide +kernel) (by decide +kernel)
    (by decide +kernel)
  refine ⟨stores_writeText, hnamed, rfl, fun h => ?_⟩
  obtain ⟨-, hbytes⟩ := h _ _ _ _ hrewrites
  rw [bytesAt?_inPlace stores_writeText hnamed rfl hrewrites.written] at hbytes
  revert hbytes
  decide +kernel

end Request

end Command

end BuilderMigration
