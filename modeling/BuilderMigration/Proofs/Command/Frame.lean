import BuilderMigration.Proofs.Command.Results
import BuilderMigration.Proofs.Command.Writes

/-! What a whole run does to the files: a check or a dry run leaves all of them alone, and a fix puts the
new texts into the places that are meant for them, each whether or not the others could be read or
written. The exit code tells whether anything failed. All of this holds just if the run does not end
early over a path that cannot be asked for. -/

namespace BuilderMigration.Command

variable {write : Writer} {t : FileTree} {r : Request} {place : Destination} {dryRun : Bool}
  {results : Results} {name : String} {result : MigrationResult} {w : Write}

/-! ### Fixing without a fault -/

/-- Why no text of these outcomes has a place. -/
def placeFault? (t : FileTree) (r : Request) (place : Destination) (results : Results) :
    Option Abort :=
  if results.any (·.2.success) then destinationFault? t r.path place else none

theorem placeFault?_eq_none_iff : placeFault? t r place results = none ↔
    ∀ entry ∈ results, entry.2.success = true → destinationFault? t r.path place = none := by
  unfold placeFault?
  split
  · next h =>
    obtain ⟨entry, he, hs⟩ := List.any_eq_true.1 h
    exact ⟨fun h _ _ _ => h, fun h => h entry he hs⟩
  · next h =>
    refine iff_of_true rfl fun entry he hs => absurd ?_ h
    exact List.any_eq_true.2 ⟨entry, he, hs⟩

theorem fixFiles_write (h : placeFault? t r place results = none) :
    fixFiles write t r results place false = carryOut write t (writes t r.path place results) := by
  rw [placeFault?] at h
  rw [fixFiles, h]
  rfl

theorem runWith_eq (write : Writer) (t : FileTree) (r : Request) :
    r.runWith write t = match (analyse t r).2 with
      | .error e => ⟨(analyse t r).1, t, .error e⟩
      | .ok none => ⟨(analyse t r).1, t, .ok 1⟩
      | .ok (some results) =>
        { conclude write t r results with
          events := (analyse t r).1 ++ (conclude write t r results).events } := by
  unfold Request.runWith
  rcases analyse t r with ⟨events, e | _ | results⟩ <;> rfl

theorem runWith_of_analyse (write : Writer) (h : (analyse t r).2 = .ok (some results)) :
    r.runWith write t =
      { conclude write t r results with
        events := (analyse t r).1 ++ (conclude write t r results).events } := by
  rw [runWith_eq, h]

/-! ### What a run amounts to -/

namespace Request

/-- An outcome of the analysis. -/
def Finds (t : FileTree) (r : Request) (name : String) (result : MigrationResult) : Prop :=
  ∃ results, (analyse t r).2 = .ok (some results) ∧ (name, result) ∈ results

/-- The writes that a request tries. -/
def attempts (write : Writer) (t : FileTree) (r : Request) : List Attempt :=
  match r.task, (analyse t r).2 with
  | .fix place false, .ok (some results) =>
    if (placeFault? t r place results).isNone then
      Command.attempts write t (writes t r.path place results)
    else []
  | _, _ => []

/-- What a run tells by its exit code. -/
inductive Fails (write : Writer) (t : FileTree) (r : Request) : Prop where
  | missing (h : t.exists? r.path = false)
  | failed {name : String} {result : MigrationResult} (h : r.Finds t name result)
    (hs : result.success = false)
  | pending {name : String} {result : MigrationResult} (hc : r.task = .check)
    (h : r.Finds t name result) (hd : result.diagnostics ≠ [])
  | unwritten {w : Write} {e : FileError} (h : (w, .error e) ∈ r.attempts write t)

/-- Nothing that a run asks of its paths is refused outright. -/
structure Feasible (write : Writer) (t : FileTree) (r : Request) : Prop where
  path : t.isOverlong r.path = false
  sources : ∀ e, (analyse t r).2 ≠ .error (.sources e)
  place : ∀ place dryRun name result, r.task = .fix place dryRun → r.Finds t name result →
    result.success = true → destinationFault? t r.path place = none
  target : ∀ w, (w, .error .nullCharacter) ∉ r.attempts write t

theorem attempts_of_fix (write : Writer) (htask : r.task = .fix place false)
    (h : (analyse t r).2 = .ok (some results)) (hplace : placeFault? t r place results = none) :
    r.attempts write t = Command.attempts write t (writes t r.path place results) := by
  rw [attempts, htask, h]
  dsimp only
  rw [hplace]
  rfl

theorem attempts_of_check (htask : r.task = .check) : r.attempts write t = [] := by
  rw [attempts, htask]

theorem attempts_of_dryRun (htask : r.task = .fix place true) : r.attempts write t = [] := by
  rw [attempts, htask]

theorem Finds.mem (hfinds : r.Finds t name result) (h : (analyse t r).2 = .ok (some results)) :
    (name, result) ∈ results := by
  obtain ⟨results', h', hmem⟩ := hfinds
  rw [h] at h'
  obtain rfl := Option.some.inj (Except.ok.inj h')
  exact hmem

/-- What is tried is the text of an outcome. -/
theorem finds_of_attempt {outcome : Except FileError Unit} (hw : (w, outcome) ∈ r.attempts write t) :
    ∃ place name result, r.task = .fix place false ∧ r.Finds t name result ∧
      write? t r.path place name result = some w := by
  unfold attempts at hw
  split at hw
  · next place results htask hresults =>
    split at hw
    · have hmem := (map_attempts_initial write t _).subset (List.mem_map_of_mem hw)
      obtain ⟨entry, he, hentry⟩ := mem_writes_iff.1 hmem
      exact ⟨place, entry.1, entry.2, htask, ⟨results, hresults, he⟩, hentry⟩
    · cases hw
  · cases hw

/-- The ways that a run takes when it does not end early. -/
inductive Course (write : Writer) (t : FileTree) (r : Request) : Prop where
  | missing (h : (analyse t r).2 = .ok none) (hrun : r.runWith write t = ⟨(analyse t r).1, t, .ok 1⟩)
    (htried : r.attempts write t = [])
  | checked {results : Results} {report : List Event} (htask : r.task = .check)
    (h : (analyse t r).2 = .ok (some results))
    (hrun : r.runWith write t = ⟨(analyse t r).1 ++ report, t, .ok (checkStatus results)⟩)
  | shown {place : Destination} {results : Results} {report : List Event}
    (htask : r.task = .fix place true) (h : (analyse t r).2 = .ok (some results))
    (hrun : r.runWith write t = ⟨(analyse t r).1 ++ report, t, .ok (fixStatus true results)⟩)
  | wrote {place : Destination} {results : Results} {report : List Event}
    (htask : r.task = .fix place false) (h : (analyse t r).2 = .ok (some results))
    (htried : r.attempts write t = Command.attempts write t (writes t r.path place results))
    (hrun : r.runWith write t =
      let done := carryOut write t (writes t r.path place results)
      ⟨(analyse t r).1 ++ (done.events ++ report), done.tree, .ok (fixStatus done.complete results)⟩)

theorem checkStatus_cases (results : Results) :
    checkStatus results = 1 ∧ (∃ entry ∈ results, entry.2.isClean = false) ∨
      checkStatus results = 0 ∧ ¬ ∃ entry ∈ results, entry.2.isClean = false := by
  unfold checkStatus
  split
  · next hall => exact .inr ⟨rfl, by simpa using hall⟩
  · next hall => exact .inl ⟨rfl, by simpa using hall⟩

theorem fixStatus_cases (complete : Bool) (results : Results) :
    fixStatus complete results = 1 ∧
        (complete = false ∨ ∃ entry ∈ results, entry.2.success = false) ∨
      fixStatus complete results = 0 ∧
        ¬ (complete = false ∨ ∃ entry ∈ results, entry.2.success = false) := by
  unfold fixStatus
  split
  · next hall => exact .inr ⟨rfl, by simpa using hall⟩
  · next hall =>
    refine .inl ⟨rfl, ?_⟩
    cases complete with
    | false => exact .inl rfl
    | true => exact .inr (by simpa using hall)

theorem fails_check_iff (htask : r.task = .check) (h : (analyse t r).2 = .ok (some results)) :
    r.Fails write t ↔ ∃ entry ∈ results, entry.2.isClean = false := by
  constructor
  · rintro (hmissing | ⟨hfinds, hs⟩ | ⟨-, hfinds, hd⟩ | hw)
    · rw [(analysed_of_analyse h).there] at hmissing
      cases hmissing
    · exact ⟨_, hfinds.mem h, by simp [MigrationResult.isClean, hs]⟩
    · exact ⟨_, hfinds.mem h, by simp [MigrationResult.isClean, MigrationResult.pending, hd]⟩
    · rw [attempts_of_check htask] at hw
      cases hw
  · rintro ⟨entry, he, hclean⟩
    rw [MigrationResult.isClean, Bool.and_eq_false_iff] at hclean
    obtain hs | hd := hclean
    · exact .failed ⟨results, h, he⟩ hs
    · exact .pending htask ⟨results, h, he⟩ (by simpa [MigrationResult.pending] using hd)

theorem fails_fix_iff (htask : r.task = .fix place dryRun)
    (h : (analyse t r).2 = .ok (some results)) :
    r.Fails write t ↔ (¬ ∀ a ∈ r.attempts write t, a.2 = .ok ()) ∨
      ∃ entry ∈ results, entry.2.success = false := by
  constructor
  · rintro (hmissing | ⟨hfinds, hs⟩ | ⟨hcheck, -, -⟩ | hw)
    · rw [(analysed_of_analyse h).there] at hmissing
      cases hmissing
    · exact .inr ⟨_, hfinds.mem h, hs⟩
    · rw [htask] at hcheck
      cases hcheck
    · exact .inl fun hall => nomatch hall _ hw
  · rintro (hne | ⟨entry, he, hs⟩)
    · push Not at hne
      obtain ⟨⟨w, outcome⟩, ha, hne⟩ := hne
      cases outcome with
      | error e => exact .unwritten ha
      | ok _ => exact absurd rfl hne
    · exact .failed ⟨results, h, he⟩ hs

/-! ### What every way of running keeps to -/

namespace Course

theorem events (hc : r.Course write t) : ∃ report, (r.runWith write t).events =
    (analyse t r).1 ++ (r.attempts write t).filterMap Attempt.event? ++ report := by
  cases hc with
  | missing h hrun htried => exact ⟨[], by rw [hrun, htried]; simp⟩
  | checked htask h hrun => exact ⟨_, by rw [hrun, attempts_of_check htask]; simp; rfl⟩
  | shown htask h hrun => exact ⟨_, by rw [hrun, attempts_of_dryRun htask]; simp; rfl⟩
  | wrote htask h htried hrun =>
    exact ⟨_, by rw [hrun, htried, ← events_carryOut, List.append_assoc]⟩

theorem status (hc : r.Course write t) (hf : r.Feasible write t) :
    (r.runWith write t).status = .ok 1 ∧ r.Fails write t ∨
      (r.runWith write t).status = .ok 0 ∧ ¬ r.Fails write t := by
  cases hc with
  | missing h hrun htried => exact .inl ⟨by rw [hrun], .missing (missing_of_analyse h).2⟩
  | checked htask h hrun =>
    rw [hrun, fails_check_iff htask h]
    simpa using checkStatus_cases _
  | @shown place results report htask h hrun =>
    rw [hrun, fails_fix_iff htask h]
    simpa [attempts_of_dryRun htask] using fixStatus_cases true results
  | @wrote place results report htask h htried hrun =>
    have hfault : (carryOut write t (writes t r.path place results)).fault = none := by
      rw [fault_carryOut, ← htried]
      exact hf.target
    have hcomplete := complete_carryOut write t _ hfault
    rw [← htried] at hcomplete
    rw [hrun, fails_fix_iff htask h, ← hcomplete]
    simpa using fixStatus_cases (carryOut write t (writes t r.path place results)).complete results

end Course

end Request

end BuilderMigration.Command
