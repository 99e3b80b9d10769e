import BuilderMigration.Proofs.Rewrite.Outcome
import Mathlib.Data.List.Count
import Mathlib.Data.List.Nodup

/-! The general form of a closure without statements: of each required field the constructor takes what
the last call sets, and all other calls stay behind it in their order. -/

namespace BuilderMigration

open Rewrite

/-- The last call of a name. -/
def Chain.last? {α : Type} (c : Chain α) (field : String) : Option (Call α) :=
  c.calls.reverse.find? (·.field = field)

namespace Workshop

variable {w : Workshop} {k : Int} {call : ReadyCall} {calls : List ReadyCall}

/-! ### Calls -/

/-- The arguments of a call as they are written in a context. -/
def textOf (w : Workshop) (k : Int) (call : ReadyCall) : String := (w.argList call.args).value k

/-- The notes that are taken on the arguments of a call. -/
def notesOf (w : Workshop) (k : Int) (call : ReadyCall) : List Note := (w.argList call.args).noted k

/-- A setter on the line or on one of its own. -/
def setterText (w : Workshop) (k : Int) (call : ReadyCall) : String :=
  (if w.settings.multiline then "\n" else "") ++ ("." ++ call.field ++ "(" ++ w.textOf k call ++ ")")

theorem comesTo_argList (h : ∀ a ∈ call.args, a.Determined) :
    ComesTo k (w.argList call.args) (.ok (w.textOf k call)) (w.notesOf k call) :=
  (determined_argList h).comesTo (w.total_argList call.args) k

theorem comesTo_dotCall (h : ∀ a ∈ call.args, a.Determined) :
    ComesTo k (w.dotCall call) (.ok ("." ++ call.field ++ "(" ++ w.textOf k call ++ ")"))
      (w.notesOf k call) :=
  (comesTo_argList h).bind_pure fun text => "." ++ call.field ++ "(" ++ text ++ ")"

theorem comesTo_setters (h : Determinate calls) :
    ComesTo k (w.setters calls) (.ok (String.join (calls.map (w.setterText k))))
      (calls.flatMap (w.notesOf k)) := by
  have hcalls := (ComesTo.mapM fun call hcall =>
    comesTo_dotCall (w := w) (k := k) (h call hcall)).bind_pure fun texts =>
      String.join (if w.settings.multiline then texts.map ("\n" ++ ·) else texts)
  have htexts : calls.map (w.setterText k) =
      let texts := calls.map fun call => "." ++ call.field ++ "(" ++ w.textOf k call ++ ")"
      if w.settings.multiline then texts.map ("\n" ++ ·) else texts := by
    cases hm : w.settings.multiline <;> simp [setterText, hm]
  rw [htexts]
  exact hcalls

/-! ### The constructor -/

/-- The note on a required field. -/
def missingNote (builder : String) (span : Option Span) (field : String) : Note :=
  ⟨missingField builder field, span⟩

theorem comesTo_divide (required : List String) (h : Determinate calls) :
    ComesTo k (w.divide required calls)
      (.ok ((calls.filter (required.contains ·.field)).map fun call => (call.field, w.textOf k call),
        calls.filter fun call => !required.contains call.field))
      ((calls.filter (required.contains ·.field)).flatMap (w.notesOf k)) := by
  induction calls with
  | nil => exact .pure _
  | cons call calls ih =>
    obtain ⟨hcall, hcalls⟩ := List.forall_mem_cons.1 h
    rw [divide]
    cases hf : required.contains call.field with
    | true =>
      have hrest := (ih hcalls).bind_pure fun p => ((call.field, w.textOf k call) :: p.1, p.2)
      simpa only [hf, if_true, List.filter_cons, Bool.not_true, Bool.false_eq_true, if_false,
        List.map_cons, List.flatMap_cons] using (comesTo_argList hcall).bind hrest
    | false =>
      have hrest := (ih hcalls).bind_pure fun p => (p.1, call :: p.2)
      simpa only [hf, Bool.false_eq_true, if_false, List.filter_cons, Bool.not_false, if_true]
        using hrest

theorem comesTo_pick (builder : String) (span : Option Span) (found : List (String × String))
    (fields : List String) :
    ComesTo k (pick builder span found fields)
      (.ok (fields.filterMap fun field => Assoc.get? field found.reverse))
      ((fields.filter fun field => (Assoc.get? field found.reverse).isNone).map
        (missingNote builder span)) := by
  induction fields with
  | nil => exact .pure _
  | cons field fields ih =>
    rw [pick]
    cases hget : Assoc.get? field found.reverse with
    | some text =>
      simpa [hget] using ih.bind_pure (text :: ·)
    | none =>
      have hrest := (ComesTo.note (missingField builder field) span).bind (f := fun _ => _) ih
      simpa [hget, missingNote] using hrest

/-- Of what was found, the latest is what the last call sets. -/
theorem get?_found {required : List String} {field : String} (h : field ∈ required) :
    Assoc.get? field ((calls.filter (required.contains ·.field)).map fun call =>
        (call.field, w.textOf k call)).reverse =
      (calls.reverse.find? (·.field = field)).map (w.textOf k) := by
  rw [← List.map_reverse, ← List.filter_reverse]
  induction calls.reverse with
  | nil => rfl
  | cons call calls ih =>
    by_cases hf : call.field = field
    · simp [hf, h, Assoc.get?]
    · by_cases hr : call.field ∈ required
      · simpa [hf, hr, Assoc.get?] using ih
      · simpa [hf, hr] using ih

/-- What the constructor of a builder takes, and the calls behind it. -/
theorem comesTo_splitRequired (builder : String) (span : Option Span) (h : Determinate calls) :
    ComesTo k (w.splitRequired builder calls span)
      (.ok ((w.settings.required builder).filterMap fun field =>
          (calls.reverse.find? (·.field = field)).map (w.textOf k),
        calls.filter fun call => !(w.settings.required builder).contains call.field))
      ((calls.filter ((w.settings.required builder).contains ·.field)).flatMap (w.notesOf k) ++
        ((w.settings.required builder).filter fun field =>
          (calls.reverse.find? (·.field = field)).isNone).map (missingNote builder span)) := by
  unfold splitRequired
  generalize w.settings.required builder = required
  have hpick := comesTo_pick (k := k) builder span ((calls.filter (required.contains ·.field)).map
    fun call => (call.field, w.textOf k call)) required
  have hfound : (required.filterMap fun field => Assoc.get? field ((calls.filter
      (required.contains ·.field)).map fun call => (call.field, w.textOf k call)).reverse) =
      required.filterMap fun field =>
        (calls.reverse.find? (·.field = field)).map (w.textOf k) :=
    List.filterMap_congr fun field hfield => get?_found hfield
  have hmissing : (required.filter fun field => (Assoc.get? field ((calls.filter
      (required.contains ·.field)).map fun call => (call.field, w.textOf k call)).reverse).isNone) =
      required.filter fun field => (calls.reverse.find? (·.field = field)).isNone :=
    List.filter_congr fun field hfield => by rw [get?_found hfield, Option.isNone_map]
  rw [hfound, hmissing] at hpick
  exact (comesTo_divide required h).bind (hpick.bind_pure fun args =>
    (args, calls.filter fun call => !required.contains call.field))

end Workshop

/-! ### Closures -/

namespace BuilderClosure

variable (settings : Settings) (c : BuilderClosure)

/-- The calls that set what the constructor takes. -/
def requiring : List BuilderCall :=
  c.chain.calls.filter fun call => (settings.required c.builder).contains call.field

/-- The calls that stay behind the constructor. -/
def setters : List BuilderCall :=
  c.chain.calls.filter fun call => !(settings.required c.builder).contains call.field

/-- What the constructor takes and no call sets. -/
def unset : List String :=
  (settings.required c.builder).filter fun field => ∀ call ∈ c.chain.calls, call.field ≠ field

end BuilderClosure

namespace Workshop

variable (w : Workshop) (rules : Rules) (k : Int)

/-- A call with its arguments ready. -/
def readyCall (call : BuilderCall) : ReadyCall := ⟨call.field, w.readyArgs rules call.args⟩

theorem readyCalls_eq_map (calls : List BuilderCall) :
    w.readyCalls rules calls = calls.map (w.readyCall rules) := by
  induction calls with
  | nil => rfl
  | cons call calls ih => rw [readyCalls, ih, List.map_cons, readyCall]

/-- A statement with its arguments ready. -/
def readyPrelude : BuilderPrelude → Prelude Ready
  | .verbatim span => .verbatim span
  | .assignment c span => .assignment (w.readyChain rules c) span

theorem readyStmts_eq_map (stmts : List BuilderPrelude) :
    w.readyStmts rules stmts = stmts.map (w.readyPrelude rules) := by
  induction stmts with
  | nil => rfl
  | cons s stmts ih => rcases s with span | ⟨⟨receiver, base, calls⟩, span⟩ <;> rw [readyStmts, ih] <;> rfl

/-- The arguments of a call as they are written in a context. -/
def written (call : BuilderCall) : String := w.textOf k (w.readyCall rules call)

/-- The notes that are taken on them. -/
def writtenNotes (call : BuilderCall) : List Note := w.notesOf k (w.readyCall rules call)

/-- What the constructor takes: of each required field that is set at all the arguments of the last call
that sets it. -/
def constructorArgs (c : BuilderClosure) : List String :=
  (w.settings.required c.builder).filterMap fun field =>
    (c.chain.last? field).map (w.written rules k)

/-- The text of the setters. -/
def settersText (c : BuilderClosure) : String :=
  String.join ((c.setters w.settings).map fun call =>
    (if w.settings.multiline then "\n" else "") ++
      ("." ++ call.field ++ "(" ++ w.written rules k call ++ ")"))

variable {w rules k}

theorem last?_ready (calls : List BuilderCall) (field : String) :
    ((calls.map (w.readyCall rules)).reverse.find? (·.field = field)).map (w.textOf k) =
      (calls.reverse.find? (·.field = field)).map (w.written rules k) := by
  rw [← List.map_reverse, List.find?_map, Option.map_map]
  rfl

theorem calls_readyClosure (c : BuilderClosure) :
    (w.readyClosure rules c).chain.calls = c.chain.calls.map (w.readyCall rules) :=
  w.readyCalls_eq_map rules c.chain.calls

/-- What the constructor of a closure takes, and what stays behind it. -/
theorem comesTo_splitRequired_ready (c : BuilderClosure) :
    ComesTo k (w.splitRequired c.builder (w.readyClosure rules c).chain.calls (some c.span))
      (.ok (w.constructorArgs rules k c, (c.setters w.settings).map (w.readyCall rules)))
      ((c.requiring w.settings).flatMap (w.writtenNotes rules k) ++
        (c.unset w.settings).map (missingNote c.builder (some c.span))) := by
  have hcalls := (determinate_readyClosure w rules c).calls
  rw [calls_readyClosure] at hcalls ⊢
  have hsplit := comesTo_splitRequired (w := w) (k := k) c.builder (some c.span) hcalls
  have hsetters : (c.chain.calls.map (w.readyCall rules)).filter (fun call =>
        !(w.settings.required c.builder).contains call.field) =
      (c.setters w.settings).map (w.readyCall rules) := by
    rw [List.filter_map]
    rfl
  have hrequiring : (c.chain.calls.map (w.readyCall rules)).filter
        ((w.settings.required c.builder).contains ·.field) =
      (c.requiring w.settings).map (w.readyCall rules) := by
    rw [List.filter_map]
    rfl
  have hunset : (w.settings.required c.builder).filter (fun field =>
        ((c.chain.calls.map (w.readyCall rules)).reverse.find? (·.field = field)).isNone) =
      c.unset w.settings :=
    List.filter_congr fun field _ => by
      rw [Bool.eq_iff_iff]
      simp [readyCall]
  rw [hsetters, hrequiring, hunset, List.filterMap_congr fun field _ => last?_ready _ field,
    List.flatMap_map] at hsplit
  exact hsplit

theorem comesTo_setters_ready (c : BuilderClosure) :
    ComesTo k (w.setters ((c.setters w.settings).map (w.readyCall rules)))
      (.ok (w.settersText rules k c)) ((c.setters w.settings).flatMap (w.writtenNotes rules k)) := by
  have hcalls : Determinate ((c.setters w.settings).map (w.readyCall rules)) := fun call hcall => by
    obtain ⟨call, hmem, rfl⟩ := List.mem_map.1 hcall
    refine (determinate_readyClosure w rules c).calls _ ?_
    rw [calls_readyClosure]
    exact List.mem_map_of_mem (List.mem_of_mem_filter hmem)
  have hsetters := comesTo_setters (w := w) (k := k) hcalls
  rw [List.map_map, List.flatMap_map] at hsetters
  exact hsetters

/-- A closure without statements is its constructor with the setters behind it. -/
theorem comesTo_general_flat {c : BuilderClosure} (hs : c.stmts = []) (w : Workshop) (rules : Rules) :
    ComesTo k (w.general (w.readyClosure rules c))
      (.ok (construct c.builder (w.constructorArgs rules k c) ++ w.settersText rules k c))
      ((c.requiring w.settings).flatMap (w.writtenNotes rules k) ++
        (c.unset w.settings).map (missingNote c.builder (some c.span)) ++
        (c.setters w.settings).flatMap (w.writtenNotes rules k)) := by
  have hstmts : (w.readyClosure rules c).stmts = [] := by rw [readyClosure, hs]; rfl
  unfold general
  rw [hstmts]
  exact (comesTo_splitRequired_ready c).bind ((comesTo_setters_ready c).bind_pure _)

/-- A statement of a closure as it is written in a context. -/
def lineOf (w : Workshop) (k : Int) (s : Prelude Ready) : String := (w.prelude s).value k

theorem comesTo_preludes (w : Workshop) (rules : Rules) (c : BuilderClosure) (k : Int) :
    ComesTo k ((w.readyClosure rules c).stmts.mapM w.prelude)
      (.ok ((w.readyClosure rules c).stmts.map (w.lineOf k)))
      ((w.readyClosure rules c).stmts.flatMap fun s => (w.prelude s).noted k) :=
  .mapM fun s hs => (determined_prelude fun chain span he =>
    (determinate_readyClosure w rules c).stmts chain span (he ▸ hs)).comesTo (w.total_prelude s) k

/-- A closure with statements is a block: the binding, a line for each statement, and the binding again
with the setters behind it. -/
theorem comesTo_general_block {c : BuilderClosure} (hs : c.stmts ≠ []) (w : Workshop) (rules : Rules) :
    ComesTo k (w.general (w.readyClosure rules c))
      (.ok (String.intercalate "\n"
        (["\x7b", "let mut " ++ c.binding ++ " = " ++
          construct c.builder (w.constructorArgs rules k c) ++ ";"] ++
            (w.readyClosure rules c).stmts.map (w.lineOf k) ++
              [c.binding ++ w.settersText rules k c, "\x7d"])))
      ((c.requiring w.settings).flatMap (w.writtenNotes rules k) ++
        (c.unset w.settings).map (missingNote c.builder (some c.span)) ++
        (((w.readyClosure rules c).stmts.flatMap fun s => (w.prelude s).noted k) ++
          (c.setters w.settings).flatMap (w.writtenNotes rules k))) := by
  have hlines := comesTo_preludes w rules c k
  have hstmts : (w.readyClosure rules c).stmts ≠ [] := by
    rw [readyClosure]
    cases hc : c.stmts with
    | nil => exact (hs hc).elim
    | cons s stmts => rcases s with _ | ⟨⟨⟩, _⟩ <;> simp [readyStmts]
  unfold general
  split
  · next hnil => exact (hstmts hnil).elim
  · exact (comesTo_splitRequired_ready c).bind
      (hlines.bind ((comesTo_setters_ready c).bind_pure _))

/-- A closure whose builder has no rule is rewritten in the general form, from its own context. -/
theorem comesTo_rewriteClosure {c : BuilderClosure} {r : Except Violation String} {ns : List Note}
    (hrule : rules.find? c.builder = none)
    (h : ComesTo c.span.ctxt (w.general (w.readyClosure rules c)) r ns) :
    ComesTo k (w.rewriteClosure rules c) r ns := by
  have hb : (w.readyClosure rules c).builder = c.builder := rfl
  unfold rewriteClosure closure
  rw [hb, hrule]
  exact (ComesTo.consult.bind h).within

theorem missingNote_injective (builder : String) (span : Option Span) :
    Function.Injective (missingNote builder span) := by
  intro a b h
  have hmessage := congrArg Note.message h
  simpa [missingNote, missingField, String.append_right_inj, String.append_left_inj] using hmessage

/-- In the general form of a closure without statements the constructor takes, in the order in which it
requires them and of those that are set, the fields as the last call of each sets them. All other calls
stay behind it in their order. Besides the notes on arguments there is one on each required field that
no call sets. So the text does not depend on where the calls for required fields stand. -/
theorem general_constructor (w : Workshop) (rules : Rules) (c : BuilderClosure) (k : Int)
    (hrequired : (w.settings.required c.builder).Nodup) (hs : c.stmts = []) :
    ComesTo k (w.general (w.readyClosure rules c))
      (.ok (c.builder ++ "::new(" ++ String.intercalate ", " (w.constructorArgs rules k c) ++ ")" ++
        w.settersText rules k c))
      ((c.requiring w.settings).flatMap (w.writtenNotes rules k) ++
        (c.unset w.settings).map (missingNote c.builder (some c.span)) ++
        (c.setters w.settings).flatMap (w.writtenNotes rules k)) ∧
    (∀ field, ((c.unset w.settings).map (missingNote c.builder (some c.span))).count
        (missingNote c.builder (some c.span) field) =
      if field ∈ w.settings.required c.builder ∧ ∀ call ∈ c.chain.calls, call.field ≠ field
      then 1 else 0) ∧
    ∀ c' : BuilderClosure, c'.builder = c.builder → c'.stmts = [] →
      c'.setters w.settings = c.setters w.settings →
      (∀ field ∈ w.settings.required c.builder, c'.chain.last? field = c.chain.last? field) →
      ∀ d d' : Draft, d.ctxt = k → d'.ctxt = k →
        (w.general (w.readyClosure rules c') d').1 = (w.general (w.readyClosure rules c) d).1 := by
  have hcomes {c : BuilderClosure} (hs : c.stmts = []) := comesTo_general_flat (k := k) hs w rules
  refine ⟨hcomes hs, fun field => ?_, fun c' hb hs' hsetters hlast d d' hd hd' => ?_⟩
  · have hunset : (c.unset w.settings).Nodup := hrequired.filter _
    rw [List.count_map_of_injective _ _ (missingNote_injective _ _), hunset.count]
    simp [BuilderClosure.unset]
  · obtain ⟨_, hc⟩ := hcomes hs d hd
    obtain ⟨_, hc'⟩ := hcomes hs' d' hd'
    have hargs : w.constructorArgs rules k c' = w.constructorArgs rules k c := by
      rw [constructorArgs, hb]
      exact List.filterMap_congr fun field hfield => by rw [hlast field hfield]
    rw [hc, hc', hargs, settersText, hsetters, hb, settersText]

/-- The text that the values of an option are copied from. -/
def optionWorkshop : Workshop := ⟨(SourceMap.add {} "option.rs" "b u a").2, {}⟩

/-- An option that is given calls with one copied letter each. -/
def optionClosure (calls : List (String × Int)) : BuilderClosure where
  builder := "CreateSelectMenuOption"
  binding := "o"
  stmts := []
  chain := ⟨"o", none, calls.map fun (field, lo) => ⟨field, [.literal ⟨lo, lo + 1, 0⟩ none]⟩⟩
  span := ⟨1, 6, 0⟩

/-- A value that is set twice, in front of a setter and behind it, and a label that is never set. -/
theorem general_constructor_option :
    let c := optionClosure [("value", 1), ("description", 3), ("value", 5)]
    let c' := optionClosure [("value", 5), ("description", 3)]
    (optionWorkshop.settings.required c.builder).Nodup ∧ c.stmts = [] ∧ c'.stmts = [] ∧
    ComesTo 0 (optionWorkshop.general (optionWorkshop.readyClosure {} c))
      (.ok "CreateSelectMenuOption::new(a).description(u)")
      [missingNote "CreateSelectMenuOption" (some ⟨1, 6, 0⟩) "label"] ∧
    (optionWorkshop.general (optionWorkshop.readyClosure {} c') {}).1 =
      (optionWorkshop.general (optionWorkshop.readyClosure {} c) {}).1 := by
  intro c c'
  have hrequired : (optionWorkshop.settings.required c.builder).Nodup := by decide
  obtain ⟨hcomes, -, hsame⟩ := general_constructor optionWorkshop {} c 0 hrequired rfl
  refine ⟨hrequired, rfl, rfl, ?_, hsame c' rfl rfl rfl ?_ {} {} rfl rfl⟩
  · convert hcomes using 2
    · decide +kernel
    · decide +kernel
  · have hfields : optionWorkshop.settings.required c.builder = ["label", "value"] := by decide
    rw [hfields]
    simp [c, c', optionClosure, Chain.last?]

end Workshop

end BuilderMigration
