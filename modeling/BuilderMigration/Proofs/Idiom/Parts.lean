import BuilderMigration.Proofs.Rewrite.Moved

/-! The parts of a recognised builder: texts that its replacement copies, and closures and statements
that it writes anew. A rewrite depends on the sources by the texts of the parts alone, and, unless it
takes a note, by the copied ones alone. All else that it writes are names that it knows. -/

namespace BuilderMigration

/-- What becomes of a piece of text within a builder. -/
inductive Part where
  | copied (span : Span)
  | rewritten (span : Span)
  deriving DecidableEq

def Part.span : Part → Span
  | copied span | rewritten span => span

mutual

/-- The parts of an argument. -/
def Arg.parts : Arg → List Part
  | .literal span _ => [.copied span]
  | .closure ⟨_, _, stmts, ⟨_, _, calls⟩, span⟩ =>
    .rewritten span :: (partsOfStmts stmts ++ partsOfCalls calls)

def partsOfArgs : List Arg → List Part
  | [] => []
  | a :: as => a.parts ++ partsOfArgs as

def partsOfCalls : List BuilderCall → List Part
  | [] => []
  | ⟨_, args⟩ :: calls => partsOfArgs args ++ partsOfCalls calls

def partsOfStmts : List BuilderPrelude → List Part
  | [] => []
  | .verbatim span :: stmts => .copied span :: partsOfStmts stmts
  | .assignment ⟨_, _, calls⟩ span :: stmts =>
    .rewritten span :: (partsOfCalls calls ++ partsOfStmts stmts)

end

/-- The parts of a closure. -/
def BuilderClosure.parts (c : BuilderClosure) : List Part := Arg.parts (.closure c)

/-- The parts of a chain. -/
def BuilderChain.parts (c : BuilderChain) : List Part := partsOfCalls c.calls

/-! ### Names -/

mutual

/-- The names that an argument is written with. -/
def Arg.names : Arg → List String
  | .literal _ _ => []
  | .closure ⟨builder, binding, stmts, ⟨_, _, calls⟩, _⟩ =>
    builder :: binding :: (namesOfStmts stmts ++ namesOfCalls calls)

def namesOfArgs : List Arg → List String
  | [] => []
  | a :: as => a.names ++ namesOfArgs as

def namesOfCalls : List BuilderCall → List String
  | [] => []
  | ⟨field, args⟩ :: calls => field :: (namesOfArgs args ++ namesOfCalls calls)

def namesOfStmts : List BuilderPrelude → List String
  | [] => []
  | .verbatim _ :: stmts => namesOfStmts stmts
  | .assignment ⟨receiver, _, calls⟩ _ :: stmts =>
    receiver :: (namesOfCalls calls ++ namesOfStmts stmts)

end

/-- The names that the text for a closure is written with. -/
def BuilderClosure.names (c : BuilderClosure) : List String := Arg.names (.closure c)

/-- The names that the text for a chain is written with. -/
def BuilderChain.names (c : BuilderChain) : List String := c.receiver :: namesOfCalls c.calls

/-! ### Moved spans -/

mutual

/-- An argument with its spans moved. -/
def Arg.mapSpans (f : Span → Span) : Arg → Arg
  | .literal span path => .literal (f span) path
  | .closure ⟨builder, binding, stmts, ⟨receiver, base, calls⟩, span⟩ =>
    .closure ⟨builder, binding, mapPreludeSpans f stmts, ⟨receiver, base, mapCallSpans f calls⟩, f span⟩

def mapArgSpans (f : Span → Span) : List Arg → List Arg
  | [] => []
  | a :: as => a.mapSpans f :: mapArgSpans f as

def mapCallSpans (f : Span → Span) : List BuilderCall → List BuilderCall
  | [] => []
  | ⟨field, args⟩ :: calls => ⟨field, mapArgSpans f args⟩ :: mapCallSpans f calls

def mapPreludeSpans (f : Span → Span) : List BuilderPrelude → List BuilderPrelude
  | [] => []
  | .verbatim span :: stmts => .verbatim (f span) :: mapPreludeSpans f stmts
  | .assignment ⟨receiver, base, calls⟩ span :: stmts =>
    .assignment ⟨receiver, base, mapCallSpans f calls⟩ (f span) :: mapPreludeSpans f stmts

end

/-- A chain with its spans moved. -/
def BuilderChain.mapSpans (f : Span → Span) (c : BuilderChain) : BuilderChain :=
  { c with calls := mapCallSpans f c.calls }

/-- A closure with its spans moved. -/
def BuilderClosure.mapSpans (f : Span → Span) (c : BuilderClosure) : BuilderClosure :=
  ⟨c.builder, c.binding, mapPreludeSpans f c.stmts, BuilderChain.mapSpans f c.chain, f c.span⟩

/-! ### Rewrites in parallel -/

namespace Parallel

open Rewrite

variable {w w' : Workshop} {P : Parallel w w'} {F : Frame} {f : Span → Span} {rules : Rules}

/-- A part that is kept where spans are moved. The text of what is written anew may be lax. -/
def Keeps (P : Parallel w w') (F : Frame) (f : Span → Span) : Part → Prop
  | .copied s => P.Copied F s (f s)
  | .rewritten s => P.Lax F ∨ P.Copied F s (f s)

/-- Where spans are moved, and texts are given. -/
structure Moves (P : Parallel w w') (F : Frame) (f : Span → Span) (rules : Rules) : Prop where
  span : ∀ s, F.span s (f s)
  ctxt : ∀ s, F.ctxt s.ctxt (f s).ctxt
  fixed : ∀ builder text, rules.find? builder = some (.fixed text) → P.Value text text

/-- Calls that are in parallel whichever of them take their arguments in. -/
abbrev Free (P : Parallel w w') (F : Frame) : List ReadyCall → List ReadyCall → Prop :=
  List.Forall₂ fun call call' => ∀ merges, P.Merging F merges call call'

theorem Free.calls {calls calls' : List ReadyCall} (h : P.Free F calls calls') :
    P.Calls F calls calls' :=
  h.imp fun _ _ hcall => (hcall fun _ => false).alone rfl

mutual

theorem ready_parallel (hm : P.Moves F f rules) : ∀ a : BuilderMigration.Arg,
    (∀ n ∈ a.names, P.Name n) → (∀ p ∈ a.parts, P.Keeps F f p) →
      P.Argument F (w.ready rules a) (w'.ready rules (a.mapSpans f)) ∧
        P.Merged F (w.ready rules a) (w'.ready rules (a.mapSpans f))
  | .literal span path, _, h => ⟨.literal (h (.copied span) (by simp [Arg.parts])), .literal⟩
  | .closure ⟨builder, binding, stmts, ⟨receiver, base, calls⟩, span⟩, hn, h => by
    simp only [Arg.names, List.forall_mem_cons, List.forall_mem_append] at hn
    simp only [Arg.parts, List.forall_mem_cons, List.forall_mem_append] at h
    have hstmts := readyStmts_parallel hm stmts hn.2.2.1 h.2.1
    have hcalls := readyCalls_parallel hm calls hn.2.2.2 h.2.2
    have hc (merges : String → Bool) : P.Closures F merges
        ⟨builder, binding, w.readyStmts rules stmts,
          ⟨receiver, base, w.readyCalls rules calls⟩, span⟩
        ⟨builder, binding, w'.readyStmts rules (mapPreludeSpans f stmts),
          ⟨receiver, base, w'.readyCalls rules (mapCallSpans f calls)⟩, f span⟩ :=
      ⟨rfl, rfl, hn.1, hn.2.1, hm.span span, hstmts, hcalls.imp fun _ _ hcall => hcall merges⟩
    have hfollows := follows_closure (K := F.ctxt) rules hm.fixed (hm.ctxt span) (hc _)
    exact ⟨.closure (hm.span span) h.1 hfollows, .closure (hc _).flat⟩

theorem readyArgs_parallel (hm : P.Moves F f rules) : ∀ as : List BuilderMigration.Arg,
    (∀ n ∈ namesOfArgs as, P.Name n) → (∀ p ∈ partsOfArgs as, P.Keeps F f p) →
      List.Forall₂ (P.Argument F) (w.readyArgs rules as) (w'.readyArgs rules (mapArgSpans f as)) ∧
        List.Forall₂ (P.Merged F) (w.readyArgs rules as) (w'.readyArgs rules (mapArgSpans f as))
  | [], _, _ => ⟨.nil, .nil⟩
  | a :: as, hn, h => by
    rw [namesOfArgs, List.forall_mem_append] at hn
    rw [partsOfArgs, List.forall_mem_append] at h
    have ha := ready_parallel hm a hn.1 h.1
    have has := readyArgs_parallel hm as hn.2 h.2
    exact ⟨.cons ha.1 has.1, .cons ha.2 has.2⟩

theorem readyCalls_parallel (hm : P.Moves F f rules) : ∀ calls : List BuilderCall,
    (∀ n ∈ namesOfCalls calls, P.Name n) → (∀ p ∈ partsOfCalls calls, P.Keeps F f p) →
      P.Free F (w.readyCalls rules calls) (w'.readyCalls rules (mapCallSpans f calls))
  | [], _, _ => .nil
  | ⟨field, args⟩ :: calls, hn, h => by
    simp only [namesOfCalls, List.forall_mem_cons, List.forall_mem_append] at hn
    rw [partsOfCalls, List.forall_mem_append] at h
    have hargs := readyArgs_parallel hm args hn.2.1 h.1
    exact .cons (fun _ => ⟨rfl, fun _ => ⟨hn.1, hargs.1⟩, fun _ => hargs.2⟩)
      (readyCalls_parallel hm calls hn.2.2 h.2)

theorem readyStmts_parallel (hm : P.Moves F f rules) : ∀ stmts : List BuilderPrelude,
    (∀ n ∈ namesOfStmts stmts, P.Name n) → (∀ p ∈ partsOfStmts stmts, P.Keeps F f p) →
      List.Forall₂ (P.Statement F) (w.readyStmts rules stmts)
        (w'.readyStmts rules (mapPreludeSpans f stmts))
  | [], _, _ => .nil
  | .verbatim span :: stmts, hn, h => by
    rw [namesOfStmts] at hn
    rw [partsOfStmts, List.forall_mem_cons] at h
    exact .cons (.verbatim h.1) (readyStmts_parallel hm stmts hn h.2)
  | .assignment ⟨receiver, base, calls⟩ span :: stmts, hn, h => by
    simp only [namesOfStmts, List.forall_mem_cons, List.forall_mem_append] at hn
    simp only [partsOfStmts, List.forall_mem_cons, List.forall_mem_append] at h
    have hcalls := readyCalls_parallel hm calls hn.2.1 h.2.1
    exact .cons (.assignment hn.1 hcalls.calls)
      (readyStmts_parallel hm stmts hn.2.2 h.2.2)

end

/-- The rewrite of a closure elsewhere that keeps its parts. -/
theorem follows_rewriteClosure (hm : P.Moves F f rules) (c : BuilderClosure)
    (hn : ∀ n ∈ c.names, P.Name n) (h : ∀ p ∈ c.parts, P.Keeps F f p) :
    Follows F P.Value (w.rewriteClosure rules c) (w'.rewriteClosure rules (c.mapSpans f)) := by
  obtain ⟨builder, binding, stmts, ⟨receiver, base, calls⟩, span⟩ := c
  obtain ⟨⟨⟩ | ⟨-, -, hr⟩, -⟩ := ready_parallel hm _ hn h
  exact hr

/-- The same for a chain. -/
theorem follows_rewriteChain (hm : P.Moves F f rules) (c : BuilderChain)
    (hn : ∀ n ∈ c.names, P.Name n) (h : ∀ p ∈ c.parts, P.Keeps F f p) :
    Follows F P.Value (w.rewriteChain rules c) (w'.rewriteChain rules (c.mapSpans f)) := by
  rw [BuilderChain.names, List.forall_mem_cons] at hn
  exact follows_chainStmt c.builder c.builder hn.1
    (readyCalls_parallel hm c.calls hn.2 h).calls

end Parallel

/-! ### Rewrites over other sources -/

namespace Workshop

open Rewrite

variable {w : Workshop} {sources : SourceMap} {f : Span → Span} {lax : Prop}

/-- Other sources keep a part if its text is the same there. The text of what is written anew may be
lax. -/
def Keeps (w : Workshop) (sources : SourceMap) (f : Span → Span) (lax : Prop) : Part → Prop
  | .copied span => w.SameText sources f span
  | .rewritten span => lax ∨ w.SameText sources f span

theorem Keeps.same {p : Part} (h : w.Keeps sources f lax p) :
    (w.same sources).Keeps (.moved f lax) f p := by
  have hcopied {s : Span} (hs : w.SameText sources f s) :
      (w.same sources).Copied (.moved f lax) s (f s) := by
    refine ⟨rfl, ?_⟩
    rintro k _ rfl
    exact shown_of_eq (hs k).symm
  cases p with
  | copied s => exact hcopied h
  | rewritten s => exact h.imp (fun hlax => ⟨hlax, fun a => ⟨a, rfl⟩⟩) hcopied

theorem moves_same (hf : ∀ s, (f s).ctxt = s.ctxt) (rules : Rules) :
    (w.same sources).Moves (.moved f lax) f rules :=
  ⟨fun _ => rfl, fun s => (hf s).symm, fun _ _ _ => rfl⟩

/-- The rewrite of a closure over other sources that keep its parts. -/
theorem follows_rewriteClosure (hf : ∀ s, (f s).ctxt = s.ctxt) (rules : Rules) (c : BuilderClosure)
    (h : ∀ p ∈ c.parts, w.Keeps sources f lax p) :
    Follows (.moved f lax) Eq (w.rewriteClosure rules c)
      ((w.over sources).rewriteClosure rules (c.mapSpans f)) :=
  Parallel.follows_rewriteClosure (moves_same hf rules) c (fun _ _ => trivial) fun p hp =>
    (h p hp).same

/-- The same for a chain. -/
theorem follows_rewriteChain (hf : ∀ s, (f s).ctxt = s.ctxt) (rules : Rules) (c : BuilderChain)
    (h : ∀ p ∈ c.parts, w.Keeps sources f lax p) :
    Follows (.moved f lax) Eq (w.rewriteChain rules c)
      ((w.over sources).rewriteChain rules (c.mapSpans f)) :=
  Parallel.follows_rewriteChain (moves_same hf rules) c (fun _ _ => trivial) fun p hp => (h p hp).same

end Workshop

end BuilderMigration
