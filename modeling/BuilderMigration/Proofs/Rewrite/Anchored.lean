import BuilderMigration.Proofs.Rewrite.Moved

/-! The places that copied text is read from. Over sources without macro expansions no context has a
say, so that closures whose spans have been walked out beforehand are rewritten there to just the texts
that stand at those places. -/

namespace BuilderMigration

open Rewrite

/-- The same files without the expansions. -/
def SourceMap.rooted (m : SourceMap) : SourceMap := { m with expansions := {} }

namespace Workshop

variable (w : Workshop)

/-- The same settings over sources in which no span is walked out. -/
abbrev rooted : Workshop := w.over w.sources.rooted

/-- Where the text of a span stands that is walked out to a context: nowhere if it is generated. -/
def anchor (s : Span) (ctxt : Int) : Span :=
  let t := w.sources.expansions.walk s ctxt
  if w.sources.expansions.isGenerated t.ctxt then ⟨0, 0, 0⟩ else ⟨t.lo, t.hi, 0⟩

theorem resolve?_anchor (s : Span) (ctxt other : Int) :
    w.rooted.resolve? (w.anchor s ctxt) other = w.resolve? s ctxt := by
  have hwalk (t : Span) : w.rooted.sources.expansions.walk t other = t := rfl
  have hgenerated (c : Int) : w.rooted.sources.expansions.isGenerated c = false := by
    unfold Expansions.isGenerated Expansions.find?
    split_ifs <;> rfl
  rw [resolve?, resolve?, hwalk, anchor]
  generalize w.sources.expansions.walk s ctxt = t
  unfold SourceMap.snippet?
  cases h : w.sources.expansions.isGenerated t.ctxt with
  | true => simp [Span.isDummy]
  | false => simp [hgenerated, Span.isDummy]; rfl

end Workshop

/-! ### Anchored closures -/

mutual

/-- An argument with everything in it that may be copied put where its text stands, read from `ctxt`.
What stands in a closure is read from the closure. Where calls are among `merges` for the builder of
theirs, a closure that they are given is `open`: what stands in it is read from around it. -/
def Arg.anchored (w : Workshop) (merges : String → String → Bool) (isOpen : Bool) (ctxt : Int) : Arg → Arg
  | .literal span path => .literal (w.anchor span ctxt) path
  | .closure ⟨builder, binding, stmts, ⟨receiver, base, calls⟩, span⟩ =>
    .closure ⟨builder, binding,
      anchoredStmts w merges (bif isOpen then ctxt else span.ctxt) stmts,
      ⟨receiver, base, anchoredCalls w merges (fun field => !isOpen && merges builder field)
        (bif isOpen then ctxt else span.ctxt) calls⟩,
      w.anchor span ctxt⟩

def anchoredArgs (w : Workshop) (merges : String → String → Bool) (isOpen : Bool) (ctxt : Int) :
    List Arg → List Arg
  | [] => []
  | a :: as => a.anchored w merges isOpen ctxt :: anchoredArgs w merges isOpen ctxt as

def anchoredCalls (w : Workshop) (merges : String → String → Bool) (opens : String → Bool)
    (ctxt : Int) : List BuilderCall → List BuilderCall
  | [] => []
  | ⟨field, args⟩ :: calls =>
    ⟨field, anchoredArgs w merges (opens field) ctxt args⟩ :: anchoredCalls w merges opens ctxt calls

def anchoredStmts (w : Workshop) (merges : String → String → Bool) (ctxt : Int) :
    List BuilderPrelude → List BuilderPrelude
  | [] => []
  | .verbatim span :: stmts => .verbatim (w.anchor span ctxt) :: anchoredStmts w merges ctxt stmts
  | .assignment ⟨receiver, base, calls⟩ span :: stmts =>
    .assignment ⟨receiver, base, anchoredCalls w merges (fun _ => false) ctxt calls⟩
      (w.anchor span ctxt) :: anchoredStmts w merges ctxt stmts

end

/-- A closure with everything in it that may be copied put where its text stands. -/
def BuilderClosure.anchored (w : Workshop) (merges : String → String → Bool) (c : BuilderClosure) :
    BuilderClosure :=
  ⟨c.builder, c.binding, anchoredStmts w merges c.span.ctxt c.stmts,
    ⟨c.chain.receiver, c.chain.builder,
      anchoredCalls w merges (merges c.builder) c.span.ctxt c.chain.calls⟩,
    w.anchor c.span c.span.ctxt⟩

/-! ### Closures that are taken in -/

/-- Where an argument stands. -/
def Arg.span : Arg → Span
  | .literal span _ => span
  | .closure c => c.span

def Arg.closure? : Arg → Option BuilderClosure
  | .literal _ _ => none
  | .closure c => some c

mutual

/-- The closures in an argument whose calls are taken into the text of the closure around them, each
with the context of that one. -/
def Arg.taken (merges : String → String → Bool) (isOpen : Bool) : Arg → List (Int × BuilderClosure)
  | .literal _ _ => []
  | .closure ⟨builder, _, stmts, ⟨_, _, calls⟩, span⟩ =>
    takenOfStmts merges span.ctxt stmts ++
      takenOfCalls merges (fun field => !isOpen && merges builder field) span.ctxt calls

def takenOfArgs (merges : String → String → Bool) (isOpen : Bool) :
    List Arg → List (Int × BuilderClosure)
  | [] => []
  | a :: as => a.taken merges isOpen ++ takenOfArgs merges isOpen as

def takenOfCalls (merges : String → String → Bool) (opens : String → Bool) (ctxt : Int) :
    List BuilderCall → List (Int × BuilderClosure)
  | [] => []
  | ⟨field, args⟩ :: calls =>
    (if opens field then (args.filterMap Arg.closure?).map (ctxt, ·) else []) ++
      (takenOfArgs merges (opens field) args ++ takenOfCalls merges opens ctxt calls)

def takenOfStmts (merges : String → String → Bool) (ctxt : Int) :
    List BuilderPrelude → List (Int × BuilderClosure)
  | [] => []
  | .verbatim _ :: stmts => takenOfStmts merges ctxt stmts
  | .assignment ⟨_, _, calls⟩ _ :: stmts =>
    takenOfCalls merges (fun _ => false) ctxt calls ++ takenOfStmts merges ctxt stmts

end

/-- The closures in a closure whose calls are taken into the text of the one around them. -/
def BuilderClosure.taken (merges : String → String → Bool) (c : BuilderClosure) :
    List (Int × BuilderClosure) :=
  Arg.taken merges false (.closure c)

namespace Workshop

/-- Two contexts that the same text is seen from behind a span. -/
def SeenAlike (w : Workshop) (k j : Int) (s : Span) : Prop := w.resolve? s k = w.resolve? s j

/-- The arguments of a closure that is taken in have the same text, seen from the closure or from the
one around it. -/
def TakenAlike (w : Workshop) (p : Int × BuilderClosure) : Prop :=
  ∀ call ∈ p.2.chain.calls, ∀ a ∈ call.args, w.SeenAlike p.1 p.2.span.ctxt a.span

/-- Seen from one context in the first workshop, and from any in the second. -/
def seenFrom (ctxt : Int) : Frame where
  span _ _ := True
  ctxt k _ := k = ctxt
  lax := False
  exists_span s := ⟨s, trivial⟩

variable {w : Workshop} {rules : Rules} {k j : Int}

instance (s : Span) : Decidable (w.SeenAlike k j s) :=
  inferInstanceAs (Decidable (w.resolve? s k = w.resolve? s j))

instance (p : Int × BuilderClosure) : Decidable (w.TakenAlike p) :=
  inferInstanceAs (Decidable (∀ call ∈ p.2.chain.calls, ∀ a ∈ call.args, _))

theorem copied_anchor {s : Span} (h : w.SeenAlike k j s) :
    (w.same w.sources.rooted).Copied (seenFrom k) s (w.anchor s j) := by
  refine ⟨trivial, ?_⟩
  rintro _ k' rfl
  exact shown_of_eq (h.trans (w.resolve?_anchor s j k').symm)

/-- Which calls open the closures that they are given: all that a rule takes in, or none. -/
abbrev opening (rules : Rules) (all : Bool) (builder field : String) : Bool :=
  all && rules.merges builder field

theorem isEmpty_readyStmts (rules : Rules) (merges : String → String → Bool) (k : Int)
    (stmts : List BuilderPrelude) : (w.readyStmts rules stmts).isEmpty =
      (w.rooted.readyStmts rules (anchoredStmts w merges k stmts)).isEmpty := by
  rcases stmts with _ | ⟨⟨⟩ | ⟨⟨⟩, _⟩, stmts⟩ <;> simp [readyStmts, anchoredStmts]

mutual

theorem ready_anchored (all : Bool) : ∀ (a : Arg) {k j : Int}, w.SeenAlike k j a.span →
    (all = true ∨ ∀ p ∈ a.taken rules.merges false, w.TakenAlike p) →
      (w.same w.sources.rooted).Argument (seenFrom k) (w.ready rules a)
        (w.rooted.ready rules (a.anchored w (opening rules all) false j))
  | .literal span path, k, j, h, _ => .literal (copied_anchor h)
  | .closure ⟨builder, binding, stmts, ⟨receiver, base, calls⟩, span⟩, k, j, h, ht => by
    rw [Arg.taken, List.forall_mem_append] at ht
    refine .closure trivial (.inr (copied_anchor h)) ?_
    have hstmts := readyStmts_anchored all stmts (k := span.ctxt) (ht.imp_right And.left)
    have hcalls := readyCalls_anchored all calls (rules.merges builder)
      (fun _ _ => ⟨rfl, rfl⟩) (fun _ _ _ _ => rfl) (ht.imp_right And.right)
    exact Parallel.follows_closure (K := fun k _ => k = span.ctxt) rules (fun _ _ _ => rfl) rfl
      ⟨rfl, rfl, trivial, trivial, trivial, hstmts, hcalls⟩

theorem readyArgs_anchored (all : Bool) : ∀ (as : List Arg) {k j : Int},
    (∀ a ∈ as, w.SeenAlike k j a.span) →
    (all = true ∨ ∀ p ∈ takenOfArgs rules.merges false as, w.TakenAlike p) →
      List.Forall₂ ((w.same w.sources.rooted).Argument (seenFrom k)) (w.readyArgs rules as)
        (w.rooted.readyArgs rules (anchoredArgs w (opening rules all) false j as))
  | [], _, _, _, _ => .nil
  | a :: as, k, j, h, ht => by
    rw [List.forall_mem_cons] at h
    rw [takenOfArgs, List.forall_mem_append] at ht
    exact .cons (ready_anchored all a h.1 (ht.imp_right And.left))
      (readyArgs_anchored all as h.2 (ht.imp_right And.right))

theorem readyTaken_anchored (all : Bool) : ∀ (as : List Arg) {k : Int},
    (all = true ∨ ∀ p ∈ takenOfArgs rules.merges true as, w.TakenAlike p) →
    (all = true ∨ ∀ c ∈ as.filterMap Arg.closure?, w.TakenAlike (k, c)) →
      List.Forall₂ ((w.same w.sources.rooted).Merged (seenFrom k)) (w.readyArgs rules as)
        (w.rooted.readyArgs rules (anchoredArgs w (opening rules all) all k as))
  | [], _, _, _ => .nil
  | .literal span path :: as, k, ht, hk => by
    rw [takenOfArgs, List.forall_mem_append] at ht
    exact .cons .literal (readyTaken_anchored all as (ht.imp_right And.right) hk)
  | .closure ⟨builder, binding, stmts, ⟨receiver, base, calls⟩, span⟩ :: as, k, ht, hk => by
    rw [takenOfArgs, List.forall_mem_append, Arg.taken, List.forall_mem_append] at ht
    rw [List.filterMap_cons_some (by rfl), List.forall_mem_cons] at hk
    have halike : ∀ call ∈ calls, ∀ a ∈ call.args,
        w.SeenAlike k (bif all then k else span.ctxt) a.span := by
      intro call hcall a ha
      rcases hk with rfl | hk
      · rfl
      · cases all with
        | true => rfl
        | false => exact hk.1 call hcall a ha
    have hcalls := readyCalls_anchored all calls (fun _ => false) (i := span.ctxt)
      (fun _ h => absurd h Bool.false_ne_true) halike (ht.imp_right fun h => h.1.2)
    have hopens : (fun field => !all && opening rules all builder field) =
        fun _ => all && false := by
      funext field
      cases all <;> rfl
    refine .cons (.closure ⟨⟨rfl, isEmpty_readyStmts rules _ _ stmts, trivial⟩, ?_⟩)
      (readyTaken_anchored all as (ht.imp_right And.right) (hk.imp_right And.right))
    rw [hopens]
    exact hcalls.imp fun _ _ hcall => hcall.alone rfl

/-- The calls of a closure, read from one context; where they open no closure they may be put where
their texts stand seen from another. -/
theorem readyCalls_anchored (all : Bool) : ∀ (calls : List BuilderCall) (opens : String → Bool)
    {k j i : Int}, (∀ field, opens field = true → k = j ∧ i = k) →
    (∀ call ∈ calls, ∀ a ∈ call.args, w.SeenAlike k j a.span) →
    (all = true ∨ ∀ p ∈ takenOfCalls rules.merges opens i calls, w.TakenAlike p) →
      List.Forall₂ ((w.same w.sources.rooted).Merging (seenFrom k) opens) (w.readyCalls rules calls)
        (w.rooted.readyCalls rules
          (anchoredCalls w (opening rules all) (fun field => all && opens field) j calls))
  | [], _, _, _, _, _, _, _ => .nil
  | ⟨field, args⟩ :: calls, opens, k, j, i, hj, h, ht => by
    rw [List.forall_mem_cons] at h
    rw [takenOfCalls, List.forall_mem_append, List.forall_mem_append] at ht
    refine .cons ⟨rfl, fun hf => ⟨trivial, ?_⟩, fun hf => ?_⟩
      (readyCalls_anchored all calls opens hj h.2 (ht.imp_right fun h => h.2.2))
    · dsimp only at hf ⊢
      rw [hf] at ht ⊢
      rw [Bool.and_false]
      exact readyArgs_anchored all args h.1 (ht.imp_right fun h => h.2.1)
    · dsimp only at hf ⊢
      obtain ⟨rfl, rfl⟩ := hj field hf
      rw [hf, if_pos rfl] at ht
      rw [hf, Bool.and_true]
      exact readyTaken_anchored all args (ht.imp_right fun h => h.2.1)
        (ht.imp_right fun h c hc => h.1 _ (List.mem_map_of_mem hc))

theorem readyStmts_anchored (all : Bool) : ∀ (stmts : List BuilderPrelude) {k : Int},
    (all = true ∨ ∀ p ∈ takenOfStmts rules.merges k stmts, w.TakenAlike p) →
      List.Forall₂ ((w.same w.sources.rooted).Statement (seenFrom k)) (w.readyStmts rules stmts)
        (w.rooted.readyStmts rules (anchoredStmts w (opening rules all) k stmts))
  | [], _, _ => .nil
  | .verbatim span :: stmts, k, ht =>
    .cons (.verbatim (copied_anchor rfl)) (readyStmts_anchored all stmts ht)
  | .assignment ⟨receiver, base, calls⟩ span :: stmts, k, ht => by
    rw [takenOfStmts, List.forall_mem_append] at ht
    have hcalls := readyCalls_anchored all calls (fun _ => false) (k := k) (j := k)
      (fun _ h => absurd h Bool.false_ne_true) (fun _ _ _ _ => rfl) (ht.imp_right And.left)
    simp only [Bool.and_false] at hcalls
    exact .cons (.assignment trivial (hcalls.imp fun _ _ hcall => hcall.alone rfl))
      (readyStmts_anchored all stmts (ht.imp_right And.right))

end

/-- A closure is rewritten as the anchored one is in sources without expansions. -/
theorem follows_anchored (rules : Rules) (all : Bool) (c : BuilderClosure)
    (h : all = true ∨ ∀ p ∈ c.taken rules.merges, w.TakenAlike p) (k : Int) :
    Follows (seenFrom k) Eq (w.rewriteClosure rules c)
      (w.rooted.rewriteClosure rules (c.anchored w (opening rules all))) := by
  obtain ⟨builder, binding, stmts, ⟨receiver, base, calls⟩, span⟩ := c
  rw [BuilderClosure.taken, Arg.taken, List.forall_mem_append] at h
  have hstmts := readyStmts_anchored all stmts (k := span.ctxt) (h.imp_right And.left)
  have hcalls := readyCalls_anchored all calls (rules.merges builder) (k := span.ctxt)
    (j := span.ctxt) (fun _ _ => ⟨rfl, rfl⟩) (fun _ _ _ _ => rfl)
    (h.imp_right And.right)
  exact Parallel.follows_closure (P := w.same w.sources.rooted) (F := seenFrom k)
    (K := fun k _ => k = span.ctxt) rules (fun _ _ _ => rfl) rfl
    ⟨rfl, rfl, trivial, trivial, trivial, hstmts, hcalls⟩

end Workshop

end BuilderMigration
