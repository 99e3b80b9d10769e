import BuilderMigration.Typing.Resolve

/-! The pass over a file with scopes that change in place. A scope that is open has a frame, with the names
bound in it so far and the scope around it; a statement binds in the frame of its block, and an expression
is visited in the frame that it is given. Main statements: what is visited with an expression leaves every
frame as it was, and what is visited in a frame of its own leaves those that were there before it. -/

namespace BuilderMigration

/-! ### Frames -/

/-- The names bound in a scope so far, the latest first, and the number of the scope around it. -/
structure ScopeFrame where
  names : Scope
  around : Option Nat

/-- The frames of the scopes opened so far, the latest first. A scope goes by the number of those that were
opened before it. -/
abbrev Frames := List ScopeFrame

namespace Frames

variable {frames : Frames} {k j : Nat}

/-- The type of a name: that of its latest binding in the scope, or else the type that it has in the scope
around. -/
def lookup : Frames → Nat → String → Option Ty
  | [], _, _ => none
  | frame :: frames, k, x =>
    if k = frames.length then
      match Assoc.get? x frame.names, frame.around with
      | some ty, _ => ty
      | none, some outer => lookup frames outer x
      | none, none => none
    else lookup frames k x

/-- Binds a pattern in a scope. -/
def bind : Frames → Nat → Pattern → Option Ty → Frames
  | [], _, _, _ => []
  | frame :: frames, k, p, ty =>
    if k = frames.length then { frame with names := frame.names.bind p ty } :: frames
    else frame :: bind frames k p ty

/-- All bindings in view in a scope, the innermost first. -/
def view : Frames → Nat → Scope
  | [], _ => []
  | frame :: frames, k =>
    if k = frames.length then
      frame.names ++ (match frame.around with | some outer => view frames outer | none => [])
    else view frames k

theorem lookup_eq (frames : Frames) (k : Nat) (x : String) :
    frames.lookup k x = (frames.view k).typeOf x := by
  induction frames generalizing k with
  | nil => rfl
  | cons frame frames ih =>
    have happend (names more : Scope) : Scope.typeOf (names ++ more) x =
        (match Assoc.get? x names with | some ty => ty | none => more.typeOf x) := by
      induction names with
      | nil => rfl
      | cons entry names ihn =>
        simp only [Scope.typeOf, List.cons_append, Assoc.get?] at ihn ⊢
        split
        · rfl
        · exact ihn
    rw [lookup, view]
    split
    · rw [happend]
      cases Assoc.get? x frame.names with
      | some ty => rfl
      | none =>
        cases frame.around with
        | none => rfl
        | some outer => exact ih outer
    · exact ih k

/-- A scope that is opened does not change those that there are. -/
theorem view_cons_of_lt (frame : ScopeFrame) (h : k < frames.length) :
    view (frame :: frames) k = view frames k := by
  rw [view, if_neg (Nat.ne_of_lt h)]

/-- In a scope that is opened all is in view that is in view around it. -/
theorem view_opened (frames : Frames) (outer : Option Nat) :
    view (⟨[], outer⟩ :: frames) frames.length =
      match outer with | some k => view frames k | none => [] := by
  rw [view, if_pos rfl, List.nil_append]

theorem length_bind (frames : Frames) (k : Nat) (p : Pattern) (ty : Option Ty) :
    (frames.bind k p ty).length = frames.length := by
  induction frames with
  | nil => rfl
  | cons frame frames ih =>
    rw [bind]
    split
    · rfl
    · rw [List.length_cons, List.length_cons, ih]

theorem bind_of_le (p : Pattern) (ty : Option Ty) (h : frames.length ≤ k) :
    frames.bind k p ty = frames := by
  induction frames with
  | nil => rfl
  | cons frame frames ih =>
    rw [List.length_cons] at h
    rw [bind, if_neg (by omega), ih (by omega)]

/-- A binding does not come into view in the scopes opened before. -/
theorem view_bind_of_lt (p : Pattern) (ty : Option Ty) (h : j < k) :
    (frames.bind k p ty).view j = frames.view j := by
  induction frames generalizing j with
  | nil => rfl
  | cons frame frames ih =>
    rw [bind]
    split
    · next hk => rw [view_cons_of_lt _ (hk ▸ h), view_cons_of_lt _ (hk ▸ h)]
    · next hk =>
      rw [view, view, length_bind]
      split
      · next hj => rw [bind_of_le p ty (by omega)]
      · exact ih h

theorem view_bind_self (p : Pattern) (ty : Option Ty) (h : k < frames.length) :
    (frames.bind k p ty).view k = (frames.view k).bind p ty := by
  induction frames with
  | nil => cases h
  | cons frame frames ih =>
    rw [bind, view]
    split
    · next hk =>
      rw [view, if_pos hk]
      cases p <;> rfl
    · next hk =>
      have hlt : k < frames.length := by
        rw [List.length_cons] at h
        omega
      rw [view, if_neg (by rwa [length_bind]), ih hlt]

end Frames

/-! ### The pass -/

/-- An expression that the pass comes to, with the scope that it is visited in and the frames as they are
then. -/
structure Visit where
  frames : Frames
  scope : Nat
  expr : Expr

/-- The type of a name as it is looked up at a visit. -/
def Visit.lookup (v : Visit) (x : String) : Option Ty := v.frames.lookup v.scope x

/-- The bindings in view at a visit and the expression. -/
def Visit.seen (v : Visit) : Scope × Expr := (v.frames.view v.scope, v.expr)

/-- How names are looked up at a visit, and the expression. -/
def Visit.looking (v : Visit) : (String → Option Ty) × Expr := (v.lookup, v.expr)

/-- How names are to be looked up at an expression where some bindings are in view. -/
def Scope.looking (v : Scope × Expr) : (String → Option Ty) × Expr := (v.1.typeOf, v.2)

/-- What the pass carries along: the frames and the visits so far. -/
structure Pass where
  frames : Frames := []
  visits : List Visit := []

abbrev Passing := StateM Pass

namespace Pass

def note (k : Nat) (e : Expr) : Passing Unit :=
  modify fun s => { s with visits := s.visits ++ [⟨s.frames, k, e⟩] }

/-- Opens a scope. -/
def enter (around : Option Nat) : Passing Nat :=
  modifyGet fun s => (s.frames.length, { s with frames := ⟨[], around⟩ :: s.frames })

def bindIn (k : Nat) (p : Pattern) (ty : Option Ty) : Passing Unit :=
  modify fun s => { s with frames := s.frames.bind k p ty }

def bindParams (k : Nat) : List Param → Passing Unit
  | [] => return ()
  | p :: ps => do
    bindIn k p.pattern p.ty
    bindParams k ps

/-- Opens a scope, binds some parameters in it and goes on there. -/
def within {α : Type} (around : Option Nat) (params : List Param) (inside : Nat → Passing α) :
    Passing α := do
  let inner ← enter around
  bindParams inner params
  inside inner

def typeIn (k : Nat) (x : String) : Passing (Option Ty) := do
  return (← get).frames.lookup k x

end Pass

namespace Names

open Pass

mutual

/-- Visits an expression in a scope: it and what is in it get their types. -/
def visit (n : Names) (k : Nat) : Expr → Passing Expr
  | .path span ty [name] => do
    note k (.path span ty [name])
    let ty ← typeIn k name
    return .path span ty [name]
  | .path span ty segments => do
    note k (.path span ty segments)
    return .path span none segments
  | .lit span kind => do
    note k (.lit span kind)
    return .lit span kind
  | .methodCall span ty receiver method args => do
    note k (.methodCall span ty receiver method args)
    let receiver ← n.visit k receiver
    let args ← n.visitArgs k (n.closureBuilder receiver.ty? method) args
    return .methodCall span (n.callType receiver.ty?) receiver method args
  | .closure span params body captures => do
    note k (.closure span params body captures)
    let body ← within (some k) (n.closureParams none params) fun inner => n.visit inner body
    return .closure span (n.closureParams none params) body captures
  | .block b => do
    let b ← n.visitBlock k b
    return .block b
  | .macroCall span path delimiter args => do
    note k (.macroCall span path delimiter args)
    let args ← n.visitAll k args
    return .macroCall span path delimiter args
  | .compound span ty kind parts => do
    note k (.compound span ty kind parts)
    let parts ← n.visitAll k parts
    return .compound span (compoundType kind parts) kind parts

/-- Visits the arguments of a method that gives closures a builder to configure. -/
def visitArgs (n : Names) (k : Nat) (builder : Option String) : List Expr → Passing (List Expr)
  | [] => return []
  | .closure span params body captures :: es => do
    note k (.closure span params body captures)
    let body ← within (some k) (n.closureParams builder params) fun inner => n.visit inner body
    let es ← n.visitArgs k builder es
    return .closure span (n.closureParams builder params) body captures :: es
  | e :: es => do
    let e ← n.visit k e
    let es ← n.visitArgs k builder es
    return e :: es

def visitAll (n : Names) (k : Nat) : List Expr → Passing (List Expr)
  | [] => return []
  | e :: es => do
    let e ← n.visit k e
    let es ← n.visitAll k es
    return e :: es

/-- Visits a block in a scope, and what is in it in a scope of its own. -/
def visitBlock (n : Names) (k : Nat) : Block → Passing Block
  | .mk span kind stmts tail => do
    note k (.block (.mk span kind stmts tail))
    within (some k) [] fun inner => do
      let stmts ← n.visitStmts inner stmts
      let tail ← (match tail with
        | none => pure none
        | some e => some <$> n.visit inner e : Passing (Option Expr))
      return .mk span kind stmts tail

/-- Visits the statements of a block in its scope. A `let` binds there, behind its value and its other
branch. -/
def visitStmts (n : Names) (k : Nat) : List Stmt → Passing (List Stmt)
  | [] => return []
  | .letStmt span pattern declared init otherwise :: ss => do
    let init ← (match init with
      | none => pure none
      | some e => some <$> n.visit k e : Passing (Option Expr))
    let otherwise ← (match otherwise with
      | none => pure none
      | some b => some <$> n.visitBlock k b : Passing (Option Block))
    bindIn k pattern ((declared.map n.resolve).or (init.bind (·.ty?)))
    let ss ← n.visitStmts k ss
    return .letStmt span pattern declared init otherwise :: ss
  | .semi span e :: ss => do
    let e ← n.visit k e
    let ss ← n.visitStmts k ss
    return .semi span e :: ss
  | .expr span e :: ss => do
    let e ← n.visit k e
    let ss ← n.visitStmts k ss
    return .expr span e :: ss
  | .item span i :: ss => do
    let i ← n.visitItem i
    let ss ← n.visitStmts k ss
    return .item span i :: ss

/-- Visits an item. The body of a function is visited in a scope that has none around it. -/
def visitItem (n : Names) : Item → Passing Item
  | .fn span name params body => do
    let body ← (match body with
      | none => pure none
      | some b =>
        some <$> within none (n.fnParams params) fun scope => n.visitBlock scope b :
        Passing (Option Block))
    return .fn span name (n.fnParams params) body
  | .use span imports globs => return .use span imports globs
  | .container span kind items => do
    let items ← n.visitItems items
    return .container span kind items
  | .other span => return .other span

def visitItems (n : Names) : List Item → Passing (List Item)
  | [] => return []
  | i :: is => do
    let i ← n.visitItem i
    let is ← n.visitItems is
    return i :: is

end

end Names

/-! ### What a computation does with the frames -/

namespace Pass

variable {α β : Type} {k kept : Nat} {s : Pass} {scope scope' scope'' : Scope} {x : Passing α} {a : α}
  {f : α → Passing β} {b : β} {v w : List (Scope × Expr)}

/-- In some state a computation gives `a` and comes to the expressions `v`, each with what is in view
there; the scopes with a number below `kept` stay as they are. -/
structure Does (kept : Nat) (s : Pass) (x : Passing α) (a : α) (v : List (Scope × Expr)) : Prop where
  value : (x s).1 = a
  length_le : s.frames.length ≤ (x s).2.frames.length
  view_eq : ∀ j < kept, (x s).2.frames.view j = s.frames.view j
  visits_eq : (x s).2.visits.map Visit.seen = s.visits.map Visit.seen ++ v

/-- All scopes stay as they are. -/
def Leaves (s : Pass) (x : Passing α) (a : α) (v : List (Scope × Expr)) : Prop :=
  s.Does s.frames.length x a v

/-- What a computation does in the scope `k` where `scope` is in view there; no scope changes. -/
def InScope (k : Nat) (scope : Scope) (x : Passing α) (a : α) (v : List (Scope × Expr)) : Prop :=
  ∀ s : Pass, k < s.frames.length → s.frames.view k = scope → s.Leaves x a v

/-- What a computation does in the scope `k` where `scope` is in view there and `scope'` is behind it; no
scope changes that was opened before. -/
def Binds (k : Nat) (scope : Scope) (x : Passing α) (a : α) (scope' : Scope)
    (v : List (Scope × Expr)) : Prop :=
  ∀ s : Pass, k < s.frames.length → s.frames.view k = scope →
    s.Does k x a v ∧ (x s).2.frames.view k = scope'

theorem Does.bind (hx : s.Does kept x a v) (hf : (x s).2.Does kept (f a) b w) :
    s.Does kept (x >>= f) b (v ++ w) := by
  have hrun : (x >>= f) s = f a (x s).2 := hx.value ▸ rfl
  constructor
  case value => rw [hrun, hf.value]
  case length_le => exact hrun ▸ Nat.le_trans hx.length_le hf.length_le
  case view_eq => exact fun j hj => hrun ▸ (hf.view_eq j hj).trans (hx.view_eq j hj)
  case visits_eq => rw [hrun, hf.visits_eq, hx.visits_eq, List.append_assoc]

theorem Does.lookup_eq (h : s.Does kept x a v) {j : Nat} (hj : j < kept) :
    (x s).2.frames.lookup j = s.frames.lookup j := by
  funext name
  rw [Frames.lookup_eq, Frames.lookup_eq, h.view_eq j hj]

theorem Does.lookings_eq (h : s.Does kept x a v) :
    (x s).2.visits.map Visit.looking = s.visits.map Visit.looking ++ v.map Scope.looking := by
  have hlooking : Visit.looking = Scope.looking ∘ Visit.seen := by
    funext visit
    exact Prod.ext (funext (Frames.lookup_eq _ _)) rfl
  rw [hlooking, ← List.map_map, ← List.map_map, ← List.map_append, h.visits_eq]

theorem Does.mono {less : Nat} (h : s.Does kept x a v) (hle : less ≤ kept) : s.Does less x a v :=
  { h with view_eq := fun j hj => h.view_eq j (Nat.lt_of_lt_of_le hj hle) }

theorem Does.pure (kept : Nat) (s : Pass) (a : α) : s.Does kept (pure a) a [] :=
  ⟨rfl, Nat.le_refl _, fun _ _ => rfl, (List.append_nil _).symm⟩

theorem Leaves.bind (hx : s.Leaves x a v) (hf : (x s).2.Leaves (f a) b w) :
    s.Leaves (x >>= f) b (v ++ w) :=
  Does.bind hx (Does.mono hf hx.length_le)

theorem Leaves.bind_pure {g : α → β} (hx : s.Leaves x a v) :
    s.Leaves (x >>= fun a => pure (g a)) (g a) v :=
  List.append_nil v ▸ hx.bind (Does.pure _ _ (g a))

/-- Behind what changes no scope a scope has the same in view. -/
theorem Leaves.behind (hx : s.Leaves x a v) (hk : k < s.frames.length) :
    k < (x s).2.frames.length ∧ (x s).2.frames.view k = s.frames.view k :=
  ⟨Nat.lt_of_lt_of_le hk hx.length_le, hx.view_eq k hk⟩

namespace InScope

theorem bind (hx : InScope k scope x a v) (hf : InScope k scope (f a) b w) :
    InScope k scope (x >>= f) b (v ++ w) := fun s hk hview =>
  have hleaves := hx s hk hview
  hleaves.bind (hf _ (hleaves.behind hk).1 ((hleaves.behind hk).2.trans hview))

theorem pure (k : Nat) (scope : Scope) (a : α) : InScope k scope (Pure.pure a) a [] :=
  fun s _ _ => Does.pure _ s a

/-- What is made of the result does not matter. -/
theorem bind_pure {g : α → β} (hx : InScope k scope x a v) :
    InScope k scope (x >>= fun a => Pure.pure (g a)) (g a) v :=
  List.append_nil v ▸ hx.bind (pure k scope (g a))

theorem noted {e : Expr} {x : Passing α} (hx : InScope k scope x a v) :
    InScope k scope (note k e >>= fun _ => x) a ((scope, e) :: v) := by
  have hnote : InScope k scope (note k e) () [(scope, e)] := fun s _ hview =>
    ⟨rfl, Nat.le_refl _, fun _ _ => rfl, by rw [← hview]; exact List.map_append⟩
  exact hnote.bind hx

theorem typeIn (k : Nat) (scope : Scope) (name : String) :
    InScope k scope (typeIn k name) (scope.typeOf name) [] := fun s _ hview =>
  ⟨hview ▸ s.frames.lookup_eq k name, Nat.le_refl _, fun _ _ => rfl, (List.append_nil _).symm⟩

end InScope

namespace Binds

theorem bind (hx : Binds k scope x a scope' v) (hf : Binds k scope' (f a) b scope'' w) :
    Binds k scope (x >>= f) b scope'' (v ++ w) := fun s hk hview => by
  obtain ⟨hdoes, hview'⟩ := hx s hk hview
  obtain ⟨hdoes', hview''⟩ := hf _ (Nat.lt_of_lt_of_le hk hdoes.length_le) hview'
  have hrun : (x >>= f) s = f a (x s).2 := hdoes.value ▸ rfl
  exact ⟨hdoes.bind hdoes', hrun ▸ hview''⟩

theorem bind_pure {g : α → β} (hx : Binds k scope x a scope' v) :
    Binds k scope (x >>= fun a => pure (g a)) (g a) scope' v := by
  have hpure : Binds k scope' (pure (g a) : Passing β) (g a) scope' [] :=
    fun s _ hview => ⟨Does.pure _ s _, hview⟩
  exact List.append_nil v ▸ hx.bind hpure

/-- What changes no scope binds nothing. -/
theorem of_inScope (hx : InScope k scope x a v) : Binds k scope x a scope v := fun s hk hview =>
  have hleaves := hx s hk hview
  ⟨Does.mono hleaves (Nat.le_of_lt hk), (hleaves.behind hk).2.trans hview⟩

theorem bindIn (p : Pattern) (ty : Option Ty) :
    Binds k scope (bindIn k p ty) () (scope.bind p ty) [] := fun _ hk hview =>
  ⟨⟨rfl, Nat.le_of_eq (Frames.length_bind ..).symm, fun _ hj => Frames.view_bind_of_lt p ty hj,
    (List.append_nil _).symm⟩, hview ▸ Frames.view_bind_self p ty hk⟩

theorem bindParams (params : List Param) :
    Binds k scope (bindParams k params) () (scope.bindParams params) [] := by
  induction params generalizing scope with
  | nil => exact .of_inScope (.pure k scope ())
  | cons p params ih => exact (bindIn p.pattern p.ty).bind ih

/-- A `let` binds behind its value and its other branch, with a type that may be that of its value. -/
theorem letIn {γ δ : Type} {i : α} {o : β} {r : γ} {init : Passing α} {otherwise : Passing β}
    {rest : Passing γ} {u : List (Scope × Expr)} {ty : α → Option Ty} {g : α → β → γ → δ}
    (p : Pattern) (hinit : InScope k scope init i u) (hotherwise : InScope k scope otherwise o v)
    (hrest : Binds k (scope.bind p (ty i)) rest r scope' w) :
    Binds k scope (do
      let i ← init
      let o ← otherwise
      Pass.bindIn k p (ty i)
      let r ← rest
      return g i o r) (g i o r) scope' (u ++ (v ++ w)) :=
  (of_inScope hinit).bind ((of_inScope hotherwise).bind ((bindIn p (ty i)).bind hrest.bind_pure))

end Binds

/-- What is done in a scope of its own changes no scope that there was before it. -/
theorem Leaves.within {inside : Nat → Passing α} {around : Option Nat} (params : List Param)
    (haround : (match around with | some k => s.frames.view k | none => []) = scope)
    (h : ∀ inner, ∃ scope', Binds inner (scope.bindParams params) (inside inner) a scope' v) :
    s.Leaves (within around params inside) a v := by
  have hview := Frames.view_opened s.frames around
  obtain ⟨scope', h⟩ := h s.frames.length
  obtain ⟨hdoes, -⟩ := (Binds.bindParams params).bind (f := fun _ => inside s.frames.length)
    h ⟨⟨[], around⟩ :: s.frames, s.visits⟩ (Nat.lt_succ_self _) (hview.trans haround)
  constructor
  case value => exact hdoes.value
  case length_le => exact Nat.le_of_succ_le hdoes.length_le
  case view_eq => exact fun j hj => (hdoes.view_eq j hj).trans (Frames.view_cons_of_lt _ hj)
  case visits_eq => exact hdoes.visits_eq

theorem InScope.within {inside : Nat → Passing α} (params : List Param)
    (h : ∀ inner, ∃ scope', Binds inner (scope.bindParams params) (inside inner) a scope' v) :
    InScope k scope (within (some k) params inside) a v :=
  fun _ _ hview => .within params hview h

end Pass

end BuilderMigration
