import BuilderMigration.Proofs.Idiom.Recognition
import Mathlib.Data.List.Forall2

/-! Nests of method calls: one call inside another down to what the innermost is made on. A nest makes
a chain just if that is a name, and the chain has the calls of the nest in their order. -/

namespace BuilderMigration

/-! ### Builder types -/

/-- A type that is the builder `name`, perhaps under references: its path begins with the crate and the
module of the builders and ends in the name. -/
inductive Ty.IsBuilder (settings : Settings) : Ty → String → Prop
  | adt (scopes : List String) (name : String) :
      IsBuilder settings
        (.adt (settings.builderCrate :: settings.builderModule :: (scopes ++ [name]))) name
  | ref {ty : Ty} {name : String} (mutable : Bool) (h : IsBuilder settings ty name) :
      IsBuilder settings (.ref ty mutable) name

variable {settings : Settings}

theorem Ty.builder?_adt {path : List String} {name : String} :
    (Ty.adt path).builder? settings = some name ↔ (Ty.adt path).IsBuilder settings name := by
  have hlast (scopes : List String) (last first : String) :
      (scopes ++ [last]).getLastD first = last := by
    rw [List.getLastD_eq_getLast?, List.getLast?_concat]
    rfl
  constructor
  · intro h
    match path with
    | [] | [_] | [_, _] => cases h
    | crate :: scope :: first :: more =>
      simp only [builder?, stripRefs, Option.ite_none_right_eq_some, Option.some.injEq] at h
      obtain ⟨⟨rfl, rfl⟩, rfl⟩ := h
      obtain hnil | ⟨scopes, last, hmore⟩ := List.eq_nil_or_concat (first :: more)
      · cases hnil
      · rw [hmore, List.concat_eq_append, hlast]
        exact .adt scopes last
  · intro h
    cases h with
    | adt scopes =>
      cases scopes with
      | nil => simp [builder?, stripRefs]
      | cons first more =>
        simpa [builder?, stripRefs] using hlast (first :: more) name first

/-- Classification finds a builder just where there is one. -/
theorem Ty.builder?_eq_some_iff {ty : Ty} {name : String} :
    ty.builder? settings = some name ↔ ty.IsBuilder settings name := by
  induction ty using Ty.stripRefs.induct with
  | case1 inner mutable ih =>
    show inner.builder? settings = some name ↔ _
    rw [ih]
    constructor
    · exact .ref mutable
    · intro h
      cases h
      assumption
  | case2 ty hty =>
    cases ty with
    | adt path => exact builder?_adt
    | ref inner mutable => exact (hty inner mutable rfl).elim
    | _ => exact ⟨nofun, nofun⟩

/-! ### Calls in order -/

/-- A method call of a nest, with what is known of its type. -/
structure Invocation where
  ty : Option Ty
  method : String
  args : List Expr

namespace Expr

/-- What the calls of a chain are made on. -/
def base? : Expr → Option Expr
  | .methodCall _ _ receiver _ _ => receiver.base?.or (some receiver)
  | _ => none

/-- The name that a chain is made on. -/
def chainName? (e : Expr) : Option String := e.base?.bind Expr.name?

/-- The calls of a nest, leftmost first. -/
def invocations : Expr → List Invocation
  | .methodCall _ ty receiver method args => receiver.invocations ++ [⟨ty, method, args⟩]
  | _ => []

theorem eq_path_of_name? {e : Expr} {name : String} (h : e.name? = some name) :
    ∃ span, e = .path span e.ty? [name] := by
  cases e with
  | path span ty segments =>
    cases segments with
    | nil => cases h
    | cons first more => cases more <;> cases h; exact ⟨span, rfl⟩
  | _ => cases h

/-- A name is no call. -/
theorem base?_of_name? {e : Expr} {name : String} (h : e.name? = some name) : e.base? = none := by
  cases e with
  | methodCall => cases h
  | _ => rfl

theorem invocations_of_base? {e : Expr} (h : e.base? = none) : e.invocations = [] := by
  cases e with
  | methodCall span ty receiver => simp [base?] at h
  | _ => rfl

end Expr

/-- A call with its arguments classified. -/
def Invocation.call (settings : Settings) (i : Invocation) : BuilderCall :=
  ⟨i.method, i.args.map (classifyArg settings)⟩

/-- A nest is a chain if it begins with a name that a chain can begin with. -/
theorem chain?_eq (strict : Bool) (e : Expr) :
    chain? settings strict e = e.base?.bind fun base =>
      (chainStart? settings strict base).map fun c =>
        { c with calls := e.invocations.map (·.call settings) } := by
  induction e using Expr.base?.induct with
  | case1 span ty receiver method args ih =>
    rw [chain?_methodCall, classifyAll_eq_map, ih, Expr.base?, Expr.invocations]
    cases hbase : receiver.base? with
    | some base =>
      have hname : chainStart? settings strict receiver = none := by
        cases receiver with
        | methodCall => rfl
        | _ => cases hbase
      rw [hname, Option.or_none]
      simp [Function.comp_def, Chain.append, Invocation.call]
    | none =>
      rw [Expr.invocations_of_base? hbase]
      cases hstart : chainStart? settings strict receiver with
      | none => simp [hstart]
      | some c =>
        obtain ⟨name, -, rfl, -⟩ := chainStart?_eq_some settings hstart
        simp [hstart, Chain.append, Invocation.call]
  | case2 e he =>
    cases e with
    | methodCall span ty receiver method args => exact (he span ty receiver method args rfl).elim
    | _ => rfl

/-! ### Where a chain begins -/

/-- An expression that a chain can begin with: the name `name`, which has to be known as a builder
where `strict` asks for it. -/
def Expr.Begins (settings : Settings) (strict : Bool) (name : String) (e : Expr) : Prop :=
  e.name? = some name ∧
    (strict = true → ∃ ty builder, e.ty? = some ty ∧ ty.IsBuilder settings builder)

/-- A nest of calls on a name that a chain can begin with. -/
def Expr.Unravels (settings : Settings) (strict : Bool) (name : String) (e : Expr) : Prop :=
  ∃ base, e.base? = some base ∧ base.Begins settings strict name

theorem Expr.typed_iff {e : Expr} {builder : String} :
    e.ty?.bind (·.builder? settings) = some builder ↔
      ∃ ty, e.ty? = some ty ∧ ty.IsBuilder settings builder := by
  simp [Option.bind_eq_some_iff, Ty.builder?_eq_some_iff]

theorem chainStart?_eq_some_iff {strict : Bool} {e : Expr} {c : BuilderChain} :
    chainStart? settings strict e = some c ↔
      e.Begins settings strict c.receiver ∧ c = ⟨c.receiver, e.ty?.bind (·.builder? settings), []⟩ := by
  constructor
  · intro h
    obtain ⟨name, hname, rfl, hb⟩ := chainStart?_eq_some settings h
    refine ⟨⟨hname, fun hs => ?_⟩, rfl⟩
    obtain ⟨builder, hb⟩ := Option.isSome_iff_exists.1 (hb hs)
    obtain ⟨ty, hty⟩ := Expr.typed_iff.1 hb
    exact ⟨ty, builder, hty⟩
  · rintro ⟨⟨hname, hb⟩, hc⟩
    rw [hc, chainStart?, hname]
    cases hty : e.ty?.bind (·.builder? settings) with
    | some builder => rfl
    | none =>
      cases strict with
      | false => rfl
      | true =>
        obtain ⟨ty, builder, hb⟩ := hb rfl
        rw [Expr.typed_iff.2 ⟨ty, hb⟩] at hty
        cases hty

/-- What chain a nest makes. -/
theorem chain?_eq_some_iff {strict : Bool} {e : Expr} {c : BuilderChain} :
    chain? settings strict e = some c ↔
      ∃ base, e.base? = some base ∧ base.Begins settings strict c.receiver ∧
        c = ⟨c.receiver, base.ty?.bind (·.builder? settings),
          e.invocations.map (·.call settings)⟩ := by
  simp only [chain?_eq, Option.bind_eq_some_iff, Option.map_eq_some_iff]
  constructor
  · rintro ⟨base, hbase, start, hstart, rfl⟩
    obtain ⟨hbegins, hstart⟩ := chainStart?_eq_some_iff.1 hstart
    exact ⟨base, hbase, hbegins, by rw [hstart]⟩
  · rintro ⟨base, hbase, hbegins, hc⟩
    exact ⟨base, hbase, ⟨c.receiver, base.ty?.bind (·.builder? settings), []⟩,
      chainStart?_eq_some_iff.2 ⟨hbegins, rfl⟩, hc.symm⟩

/-- A nest makes a chain just if it unravels. -/
theorem exists_chain?_iff {strict : Bool} {e : Expr} {name : String} :
    (∃ c, chain? settings strict e = some c ∧ c.receiver = name) ↔
      e.Unravels settings strict name := by
  constructor
  · rintro ⟨c, hc, rfl⟩
    obtain ⟨base, hbase, hbegins, -⟩ := chain?_eq_some_iff.1 hc
    exact ⟨base, hbase, hbegins⟩
  · rintro ⟨base, hbase, hbegins⟩
    exact ⟨⟨name, _, _⟩, chain?_eq_some_iff.2 ⟨base, hbase, hbegins, rfl⟩, rfl⟩

end BuilderMigration
