import BuilderMigration.Settings.Basic
import BuilderMigration.Tree.Ty

/-! Which types are builders. -/

namespace BuilderMigration.Ty

/-- The builder that a type is, under any references: a nominal type defined in the builder module
or below it. -/
def builder? (settings : Settings) (ty : Ty) : Option String :=
  match ty.stripRefs with
  | .adt (crate :: scope :: name :: names) =>
    if crate = settings.builderCrate ∧ scope = settings.builderModule then
      some ((name :: names).getLastD name)
    else none
  | _ => none

/-- The builder that a type is a mutable reference to. -/
def mutBuilder? (settings : Settings) : Ty → Option String
  | .ref inner true => inner.builder? settings
  | _ => none

end BuilderMigration.Ty
