/-! The settings of a migration. -/

namespace BuilderMigration

/-- Checked settings. Tables keep the order of their keys. -/
structure Settings where
  /-- The crate and the module directly under it in which the builders are defined. -/
  builderCrate : String := "serenity"
  builderModule : String := "builder"
  /-- Whether a chain of calls is followed only from a receiver known to be a builder. -/
  strictReceivers : Bool := true
  /-- Whether every setter goes on a line of its own. -/
  multiline : Bool := false
  /-- Stands in for source text that cannot be recovered. -/
  placeholder : String := "todo!()"
  /-- Required fields of builders, which replace those built in. -/
  requiredFields : List (String × List String) := []
  /-- Builders of closures passed to `method` or `Receiver.method`, beside those built in. -/
  closureSignatures : List (String × String) := []
  /-- Patterns of the files that a scan of a directory leaves out. -/
  exclude : List String := []
  deriving DecidableEq

end BuilderMigration
