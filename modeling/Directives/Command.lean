import Directives.Duration

/-! The commands of the program, as they are asked for. -/
namespace Directives

/-- What resolution is bound by: a time limit, and whether Vault is left out. -/
structure Command.Limits where
  timeout : Option Duration := none
  withoutVault : Bool := false
  deriving DecidableEq

/-- A command. A format is named by any text; whether there is such a format is found out when the
result is written. -/
inductive Command
  /-- Show the whole resolved file, or save it under another path. -/
  | resolve (file format : String) (output : Option String) (limits : Command.Limits)
  /-- Show the value at a place in the resolved file, or a default where there is none. -/
  | get (file path format : String) (default : Option String) (limits : Command.Limits)
  /-- Say whether files can be read, without resolving them. -/
  | check (files : List String)
  | version
  | help
  deriving DecidableEq

end Directives
