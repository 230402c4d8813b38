import SqlLayout.Equivalence
import SqlLayout.Folder
import SqlLayout.Glob.Exclude
import SqlLayout.Glob.PathPattern
import SqlLayout.Style

/-!
The causes for which an operation fails, and their wording.
-/

namespace SqlLayout

/-- Why an operation failed. -/
inductive Error where
  /-- A property in the namespace of the style settings that is none of them. -/
  | unknownProperty (key : Text)
  /-- A settings file that was asked for and does not exist. -/
  | settingsMissing (path : Text)
  /-- A path argument that is no valid pattern. -/
  | invalidPattern (pattern : Text) (fault : Glob.PatternFault)
  | invalidOption (fault : OptionFault)
  /-- The layout changed more than white space and case. -/
  | notEquivalent (mismatch : Mismatch)
  | unreadable (fault : ReadFault)
  /-- A settings file that is no valid TOML, or whose values have the wrong types. -/
  | invalidToml
  | invalidGlob (glob : Text) (fault : Glob.ExcludeFault)
  /-- The walk over the tokens ran past the last one: no error that is told, but a crash. -/
  | walkOverrun
  deriving DecidableEq, Repr

namespace Error

/-- The wording of an error.  A crash has none. -/
def message : Error → Text
  | .unknownProperty key =>
    "sqltidy config error: Unknown formatter property: ".toList ++ key
  | .settingsMissing path => "sqltidy config error: Config file not found: ".toList ++ path
  | .invalidPattern pattern fault =>
    "sqltidy config error: Invalid path pattern ".toList ++ pattern ++ ": ".toList ++ fault.message
  | .invalidOption fault => "sqltidy config error: ".toList ++ fault.message
  | .notEquivalent mismatch => "sqltidy equivalence error: ".toList ++ mismatch.message
  | .unreadable fault => "IO error: ".toList ++ fault.message
  | .invalidToml => "TOML parse error: invalid document".toList
  | .invalidGlob glob fault =>
    "invalid glob pattern: error parsing glob '".toList ++ glob ++ "': ".toList ++ fault.message
  | .walkOverrun => []

/-- The wording of an error followed by that of its cause, where it has one. -/
def chain (e : Error) : Text :=
  match e with
  | .unreadable fault => e.message ++ ": ".toList ++ fault.message
  | _ => e.message

end Error

end SqlLayout
