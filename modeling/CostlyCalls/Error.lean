import CostlyCalls.Arena
import CostlyCalls.Capability
import CostlyCalls.Registry

/-!
# Errors

The causes for which a run or its preparation fails, and their wording.
-/

set_option autoImplicit false

namespace CostlyCalls

inductive FileFault
  | notFound
  | notDirectory
  | isDirectory
  | linkLoop
  | nameTooLong
  /-- A path holds the character that ends a path for a file system. -/
  | nulInPath
  | notRegular
  | tooLarge (size limit : Nat)
  | notUtf8
  | other (text : String)
  deriving DecidableEq, Repr

namespace FileFault

def text : FileFault → String
  | .notFound => "No such file or directory (os error 2)"
  | .notDirectory => "Not a directory (os error 20)"
  | .isDirectory => "Is a directory (os error 21)"
  | .linkLoop => "Too many levels of symbolic links (os error 40)"
  | .nameTooLong => "File name too long (os error 36)"
  | .nulInPath => "file name contained an unexpected NUL byte"
  | .notRegular => "not a regular file"
  | .tooLarge size limit =>
    "file too large: " ++ size.repr ++ " bytes (max: " ++ limit.repr ++ " bytes)"
  | .notUtf8 => "stream did not contain valid UTF-8"
  | .other text => text

end FileFault

inductive ContentFault
  | malformed
  | arena (fault : Arena.Fault)
  | other (text : String)
  deriving DecidableEq, Repr

def ContentFault.text : ContentFault → String
  | .malformed => "malformed document"
  | .arena fault => fault.message
  | .other text => text

inductive SettingFault
  | blankInterface (capability : Capability)
  | blankFacade
  | other (text : String)
  deriving DecidableEq, Repr

def SettingFault.text : SettingFault → String
  | .blankInterface capability =>
    "capability '" ++ capability.name ++ "' has an empty interface name"
  | .blankFacade => "semantics.facade must not be empty"
  | .other text => text

inductive Error
  | parse (path : Path) (fault : ContentFault)
  | file (path : Path) (fault : FileFault)
  | config (fault : SettingFault)
  | repeatedRule (id : RuleId) (existing rejected : String)
  | sharedInterface (first second : Capability) (interface : String)
  | cancelled
  | ruleOutOfRange (number : UInt16) (rule : String)
  deriving DecidableEq, Repr

namespace Error

def message : Error → String
  | .parse path fault => "Failed to parse " ++ path.text ++ ": " ++ fault.text
  | .file path fault => "IO error for " ++ path.text ++ ": " ++ fault.text
  | .config fault => "Configuration error: " ++ fault.text
  | .repeatedRule id existing rejected =>
    "Rule id " ++ id.toText ++ " is already registered (by '" ++ existing ++ "', rejected '"
      ++ rejected ++ "')"
  | .sharedInterface first second interface =>
    "Capabilities " ++ first.name ++ " and " ++ second.name ++ " are both defined by interface '"
      ++ interface ++ "'"
  | .cancelled => "Analysis cancelled"
  | .ruleOutOfRange number rule =>
    "Rule '" ++ rule ++ "' has id " ++ number.toNat.repr ++ ", above the largest rule id "
      ++ RuleId.maxNumber.repr

def ofRegistry : Registry.Fault → Error
  | .outOfRange number rule => .ruleOutOfRange number rule
  | .repeated id existing rejected => .repeatedRule id existing rejected

def ofCapabilities : CapabilityNames.Fault → Error
  | .blank capability => .config (.blankInterface capability)
  | .shared first second interface => .sharedInterface first second interface

end Error

end CostlyCalls
