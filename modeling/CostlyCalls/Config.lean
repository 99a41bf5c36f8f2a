import CostlyCalls.Event

/-!
# Configurations

A configuration overrides severities of rules, chooses an output format, and names the facade and
the interfaces behind the capabilities.
-/

set_option autoImplicit false

namespace CostlyCalls

inductive Setting
  | deny
  | warn
  | allow
  deriving DecidableEq, Repr

namespace Setting

def name : Setting → String
  | .deny => "deny"
  | .warn => "warn"
  | .allow => "allow"

def ofName? (text : String) : Option Setting :=
  [Setting.deny, .warn, .allow].find? (fun s => s.name == text)

def severity? : Setting → Option Severity
  | .deny => some .error
  | .warn => some .warning
  | .allow => none

end Setting

structure OutputConfig where
  format : String := "console"
  color : String := "auto"
  deriving DecidableEq, Repr

structure SemanticsConfig where
  facade : String := "System.Linq.Enumerable"
  capabilities : CapabilityNames := {}
  deriving DecidableEq, Repr

/-- A configuration. The rules section is a finite map; the order of its list has no meaning. -/
structure Config where
  rules : List (String × Setting) := []
  output : OutputConfig := {}
  semantics : SemanticsConfig := {}
  deriving DecidableEq, Repr

namespace Config

/-- Put a key behind the others that denote the rule. The rules are kept in ascending order. -/
def addSpelling (id : RuleId) (key : String) :
    List (RuleId × List String) → List (RuleId × List String)
  | [] => [(id, [key])]
  | (first, keys) :: rest =>
    if id = first then (first, keys ++ [key]) :: rest
    else if id.number < first.number then (id, [key]) :: (first, keys) :: rest
    else (first, keys) :: addSpelling id key rest

def collect (groups : List (RuleId × List String)) (key : String) : List (RuleId × List String) :=
  match RuleId.parse? key with
  | some id => addSpelling id key groups
  | none => groups

def spellings (keys : List String) : List (RuleId × List String) := keys.foldl collect []

structure Ambiguity where
  id : RuleId
  keys : List String
  deriving DecidableEq, Repr

def Ambiguity.message (ambiguity : Ambiguity) : String :=
  "Rule " ++ ambiguity.id.toText ++ " is configured more than once in [rules]: "
    ++ String.intercalate ", " ambiguity.keys

def ambiguity? (rules : List (String × Setting)) : Option Ambiguity :=
  ((spellings (rules.map Prod.fst)).find? fun group => 1 < group.2.length).map fun group =>
    ⟨group.1, group.2.mergeSort (· ≤ ·)⟩

def unknownKeys (rules : List (String × Setting)) : List String :=
  (rules.map Prod.fst).filter (fun key => !Catalogue.isNamed key)

def validate (config : Config) : Logged (Except Ambiguity Config) :=
  ⟨match ambiguity? config.rules with
    | some ambiguity => .error ambiguity
    | none => .ok config,
    (unknownKeys config.rules).map .unknownConfigured⟩

def minEntry (a b : String × Setting) : String × Setting := if b.1 < a.1 then b else a

/-- The setting of a rule: that of the smallest key that denotes it. -/
def setting? (config : Config) (id : RuleId) : Option Setting :=
  match config.rules.filter (fun r => RuleId.parse? r.1 = some id) with
  | [] => none
  | first :: rest => some (rest.foldl minEntry first).2

def severity? (config : Config) (id : RuleId) (default : Severity) : Option Severity :=
  match config.setting? id with
  | some setting => setting.severity?
  | none => some default

def templateLines : List String :=
  ["# collection-lint configuration",
    "",
    "[rules]",
    "# Set rule severity: \"deny\" (error), \"warn\" (warning), \"allow\" (ignore)",
    "# COL0010 = \"deny\"   # contains-on-sequence",
    "# COL1004 = \"allow\"  # to-list-on-non-list",
    "",
    "[output]",
    "format = \"console\"  # \"console\", \"json\", \"sarif\"",
    "color = \"auto\"      # \"auto\", \"always\", \"never\"",
    "",
    "[semantics]",
    "facade = \"System.Linq.Enumerable\"",
    "",
    "[semantics.capabilities]",
    "iterable = \"System.Collections.IEnumerable\"",
    "countable = \"System.Collections.ICollection\"",
    "indexed = \"System.Collections.IList\""]

def template : String := String.join (templateLines.map (· ++ "\n"))

end Config

end CostlyCalls
