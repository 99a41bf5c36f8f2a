/-!
# Severities

The three severities of a finding, ordered from `info` to `error`, with their written names.
-/

set_option autoImplicit false

namespace CostlyCalls

inductive Severity
  | info
  | warning
  | error
  deriving DecidableEq, Repr, Inhabited

namespace Severity

def rank : Severity → Nat
  | .info => 0
  | .warning => 1
  | .error => 2

instance : LE Severity := ⟨fun s t => s.rank ≤ t.rank⟩

instance (s t : Severity) : Decidable (s ≤ t) := inferInstanceAs (Decidable (s.rank ≤ t.rank))

def name : Severity → String
  | .info => "info"
  | .warning => "warning"
  | .error => "error"

def ofName? (text : String) : Option Severity :=
  [Severity.info, .warning, .error].find? (fun s => s.name == text)

structure Unknown where
  text : String
  deriving DecidableEq, Repr

def Unknown.message (fault : Unknown) : String := "Unknown severity: " ++ fault.text

/-- Read a severity in any letter case; `warn` and `deny` are second names. The names are plain
letters, so only the ASCII letters need folding. -/
def parse (text : String) : Except Unknown Severity :=
  let folded := String.ofList (text.toList.map Char.toLower)
  if folded = "info" then .ok .info
  else if folded = "warning" ∨ folded = "warn" then .ok .warning
  else if folded = "error" ∨ folded = "deny" then .ok .error
  else .error ⟨text⟩

theorem le_iff_rank_le {s t : Severity} : s ≤ t ↔ s.rank ≤ t.rank := Iff.rfl

end Severity

end CostlyCalls
