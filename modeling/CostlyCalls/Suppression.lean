import CostlyCalls.Event
import CostlyCalls.Text.Blank

/-!
# Suppressions

A suppression hides the findings of one rule, perhaps only in some files or on one line. The file of
a suppression is compared with the end of a finding's path, component by component.
-/

set_option autoImplicit false

namespace CostlyCalls

structure Suppression where
  rule : RuleId
  file : Option Path := none
  line : Option UInt64 := none
  justification : Option String := none
  deriving DecidableEq, Repr

namespace Suppression

def covers (entry : Suppression) (finding : Finding) : Bool :=
  entry.rule == finding.rule && entry.file.all finding.file.endsWith
    && entry.line.all (· == finding.line)

def hides (entries : List Suppression) (finding : Finding) : Bool :=
  entries.any (fun entry => entry.covers finding)

structure Raw where
  rule : String
  file : Option Path := none
  line : Option UInt64 := none
  justification : Option String := none
  deriving DecidableEq, Repr

def Raw.isUnjustified (raw : Raw) : Bool := raw.justification.all Text.isBlankText

def Raw.check (origin : Path) (raw : Raw) : Logged (Option Suppression) :=
  match RuleId.parse raw.rule with
  | .error fault => ⟨none, [.malformedSuppressed fault origin]⟩
  | .ok id =>
    if Catalogue.isNamed raw.rule then
      ⟨some ⟨id, raw.file, raw.line, raw.justification⟩,
        if raw.isUnjustified then [.unjustified id origin] else []⟩
    else
      ⟨none, [.unknownSuppressed raw.rule origin]⟩

def ofRaws (origin : Path) (raws : List Raw) : Logged (List Suppression) :=
  ⟨raws.filterMap (fun raw => (raw.check origin).value),
    raws.flatMap (fun raw => (raw.check origin).log)⟩

end Suppression

end CostlyCalls
