import CostlyCalls.Finding
import CostlyCalls.Text.Style

/-!
# The console report

The findings for a reader: one block for every finding, and a summary with the number of findings
of every severity that occurs. The report is made of styled segments, so that colour is decided
last.
-/

set_option autoImplicit false

namespace CostlyCalls

structure Tally where
  errors : Nat := 0
  warnings : Nat := 0
  infos : Nat := 0
  deriving DecidableEq, Repr

def Tally.add (tally : Tally) : Severity → Tally
  | .error => { tally with errors := tally.errors + 1 }
  | .warning => { tally with warnings := tally.warnings + 1 }
  | .info => { tally with infos := tally.infos + 1 }

def Tally.ofFindings (findings : List Finding) : Tally :=
  findings.foldl (fun tally finding => tally.add finding.severity) {}

namespace Console

open CostlyCalls.Text

def severityColour : Severity → Attribute
  | .error => .red
  | .warning => .yellow
  | .info => .blue

def suggestionLine (suggestion : Option String) : List Segment :=
  match suggestion with
  | none => []
  | some text => [.plain "  ", ⟨[.cyan], "help:"⟩, .plain (" " ++ text ++ "\n")]

def block (finding : Finding) : List Segment :=
  [⟨[.bold, severityColour finding.severity], finding.severity.name⟩, ⟨[.bold], ":"⟩,
    .plain (" " ++ finding.message ++ " "), ⟨[.dimmed], "[" ++ finding.rule.toText ++ "]"⟩,
    .plain "\n  ", ⟨[.blue], "-->"⟩,
    .plain (" " ++ finding.file.text ++ ":" ++ finding.line.toNat.repr ++ ":"
      ++ finding.column.toNat.repr ++ "\n")]
    ++ suggestionLine finding.suggestion ++ [.plain "\n"]

def countSegment (severity : Severity) (noun : String) (count : Nat) : Segment :=
  ⟨[severityColour severity], count.repr ++ " " ++ noun⟩

def summary (tally : Tally) : List Segment :=
  [.plain "\nFound "]
    ++ (if tally.errors > 0 then [countSegment .error "error(s)" tally.errors] else [])
    ++ (if tally.warnings > 0 then
        (if tally.errors > 0 then [.plain ", "] else [])
          ++ [countSegment .warning "warning(s)" tally.warnings]
      else [])
    ++ (if tally.infos > 0 then
        (if tally.errors > 0 ∨ tally.warnings > 0 then [.plain ", "] else [])
          ++ [countSegment .info "info(s)" tally.infos]
      else [])
    ++ [.plain "\n"]

def segments (findings : List Finding) : List Segment :=
  if findings.isEmpty then
    [⟨[.green], "No redundant collection calls found."⟩, .plain "\n"]
  else
    findings.flatMap block ++ summary (.ofFindings findings)

end Console

def Report.console (colour : Bool) (findings : List Finding) : String :=
  Text.renderAll colour (Console.segments findings)

end CostlyCalls
