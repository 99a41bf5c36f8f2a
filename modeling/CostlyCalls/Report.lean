import CostlyCalls.Report.Console
import CostlyCalls.Report.Json
import CostlyCalls.Report.Sarif

/-!
# Reports

The formats in which findings can be printed.
-/

set_option autoImplicit false

namespace CostlyCalls.Report

inductive Format
  | console
  | json
  | sarif
  deriving DecidableEq, Repr

namespace Format

def name : Format → String
  | .console => "console"
  | .json => "json"
  | .sarif => "sarif"

def ofName? (text : String) : Option Format :=
  [Format.console, .json, .sarif].find? (fun format => format.name == text)

end Format

def print (format : Format) (colour : Bool) (findings : List Finding) : String :=
  match format with
  | .console => console colour findings
  | .json => json findings ++ "\n"
  | .sarif => sarif findings ++ "\n"

end CostlyCalls.Report
