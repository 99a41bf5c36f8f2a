import CostlyCalls.CommandLine.Arguments
import CostlyCalls.Project
import CostlyCalls.Text.Split

/-!
# Commands

What every command does with a tree of files. A command has an outcome: what it prints, the events
of the run, the failure it ends in, if any, and the files afterwards.
-/

set_option autoImplicit false

namespace CostlyCalls.CommandLine

open CostlyCalls.Text (Segment renderAll)

inductive Failure
  | config (fault : Project.ConfigFault)
  | run (error : Error)
  | ruleId (fault : RuleId.Fault)
  | unknownRule (id : RuleId)
  | unknownName (text : String)
  | findings (count : Nat) (severity : Severity)
  | alreadyExists
  | file (fault : FileFault)
  deriving DecidableEq, Repr

def Failure.message : Failure → String
  | .config fault => fault.message
  | .run error => error.message
  | .ruleId fault => fault.message
  | .unknownRule id => "Unknown rule: " ++ id.toText
  | .unknownName text => "Unknown rule: " ++ text
  | .findings count severity =>
    "Found " ++ count.repr ++ " finding(s) at or above " ++ severity.name ++ " severity"
  | .alreadyExists => configFileName ++ " already exists"
  | .file fault => fault.text

inductive Note
  | text (line : String)
  | analysisTime
  deriving DecidableEq, Repr

structure Outcome where
  output : String := ""
  notes : List Note := []
  log : List Event := []
  failure : Option Failure := none
  files : FileTree
  written : List Path := []

def parseFilterPiece (text : String) : Except Failure RuleId :=
  match RuleId.parse text with
  | .error fault => .error (.ruleId fault)
  | .ok id => if Catalogue.isNamed text then .ok id else .error (.unknownRule id)

def filterPieces (text : String) : List String :=
  ((Text.split ',' text.toList).map fun piece => Text.trim (String.ofList piece)).filter (· ≠ "")

def parseFilter (text : String) : Except Failure (List RuleId) :=
  (filterPieces text).mapM parseFilterPiece

def restrict (engine : Engine) : Option String → Except Failure Engine
  | none => .ok engine
  | some text => (parseFilter text).map engine.restrictTo

/-- The suppressions of a check: from the given file, or else from the file next to the
configuration. -/
def loadSuppressions (files : FileTree) (path : Path) (options : Options) :
    Logged (Except Error (List Suppression)) :=
  match options.suppressions with
  | some file => Project.loadSuppressions files file
  | none => Project.loadSuppressionsIn files (Project.searchDirectory files path)

/-- The configuration and the engine of a check. The configuration is read before the suppressions,
and the engine is built before the filter is read. -/
def prepare (files : FileTree) (path : Path) (options : Options) :
    Logged (Except Failure (Config × Engine)) :=
  ((Project.loadConfigFor files path).map (·.mapError .config)).andThen fun config =>
    ((loadSuppressions files path options).map (·.mapError .run)).andThen fun suppressions =>
      ((Engine.ofConfig config).map (·.mapError .run)).andThen fun engine =>
        ⟨(restrict (engine.withSuppressions suppressions) options.rules).map (config, ·), []⟩

def usesColour (config : Config) (terminal : Bool) : Bool :=
  if config.output.color = "always" then true
  else if config.output.color = "never" then false
  else terminal

/-- The format of a report: the one asked for, or else the configured one. A configured format that
does not exist is reported, and the console format is used. -/
def chooseFormat (options : Options) (config : Config) : Logged Report.Format :=
  match options.format with
  | some format => ⟨format, []⟩
  | none =>
    match Report.Format.ofName? config.output.format with
    | some format => ⟨format, []⟩
    | none => ⟨.console, [.unknownFormat config.output.format]⟩

def timingNotes (colour : Bool) (count : Nat) : List Note :=
  [.text "", .text (Text.paint colour [.bold] "Timing:"), .analysisTime,
    .text ("  Findings:      " ++ count.repr)]

def failureOf (failOn : Option Severity) (findings : List Finding) : Option Failure :=
  match failOn with
  | none => none
  | some severity =>
    let count := findings.countP (fun finding => severity ≤ finding.severity)
    if count = 0 then none else some (.findings count severity)

def report (files : FileTree) (terminal : Bool) (options : Options) (config : Config)
    (findings : List Finding) : Outcome :=
  let shown := findings.filter (fun finding => options.minSeverity ≤ finding.severity)
  let colour := usesColour config terminal
  let format := chooseFormat options config
  { output := Report.print format.value colour shown
    notes := if options.timing then timingNotes colour shown.length else []
    log := format.log
    failure := failureOf options.failOn shown
    files }

def Outcome.after (log : List Event) (outcome : Outcome) : Outcome :=
  { outcome with log := log ++ outcome.log }

def check (files : FileTree) (terminal : Bool) (path : Path) (options : Options) : Outcome :=
  let prepared := prepare files path options
  match prepared.value with
  | .error failure => { log := prepared.log, failure := some failure, files }
  | .ok (config, engine) =>
    let analysis := Project.analyze engine files path (fun _ _ => false)
    match analysis.value with
    | .error error => { log := prepared.log ++ analysis.log, failure := some (.run error), files }
    | .ok findings =>
      (report files terminal options config findings).after (prepared.log ++ analysis.log)

def init (files : FileTree) (path : Path) : Outcome :=
  let target := path.join configFileName
  if files.hasEntry target then { failure := some .alreadyExists, files }
  else
    match files.write target Config.template.toUTF8 with
    | .error fault => { failure := some (.file fault), files }
    | .ok files => { output := "Created " ++ target.text ++ "\n", files, written := [target] }

def ruleLine (rule : Rule) : String :=
  "  " ++ rule.id.toText ++ "  " ++ Text.padTo 26 rule.name ++ " [" ++ rule.severity.name ++ "] "
    ++ rule.description ++ "\n"

def ruleList : String :=
  "Available rules:\n\n" ++ String.join (Catalogue.rules.map ruleLine)
    ++ "\nUse `collection-lint explain <rule-id>` for detailed information.\n"

def titled (colour : Text.Attribute) (heading : String) (lines : List String) : List Segment :=
  [⟨[.bold, colour], heading⟩, .plain ("\n" ++ String.join (lines.map fun l => "  " ++ l ++ "\n"))]

def explanationSegments : Option Explanation → List Segment
  | none => [.plain "No detailed explanation available for this rule.\n"]
  | some explanation =>
    titled .yellow "Why it matters:" (Text.lines explanation.why) ++ [.plain "\n"]
      ++ titled .red "Bad:" (Text.lines explanation.bad) ++ [.plain "\n"]
      ++ titled .green "Good:" (Text.lines explanation.good)

def documentation (rule : Rule) : List Segment :=
  [⟨[.bold, .underline], rule.name⟩, .plain "\nRule ID: ", ⟨[.cyan], rule.id.toText⟩,
    .plain ("\nSeverity: " ++ rule.severity.name ++ "\n\n" ++ rule.description ++ "\n\n")]
    ++ explanationSegments rule.explanation ++ [.plain "\n"]
    ++ titled .yellow "Suppression:" [
      "# " ++ Project.suppressionFileName,
      "[[suppress]]",
      "rule = \"" ++ rule.id.toText ++ "\"",
      "file = \"path/to/File.cs\"",
      "justification = \"...\""]

def unknownNotes (terminal : Bool) (text : String) : List Note :=
  [.text (Text.paint terminal [.bold, .red] "error:" ++ " Unknown rule: " ++ text), .text "",
    .text "Available rules:"]
    ++ Catalogue.rules.map fun rule => .text ("  " ++ rule.id.toText ++ "  " ++ rule.name)

def explain (files : FileTree) (terminal : Bool) (text : String) : Outcome :=
  match Catalogue.named? text with
  | some rule => { output := renderAll terminal (documentation rule), files }
  | none => { notes := unknownNotes terminal text, failure := some (.unknownName text), files }

def versionLine : String := Sarif.toolName ++ " " ++ Sarif.toolVersion ++ "\n"

def usageText : String :=
  "Usage: " ++ Sarif.toolName ++ " [OPTIONS] [check [PATH] | init | rules | explain <RULE_ID>]\n"

def Command.paths : Command → List Path
  | .check path options =>
    let directory := path.parent?.getD path
    [path, directory.join configFileName, directory.join Project.suppressionFileName]
      ++ options.suppressions.toList
  | .init path => [path]
  | .rules | .explain _ => []

/-- Run a command on files. `terminal` tells whether the output is shown on a colour terminal. -/
def run (files : FileTree) (terminal : Bool) : Command → Outcome
  | .check path options => check files terminal path options
  | .init path => init files path
  | .rules => { output := ruleList, files }
  | .explain rule => explain files terminal rule

end CostlyCalls.CommandLine
