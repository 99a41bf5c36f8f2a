import CostlyCalls.Path
import CostlyCalls.Report

/-!
# Command-line arguments

The arguments name a command, options and operands. Options are accepted before and after the
command; the path and the version only before it. An option may be given once before and once after
the command, and then the later one holds. Reading takes one argument at a time, so that a request
for the version or for help is answered before anything behind it is looked at. A value that stands
apart from its option is looked at only when the reading on its side of the command goes on.
-/

set_option autoImplicit false

namespace CostlyCalls.CommandLine

inductive CommandName
  | check
  | init
  | rules
  | explain
  deriving DecidableEq, Repr

def CommandName.ofText? : String → Option CommandName
  | "check" => some .check
  | "init" => some .init
  | "rules" => some .rules
  | "explain" => some .explain
  | _ => none

inductive Switch
  | path
  | format
  | minSeverity
  | failOn
  | rules
  | suppressions
  | timing
  | version
  | help
  deriving DecidableEq, Repr

namespace Switch

def ofLong? : String → Option Switch
  | "path" => some .path
  | "format" => some .format
  | "min-severity" => some .minSeverity
  | "fail-on" => some .failOn
  | "rules" => some .rules
  | "suppressions" => some .suppressions
  | "timing" => some .timing
  | "version" => some .version
  | "help" => some .help
  | _ => none

def ofLetter? : Char → Option Switch
  | 'p' => some .path
  | 'f' => some .format
  | 'V' => some .version
  | 'h' => some .help
  | _ => none

def isLeading : Switch → Bool
  | .path | .version => true
  | _ => false

end Switch

structure Given where
  path : Option Path := none
  format : Option Report.Format := none
  minSeverity : Option Severity := none
  failOn : Option Severity := none
  rules : Option String := none
  suppressions : Option Path := none
  timing : Bool := false
  deriving DecidableEq, Repr

def path? (text : String) : Option Path := if text = "" then none else some ⟨text⟩

def once {α : Type} (old new : Option α) : Option (Option α) :=
  if old.isSome then none else new.map some

namespace Given

def assign (given : Given) (switch : Switch) (text : String) : Option Given :=
  match switch with
  | .path => do return { given with path := ← once given.path (path? text) }
  | .format => do return { given with format := ← once given.format (Report.Format.ofName? text) }
  | .minSeverity => do
    return { given with minSeverity := ← once given.minSeverity (Severity.ofName? text) }
  | .failOn => do return { given with failOn := ← once given.failOn (Severity.ofName? text) }
  | .rules => do return { given with rules := ← once given.rules (some text) }
  | .suppressions => do
    return { given with suppressions := ← once given.suppressions (path? text) }
  | .timing | .version | .help => none

def merge (outer inner : Given) : Given where
  path := outer.path
  format := inner.format.or outer.format
  minSeverity := inner.minSeverity.or outer.minSeverity
  failOn := inner.failOn.or outer.failOn
  rules := inner.rules.or outer.rules
  suppressions := inner.suppressions.or outer.suppressions
  timing := inner.timing || outer.timing

end Given

structure Options where
  format : Option Report.Format := none
  minSeverity : Severity := .info
  failOn : Option Severity := none
  rules : Option String := none
  suppressions : Option Path := none
  timing : Bool := false
  deriving DecidableEq, Repr

def Options.ofGiven (given : Given) : Options where
  format := given.format
  minSeverity := given.minSeverity.getD .info
  failOn := given.failOn
  rules := given.rules
  suppressions := given.suppressions
  timing := given.timing

inductive Command
  | check (path : Path) (options : Options)
  | init (path : Path)
  | rules
  | explain (rule : String)
  deriving DecidableEq, Repr

inductive Interrupt
  | usage
  | version
  | help
  deriving DecidableEq, Repr

inductive Word
  /-- Everything behind it is an operand. -/
  | divider
  | long (name : String) (value : Option String)
  | letter (letter : Char) (attached : String)
  | plain (text : String)
  deriving DecidableEq, Repr

def divide (cs : List Char) : String × Option String :=
  match cs.dropWhile (· ≠ '=') with
  | [] => (String.ofList cs, none)
  | _ :: value => (String.ofList (cs.takeWhile (· ≠ '=')), some (String.ofList value))

def Word.ofText (text : String) : Word :=
  match text.toList with
  | ['-', '-'] => .divider
  | '-' :: '-' :: rest => .long (divide rest).1 (divide rest).2
  | '-' :: c :: attached => .letter c (String.ofList attached)
  | _ => .plain text

structure State where
  command : Option CommandName := none
  outer : Given := {}
  inner : Given := {}
  operand : Option String := none
  pending : Option Switch := none
  held : Option (Switch × String) := none
  /-- Whether the last option before the command is refused, which counts once all is read. -/
  refused : Bool := false
  divided : Bool := false
  deriving DecidableEq, Repr

namespace State

def given (state : State) : Given := if state.command.isSome then state.inner else state.outer

def withGiven (state : State) (given : Given) : State :=
  if state.command.isSome then { state with inner := given } else { state with outer := given }

def assign (state : State) (switch : Switch) (text : String) : Except Interrupt State :=
  match state.given.assign switch text with
  | some given => .ok (state.withGiven given)
  | none => .error .usage

def settle (state : State) : Except Interrupt State :=
  match state.held with
  | some (switch, text) => { state with held := none }.assign switch text
  | none => .ok state

def switch (state : State) (switch : Switch) (value : Option String) : Except Interrupt State := do
  let state ← state.settle
  if state.command.isSome && switch.isLeading then .error .usage
  else
    match switch, value with
    | .version, none => .error .version
    | .help, none => .error .help
    | .timing, none =>
      if state.given.timing then .error .usage
      else .ok (state.withGiven { state.given with timing := true })
    | switch, some text => state.assign switch text
    | switch, none => .ok { state with pending := some switch }

def attachedValue (switch : Switch) (attached : String) : Option String :=
  if switch = .version ∨ switch = .help then none
  else
    match attached.toList with
    | [] => none
    | '=' :: rest => some (String.ofList rest)
    | _ => some attached

def take (state : State) (text : String) : Except Interrupt State := do
  let state ← state.settle
  match state.command, state.operand with
  | some .check, none =>
    if text = "" then .error .usage else .ok { state with operand := some text }
  | some .explain, none => .ok { state with operand := some text }
  | _, _ => .error .usage

def enter (state : State) (command : CommandName) : State :=
  match state.settle with
  | .ok state => { state with command := some command }
  | .error _ => { state with command := some command, held := none, refused := true }

def plain (state : State) (text : String) : Except Interrupt State :=
  if state.command.isSome then state.take text
  else
    match CommandName.ofText? text with
    | some command => .ok (state.enter command)
    | none => .error .usage

def step (state : State) (text : String) : Except Interrupt State :=
  if state.divided then state.take text
  else
    match state.pending, Word.ofText text with
    | some switch, .plain text => .ok { state with pending := none, held := some (switch, text) }
    | some _, _ => .error .usage
    | none, .divider => .ok { state with divided := true }
    | none, .long name value =>
      match Switch.ofLong? name with
      | some switch => state.switch switch value
      | none => .error .usage
    | none, .letter letter attached =>
      match Switch.ofLetter? letter with
      | some switch => state.switch switch (attachedValue switch attached)
      | none => .error .usage
    | none, .plain text => state.plain text

def leadingPath (state : State) : Path := state.outer.path.getD ⟨"."⟩

def options (state : State) : Options := .ofGiven (state.outer.merge state.inner)

def finish (state : State) : Except Interrupt Command := do
  let state ← state.settle
  if state.pending.isSome || state.refused then .error .usage
  else
    match state.command with
    | none => .ok (.check state.leadingPath state.options)
    | some .check => .ok (.check ⟨state.operand.getD "."⟩ state.options)
    | some .init => .ok (.init state.leadingPath)
    | some .rules => .ok .rules
    | some .explain =>
      match state.operand with
      | some rule => .ok (.explain rule)
      | none => .error .usage

end State

def helpName : String := "help"

def State.asksHelp (state : State) (text : String) : Bool :=
  state.command.isNone && state.pending.isNone && !state.divided && text == helpName

def isTopic (text : String) : Bool := (CommandName.ofText? text).isSome || text == helpName

/-- What a request for help leads to. It takes all arguments behind it, and there may be one
topic. -/
def helpOn : (arguments : List String) → Interrupt
  | [] => .help
  | [text] => if isTopic text then .help else .usage
  | _ => .usage

def State.read : State → (arguments : List String) → Except Interrupt Command
  | state, [] => state.finish
  | state, text :: rest =>
    if state.asksHelp text then .error (helpOn rest)
    else
      match state.step text with
      | .ok state => state.read rest
      | .error interrupt => .error interrupt

def parse (arguments : List String) : Except Interrupt Command := State.read {} arguments

end CostlyCalls.CommandLine
