import CostlyCalls.CommandLine
import CostlyCalls.Text.Control

/-!
# Transcripts

What a command writes next to its output: records of the log, lines for the operator, and the
failure. A record may hold any text, so it is written without control sequences, and its further
lines are indented. A transcript is the whole of it as lines, with the lines that begin a record set
apart.
-/

set_option autoImplicit false

namespace CostlyCalls.CommandLine

inductive Piece
  | record (text : String)
  | line (text : String)
  deriving DecidableEq, Repr

namespace Piece

def heading : String := "WARN "

def indentation : Nat := 4

def indented (text : String) : String :=
  String.ofList (text.toList.flatMap fun c =>
    if c = '\n' then c :: List.replicate indentation ' ' else [c])

/-- The text of a piece. Without its control sequences a record may lose the end of its line: then
the next piece continues the line. -/
def written : Piece → String
  | .record text => Text.Control.plain (heading ++ indented text ++ "\n")
  | .line text => text ++ "\n"

end Piece

structure Line where
  isRecord : Bool := false
  text : List Char := []
  deriving DecidableEq, Repr

namespace Line

def continued (line more : Line) : Line :=
  if line.text = [] then more else { line with text := line.text ++ more.text }

def ended (line : Line) : Line :=
  if line.text.getLast? = some '\r' then { line with text := line.text.dropLast } else line

def ofPiece (piece : Piece) : List Line :=
  match Text.split '\n' piece.written.toList with
  | [] => []
  | first :: rest =>
    { isRecord := piece matches .record _, text := first } :: rest.map fun text => { text }

end Line

structure Tape where
  ended : List Line := []
  current : Line := {}
  deriving DecidableEq, Repr

namespace Tape

def feed (tape : Tape) (line : Line) : Tape := ⟨tape.current.ended :: tape.ended, line⟩

def write (tape : Tape) (piece : Piece) : Tape :=
  match Line.ofPiece piece with
  | [] => tape
  | first :: rest => rest.foldl feed { tape with current := tape.current.continued first }

def lines (tape : Tape) : List Line :=
  tape.ended.reverse ++ if tape.current.text = [] then [] else [tape.current]

end Tape

def linesOf (pieces : List Piece) : List Line := (pieces.foldl Tape.write {}).lines

structure Transcript where
  log : List String
  other : List String
  deriving DecidableEq, Repr

def Transcript.ofPieces (pieces : List Piece) : Transcript where
  log := ((linesOf pieces).filter (·.isRecord)).map fun line => String.ofList line.text
  other := ((linesOf pieces).filter (!·.isRecord)).map fun line => String.ofList line.text

/-- What an outcome writes next to its output: warnings, then notes, then the failure, each worded
by the caller. -/
def Outcome.pieces (outcome : Outcome) (event : Event → String) (note : Note → String)
    (failure : Failure → String) : List Piece :=
  ((outcome.log.filter fun e => e.level = .warn).map fun e => .record (event e))
    ++ (outcome.notes.map fun n => .line (note n))
    ++ outcome.failure.toList.map fun f => .line ("Error: " ++ failure f)

end CostlyCalls.CommandLine
