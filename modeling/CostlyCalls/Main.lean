import CostlyCalls.CommandLine.Transcript

/-!
# The command line

Reads the files that a command looks at, runs the command on them, prints what it says and writes
what it has written.
-/

set_option autoImplicit false

namespace CostlyCalls.Main

def typeAt (path : String) : IO (Option IO.FS.FileType) := do
  try
    return some (← ((← IO.currentDir) / path).symlinkMetadata).type
  catch _ =>
    return none

def isRead (path : Path) : Bool :=
  path.isSnapshot || path.fileName? == some configFileName
    || path.fileName? == some Project.suppressionFileName

partial def readEntry (path : Path) : IO (Option Entry) := do
  match ← typeAt path.text with
  | some .file => return some (.file (← IO.FS.readBinFile path.text))
  | some .dir =>
    let mut children := []
    for entry in ← ((← IO.currentDir) / path.text).readDir do
      let child := path.join entry.fileName
      let type ← typeAt child.text
      if (type == some .dir && !Discovery.isSkipped entry.fileName) || isRead child then
        if let some content ← readEntry child then
          children := (entry.fileName, content) :: children
    return some (.directory children)
  | some .symlink =>
    try
      return some (.link ⟨(← IO.FS.realPath path.text).toString⟩)
    catch _ =>
      return none
  | _ => return none

def capture (tree : FileTree) (path : Path) : IO FileTree := do
  match ← readEntry path with
  | none => return tree
  | some (.link target) =>
    let tree := tree.create path (.link target)
    match ← readEntry target with
    | none => return tree
    | some entry => return tree.create target entry
  | some entry => return tree.create path entry

def captureAll (paths : List Path) : IO FileTree := do
  let current := Path.mk (← IO.currentDir).toString
  let empty : FileTree := { current := FileTree.namesOf current }
  let mut tree := empty.create current (.directory [])
  for path in paths do
    tree ← capture tree path
  return tree

def noteText (nanoseconds : Nat) : CommandLine.Note → String
  | .text line => line
  | .analysisTime => "  Analysis time: " ++ (nanoseconds / 1000).repr ++ "µs"

def execute (command : CommandLine.Command) : IO UInt32 := do
  let output ← IO.getStdout
  let tree ← captureAll command.paths
  let start ← IO.monoNanosNow
  let outcome := CommandLine.run tree (← output.isTty) command
  output.putStr outcome.output
  for path in outcome.written do
    if let .ok (.file content) := outcome.files.get .target path then
      IO.FS.writeBinFile path.text content
  let elapsed := (← IO.monoNanosNow) - start
  for piece in outcome.pieces Event.text (noteText elapsed) CommandLine.Failure.message do
    IO.eprint piece.written
  return if outcome.failure.isSome then 1 else 0

end CostlyCalls.Main

open CostlyCalls in
def main (arguments : List String) : IO UInt32 := do
  match CommandLine.parse arguments with
  | .ok command => Main.execute command
  | .error .version =>
    IO.print CommandLine.versionLine
    return 0
  | .error .help =>
    IO.print CommandLine.usageText
    return 0
  | .error .usage =>
    IO.eprint CommandLine.usageText
    return 2
