import CostlyCalls.Config.FromToml
import CostlyCalls.Discovery
import CostlyCalls.Engine
import CostlyCalls.Snapshot.FromJson
import CostlyCalls.Suppression.FromToml

/-!
# Projects

A project is a tree of files with snapshots, perhaps a configuration and perhaps suppressions. This
module reads these files and analyses all snapshots below a path.
-/

set_option autoImplicit false

namespace CostlyCalls.Project

def suppressionFileName : String := "collection-lint.suppressions.toml"

def configSizeLimit : Nat := 1048576

def readFile (tree : FileTree) (path : Path) : Except FileFault String :=
  match tree.get .target path with
  | .error fault => .error fault
  | .ok (.file content) =>
    if Discovery.sizeLimit < content.size then
      .error (.tooLarge content.size Discovery.sizeLimit)
    else
      match String.fromUTF8? content with
      | some text => .ok text
      | none => .error .notUtf8
  | .ok _ => .error .notRegular

def read (tree : FileTree) (path : Path) : Except Error String :=
  (readFile tree path).mapError (.file path)

def loadSnapshot (tree : FileTree) (path : Path) : Except Error (Arena × Model) := do
  let text ← read tree path
  match Snapshot.parse? text with
  | none => .error (.parse path .malformed)
  | some snapshot => snapshot.load.mapError fun fault => .parse path (.arena fault)

def searchDirectory (tree : FileTree) (path : Path) : Path :=
  match path.parent? with
  | some parent => if tree.hasFile path then parent else path
  | none => path

inductive ConfigFault
  | missing (path : Path)
  | tooLarge (path : Path) (size : Nat)
  | file (fault : FileFault)
  | content (path : Path) (fault : Config.Fault)
  deriving DecidableEq, Repr

def ConfigFault.message : ConfigFault → String
  | .missing path => "Path does not exist: " ++ path.text
  | .tooLarge path size =>
    "Config file too large (" ++ size.repr ++ " bytes, max " ++ configSizeLimit.repr ++ " bytes): "
      ++ path.text
  | .file fault => fault.text
  | .content path _ => "in " ++ path.text

def readConfig (tree : FileTree) (path : Path) : Except ConfigFault String :=
  match tree.get .target path with
  | .error fault => .error (.file fault)
  | .ok (.file content) =>
    if configSizeLimit < content.size then .error (.tooLarge path content.size)
    else
      match String.fromUTF8? content with
      | some text => .ok text
      | none => .error (.file .notUtf8)
  | .ok _ => .error (.file .isDirectory)

def loadConfig (tree : FileTree) (path : Path) : Logged (Except ConfigFault Config) :=
  match readConfig tree path with
  | .error fault => ⟨.error fault, []⟩
  | .ok text =>
    Logged.andThen ((Config.parse text).map (·.mapError (.content path)))
      fun config => ⟨.ok config, [.configLoaded path]⟩

def loadConfigFor (tree : FileTree) (path : Path) : Logged (Except ConfigFault Config) :=
  if tree.hasEntry path then
    if tree.hasFile ((searchDirectory tree path).join configFileName) then
      loadConfig tree ((searchDirectory tree path).join configFileName)
    else
      ⟨.ok {}, []⟩
  else
    ⟨.error (.missing path), []⟩

def loadSuppressions (tree : FileTree) (path : Path) :
    Logged (Except Error (List Suppression)) :=
  match read tree path with
  | .error error => ⟨.error error, []⟩
  | .ok text => Suppression.parse text path

def loadSuppressionsIn (tree : FileTree) (directory : Path) :
    Logged (Except Error (List Suppression)) :=
  if tree.hasFile (directory.join suppressionFileName) then
    loadSuppressions tree (directory.join suppressionFileName)
  else
    ⟨.ok [], []⟩

def analyzeFile (engine : Engine) (tree : FileTree) (path : Path) (halt : Nat → Bool) :
    Logged (Except Error (List Finding)) :=
  match loadSnapshot tree path with
  | .error error => ⟨.error error, []⟩
  | .ok (arena, model) =>
    let run := engine.analyze arena model halt
    ⟨match run.findings with
      | some findings => .ok findings
      | none => .error .cancelled,
      .analyzing path arena.nodes.length :: run.log⟩

/-- Analyse one of many files: the host is asked once before the file (`halt 0`), and then before
every node. -/
def analyzeOne (engine : Engine) (tree : FileTree) (path : Path) (halt : Nat → Bool) :
    Logged (Except Error (List Finding)) :=
  if halt 0 then ⟨.error .cancelled, []⟩
  else analyzeFile engine tree path (fun i => halt (i + 1))

/-- Put the results of files together, in order. A file that could not be analysed is reported and
left out; a stopped one stops everything. -/
def collect : List (Path × Except Error (List Finding)) → Logged (Except Error (List Finding))
  | [] => ⟨.ok [], []⟩
  | (_, .ok findings) :: rest => (collect rest).map (·.map (findings ++ ·))
  | (_, .error .cancelled) :: _ => ⟨.error .cancelled, []⟩
  | (path, .error error) :: rest =>
    ⟨(collect rest).value, .failed path error :: (collect rest).log⟩

/-- Analyse files. `halt n i` is the answer of the host to question `i` about the file at position
`n`; as the files do not depend on each other, they may be analysed in any order. -/
def analyzeFiles (engine : Engine) (tree : FileTree) (halt : Nat → Nat → Bool)
    (files : List Path) : Logged (Except Error (List Finding)) :=
  let results := files.mapIdx fun n path => (path, analyzeOne engine tree path (halt n))
  let collected := collect (results.map fun r => (r.1, r.2.value))
  ⟨collected.value, results.flatMap (fun r => r.2.log) ++ collected.log⟩

def analyze (engine : Engine) (tree : FileTree) (root : Path) (halt : Nat → Nat → Bool) :
    Logged (Except Error (List Finding)) :=
  (Discovery.discover tree root .secure).bind (analyzeFiles engine tree halt)

end CostlyCalls.Project
