import CostlyCalls.Event
import CostlyCalls.FileTree

/-!
# Discovering snapshots

A snapshot file has a name that ends in `.semantic.json` after at least one character. Discovery
lists the snapshot files at or below a path. It does not enter hidden directories, directories of
build output and dependencies, or links; the starting point itself is always entered, also through
a link to a directory.
-/

set_option autoImplicit false

namespace CostlyCalls

def snapshotSuffix : String := ".semantic.json"

def Path.isSnapshot (path : Path) : Bool :=
  match path.fileName? with
  | none => false
  | some name =>
    snapshotSuffix.toList.isSuffixOf name.toList && snapshotSuffix.length < name.length

namespace Discovery

def sizeLimit : Nat := 10485760

def skippedNames : List String :=
  ["bin", "obj", "target", "node_modules", "packages", "vendor", "third_party", "dist", "out"]

def isSkipped (name : String) : Bool :=
  name.toList.head? == some '.' || skippedNames.contains name

structure Options where
  maxSize : Option Nat := none
  regularOnly : Bool := false
  deriving DecidableEq, Repr

def Options.secure : Options := ⟨some sizeLimit, true⟩

mutual

def candidates (path : Path) : Entry → List (Path × Entry)
  | .file content => if path.isSnapshot then [(path, .file content)] else []
  | .directory children => if path.isTooLong then [] else candidatesIn path children
  | .link _ => []

def candidatesIn (path : Path) : List (String × Entry) → List (Path × Entry)
  | [] => []
  | (name, entry) :: rest =>
    (if entry.isDirectory && isSkipped name then [] else candidates (path.join name) entry)
      ++ candidatesIn path rest

end

/-- The snapshot files at or below a path. A link is entered only if it leads to a directory. -/
def candidatesFrom (tree : FileTree) (root : Path) : List (Path × Entry) :=
  match tree.get .entry root with
  | .ok (.link _) =>
    match tree.get .target root with
    | .ok (.directory children) => candidatesIn root children
    | _ => []
  | .ok entry => candidates root entry
  | .error _ => []

def Options.areOpen (options : Options) : Bool := !options.regularOnly && options.maxSize.isNone

def vet (options : Options) (file : Path × Entry) : Logged (Option Path) :=
  if options.areOpen then ⟨some file.1, []⟩
  else if file.1.isTooLong then ⟨none, [.unreachable file.1 .nameTooLong]⟩
  else if options.regularOnly && !file.2.isFile then ⟨none, []⟩
  else
    match options.maxSize with
    | none => ⟨some file.1, []⟩
    | some limit =>
      if limit < file.2.size then ⟨none, [.oversized file.1 file.2.size limit]⟩
      else ⟨some file.1, []⟩

/-- The snapshot files at or below a path that pass the options, in the order of paths. They are
decided about, and reported, in the order of the walk. -/
def discover (tree : FileTree) (root : Path) (options : Options) : Logged (List Path) :=
  let vetted := (candidatesFrom tree root).map (vet options)
  let kept := (vetted.filterMap Logged.value).mergeSort Path.le
  ⟨kept, vetted.flatMap Logged.log ++ [.discovered kept.length root]⟩

end Discovery

end CostlyCalls
