import CostlyCalls.Error

/-!
# File trees

A tree of directories, files and symbolic links, with a place that relative paths start from.
`FileTree.locate` follows a path as a file system does: every name is looked up in a directory, an
empty piece and a dot ask for a directory and stay there, and a link continues with its target. A
lookup follows at most `FileTree.linkLimit` links. Paths and names have greatest lengths, counted in
bytes: a path that is too long is refused at once, and a name when it is looked up. Names are texts:
a tree in which some name is no UTF-8 has no counterpart here.
-/

set_option autoImplicit false

namespace CostlyCalls

inductive Entry
  | file (content : ByteArray)
  | directory (children : List (String × Entry))
  | link (target : Path)
  deriving Inhabited

namespace Entry

def isDirectory : Entry → Bool
  | .directory _ => true
  | _ => false

def isFile : Entry → Bool
  | .file _ => true
  | _ => false

def size : Entry → Nat
  | .file content => content.size
  | _ => 0

def child? : Entry → String → Option Entry
  | .directory children, name => children.lookup name
  | _, _ => none

/-- The entry at a location, given by the names on the way to it. Links are not followed. -/
def at? (entry : Entry) : List String → Option Entry
  | [] => some entry
  | name :: rest => (entry.child? name).bind (·.at? rest)

def setChild (name : String) (entry : Entry) : List (String × Entry) → List (String × Entry)
  | [] => [(name, entry)]
  | (other, old) :: rest =>
    if other = name then (name, entry) :: rest else (other, old) :: setChild name entry rest

/-- Put an entry at a location. Directories on the way that are missing are created; nothing can be
put below a file or a link. -/
def put (entry : Entry) (location : List String) (new : Entry) : Entry :=
  match location, entry with
  | [], _ => new
  | name :: rest, .directory children =>
    .directory
      (setChild name (put ((children.lookup name).getD (.directory [])) rest new) children)
  | _ :: _, other => other

end Entry

namespace Path

inductive Segment
  | slash
  | here
  | up
  | name (text : String)
  deriving DecidableEq, Repr

def segment (piece : List Char) : Segment :=
  if piece = [] then .slash
  else if piece = ['.'] then .here
  else if piece = ['.', '.'] then .up
  else .name (String.ofList piece)

/-- The steps of a lookup. A slash at the end leaves an empty piece, so it asks for a directory. -/
def segments (path : Path) : List Segment := (pieces path.text.toList).map segment

def isAbsolute (path : Path) : Bool := path.text.toList.head? == some '/'

def byteLimit : Nat := 4095

def isTooLong (path : Path) : Bool := byteLimit < path.text.utf8ByteSize

end Path

structure FileTree where
  root : Entry := .directory []
  current : List String := []

namespace FileTree

def linkLimit : Nat := 40

def nameLimit : Nat := 255

def start (path : Path) (directory : List String) : List String :=
  if path.isAbsolute then [] else directory

inductive Aim
  /-- The entry itself: a link at the very end is not followed. -/
  | entry
  | target
  /-- A file that is written, and created if it is missing: a slash behind its name is refused. -/
  | file
  deriving DecidableEq, Repr

inductive Progress
  | present (location : List String) (entry : Entry)
  | absent (location : List String)
  | link (directory : List String) (target : Path) (rest : List Path.Segment)
  | refused (fault : FileFault)

/-- Why a name is refused before it is looked up: it is too long, or a file is to be written there
and only slashes follow the name. -/
def nameFault? (aim : Aim) (text : String) (rest : List Path.Segment) : Option FileFault :=
  if aim = .file ∧ rest ≠ [] ∧ rest.all (· = .slash) then some .isDirectory
  else if nameLimit < text.utf8ByteSize then some .nameTooLong
  else none

def advance (root : Entry) (aim : Aim) (location : List String) : List Path.Segment → Progress
  | [] =>
    match root.at? location with
    | some entry => .present location entry
    | none => .refused .notFound
  | segment :: rest =>
    match root.at? location with
    | some (.directory _) =>
      match segment with
      | .slash | .here => advance root aim location rest
      | .up => advance root aim location.dropLast rest
      | .name text =>
        match nameFault? aim text rest with
        | some fault => .refused fault
        | none =>
          match root.at? (location ++ [text]) with
          | none => if rest.isEmpty then .absent (location ++ [text]) else .refused .notFound
          | some (.link target) =>
            if aim = .entry ∧ rest.isEmpty then .present (location ++ [text]) (.link target)
            else .link location target rest
          | some _ => advance root aim (location ++ [text]) rest
    | some _ => .refused .notDirectory
    | none => .refused .notFound

inductive Spot
  | present (location : List String) (entry : Entry)
  | absent (location : List String)

def travel (root : Entry) (aim : Aim) :
    Nat → List String → List Path.Segment → Except FileFault Spot
  | links, location, segments =>
    match advance root aim location segments with
    | .present location entry => .ok (.present location entry)
    | .absent location => .ok (.absent location)
    | .refused fault => .error fault
    | .link directory target rest =>
      match links with
      | 0 => .error .linkLoop
      | links + 1 => travel root aim links (start target directory) (target.segments ++ rest)

def pathFault? (path : Path) : Option FileFault :=
  if path.text.toList.contains '\x00' then some .nulInPath
  else if path.isTooLong then some .nameTooLong
  else if path.text = "" then some .notFound
  else none

def locate (tree : FileTree) (aim : Aim) (path : Path) : Except FileFault Spot :=
  match pathFault? path with
  | some fault => .error fault
  | none => travel tree.root aim linkLimit (start path tree.current) path.segments

def get (tree : FileTree) (aim : Aim) (path : Path) : Except FileFault Entry :=
  match tree.locate aim path with
  | .ok (.present _ entry) => .ok entry
  | .ok (.absent _) => .error .notFound
  | .error fault => .error fault

def hasEntry (tree : FileTree) (path : Path) : Bool := (tree.get .target path).isOk

def hasFile (tree : FileTree) (path : Path) : Bool :=
  match tree.get .target path with
  | .ok entry => entry.isFile
  | .error _ => false

def place (tree : FileTree) (location : List String) (entry : Entry) : FileTree :=
  { tree with root := tree.root.put location entry }

def write (tree : FileTree) (path : Path) (content : ByteArray) : Except FileFault FileTree :=
  match tree.locate .file path with
  | .ok (.present _ (.directory _)) => .error .isDirectory
  | .ok (.present location _) | .ok (.absent location) =>
    .ok (tree.place location (.file content))
  | .error fault => .error fault

def namesOf (path : Path) : List String :=
  path.components.filterMap fun
    | .name text => some text
    | _ => none

def create (tree : FileTree) (path : Path) (entry : Entry) : FileTree :=
  match tree.locate .entry path with
  | .ok (.present location _) | .ok (.absent location) => tree.place location entry
  | .error _ => tree.place (start path tree.current ++ namesOf path) entry

end FileTree

end CostlyCalls
