import CostlyCalls.Text.Split

/-!
# Paths

A path is a text whose parts are divided by slashes. Two paths are compared by their components:
repeated and trailing slashes vanish, and so does a dot except at the very start.
-/

set_option autoImplicit false

namespace CostlyCalls

structure Path where
  text : String
  deriving DecidableEq, Repr, Inhabited

namespace Path

inductive Component
  | root
  | here
  | up
  | name (text : String)
  deriving DecidableEq, Repr

def pieces : List Char → List (List Char) := Text.split '/'

def bodyComponent? (piece : List Char) : Option Component :=
  if piece = [] ∨ piece = ['.'] then none
  else if piece = ['.', '.'] then some .up
  else some (.name (String.ofList piece))

def componentsOf (cs : List Char) : List Component :=
  match cs with
  | [] => []
  | '/' :: rest => .root :: (pieces rest).filterMap bodyComponent?
  | c :: rest =>
    match pieces (c :: rest) with
    | ['.'] :: others => .here :: others.filterMap bodyComponent?
    | all => all.filterMap bodyComponent?

def components (path : Path) : List Component := componentsOf path.text.toList

def endsWith (path entry : Path) : Bool := entry.components.isSuffixOf path.components

def fileName? (path : Path) : Option String :=
  match path.components.getLast? with
  | some (.name text) => some text
  | _ => none

/-- Drop trailing slashes and dots from reversed characters, but neither a root nor a leading
dot. -/
def trimBack : List Char → List Char
  | '/' :: c :: rest => trimBack (c :: rest)
  | '.' :: '/' :: rest => trimBack ('/' :: rest)
  | cs => cs

/-- The path without its last component, as a part of the written text; a path without components
and a bare root have no parent. -/
def parent? (path : Path) : Option Path :=
  match trimBack path.text.toList.reverse with
  | [] => none
  | ['/'] => none
  | back => some ⟨String.ofList (trimBack (back.dropWhile (· ≠ '/'))).reverse⟩

def join (path : Path) (name : String) : Path :=
  if path.text = "" then ⟨name⟩
  else if path.text.toList.getLast? = some '/' then ⟨path.text ++ name⟩
  else ⟨path.text ++ "/" ++ name⟩

def Component.rank : Component → Nat
  | .root => 0
  | .here => 1
  | .up => 2
  | .name _ => 3

def Component.precedes : Component → Component → Bool
  | .name a, .name b => a < b
  | a, b => a.rank < b.rank

def componentsLe : List Component → List Component → Bool
  | [], _ => true
  | _ :: _, [] => false
  | a :: as, b :: bs => a.precedes b || (a == b && componentsLe as bs)

def le (a b : Path) : Bool := componentsLe a.components b.components

@[simp] theorem endsWith_self (path : Path) : path.endsWith path = true := by
  simp [endsWith]

end Path

end CostlyCalls
