/-!
# Splitting texts

A text is split at every occurrence of a character. The pieces, joined by that character, give the
text back, so there is always at least one piece.
-/

set_option autoImplicit false

namespace CostlyCalls.Text

def split (mark : Char) : List Char → List (List Char)
  | [] => [[]]
  | c :: rest =>
    if c = mark then [] :: split mark rest
    else
      match split mark rest with
      | [] => [[c]]
      | piece :: others => (c :: piece) :: others

/-- The lines of a text. The end of the text after a last line break is no line. -/
def lines (text : String) : List String :=
  let pieces := split '\n' text.toList
  (if pieces.getLast? = some [] then pieces.dropLast else pieces).map String.ofList

def padTo (width : Nat) (text : String) : String :=
  text ++ String.ofList (List.replicate (width - text.length) ' ')

theorem split_ne_nil (mark : Char) (cs : List Char) : split mark cs ≠ [] := by
  cases cs with
  | nil => simp [split]
  | cons c rest =>
    unfold split
    split
    · simp
    · split <;> simp

theorem intercalate_split (mark : Char) (cs : List Char) :
    List.intercalate [mark] (split mark cs) = cs := by
  induction cs with
  | nil => rfl
  | cons c rest ih =>
    unfold split
    split
    · next hEq =>
      subst hEq
      cases hSplit : split c rest with
      | nil => exact absurd hSplit (split_ne_nil c rest)
      | cons piece others =>
        rw [hSplit] at ih
        simpa [List.intercalate, List.intersperse] using ih
    · cases hSplit : split mark rest with
      | nil => exact absurd hSplit (split_ne_nil mark rest)
      | cons piece others =>
        rw [hSplit] at ih
        cases others <;> simpa [List.intercalate, List.intersperse] using ih

end CostlyCalls.Text
