/-!
# Message templates

A template is a text in which every occurrence of the slot, a zero in braces, stands for a
subject. Filling reads the template once from left to right, so a slot inside the subject is
never filled again.
-/

set_option autoImplicit false

namespace CostlyCalls.Text.Template

def slot : List Char := ['\x7b', '0', '\x7d']

def fillChars (subject : List Char) : List Char → List Char
  | [] => []
  | '\x7b' :: '0' :: '\x7d' :: rest => subject ++ fillChars subject rest
  | c :: rest => c :: fillChars subject rest

def fill (template subject : String) : String :=
  String.ofList (fillChars subject.toList template.toList)

theorem fillChars_slot_append (subject rest : List Char) :
    fillChars subject (slot ++ rest) = subject ++ fillChars subject rest := by
  simp [slot, fillChars]

end CostlyCalls.Text.Template
