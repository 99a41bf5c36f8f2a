/-!
# Terminal styles

A style is a list of display attributes. On a colour terminal a styled text stands between the
attribute sequence and the reset sequence; elsewhere it stands alone.
-/

set_option autoImplicit false

namespace CostlyCalls.Text

inductive Attribute
  | bold
  | dimmed
  | underline
  | red
  | green
  | yellow
  | blue
  | cyan
  deriving DecidableEq, Repr

def Attribute.code : Attribute → String
  | .bold => "1"
  | .dimmed => "2"
  | .underline => "4"
  | .red => "31"
  | .green => "32"
  | .yellow => "33"
  | .blue => "34"
  | .cyan => "36"

def styleStart (attributes : List Attribute) : String :=
  "\x1b[" ++ String.intercalate ";" (attributes.map Attribute.code) ++ "m"

def styleReset : String := "\x1b[0m"

def paint (colour : Bool) (attributes : List Attribute) (text : String) : String :=
  if colour then styleStart attributes ++ text ++ styleReset else text

structure Segment where
  attributes : List Attribute
  text : String
  deriving DecidableEq, Repr

namespace Segment

def plain (text : String) : Segment := ⟨[], text⟩

def render (colour : Bool) (segment : Segment) : String :=
  if segment.attributes = [] then segment.text else paint colour segment.attributes segment.text

end Segment

def renderAll (colour : Bool) (segments : List Segment) : String :=
  String.join (segments.map (Segment.render colour))

@[simp] theorem paint_plain (attributes : List Attribute) (text : String) :
    paint false attributes text = text := rfl

theorem renderAll_append (colour : Bool) (first second : List Segment) :
    renderAll colour (first ++ second) = renderAll colour first ++ renderAll colour second := by
  simp [renderAll]

end CostlyCalls.Text
