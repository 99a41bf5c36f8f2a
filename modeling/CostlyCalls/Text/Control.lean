/-!
# Control sequences

A terminal takes some characters as commands: control characters, and the sequences that an escape
character opens. A text that is not shown on a terminal is written without them. `plain` leaves out
every command of a text and keeps what a terminal would show, tabs, line breaks, form feeds and
carriage returns included.

The text is read by a machine with two modes. While it shows characters it takes every character by
itself; the first one that cannot be shown makes it skip. While it skips, it follows the sequence it
is in, and the first character that can be shown makes it show again. Where a line break interrupts
a sequence, the sequence is remembered, and goes on when the machine skips again.
-/

set_option autoImplicit false

namespace CostlyCalls.Text.Control

inductive Place
  | ground
  | escape
  | escapeMark
  | sequence
  /-- In the text of a command to the operating system, which a bell ends. -/
  | command
  | deviceStart
  | deviceParameter
  | deviceMark
  /-- In the text of a device string or another string, which a string terminator ends. -/
  | string
  deriving DecidableEq, Repr

def within (low high : Nat) (c : Char) : Bool := low ≤ c.toNat && c.toNat ≤ high

def isMark (c : Char) : Bool := within 0x20 0x2F c

def isFinal (c : Char) : Bool := within 0x40 0x7E c

/-- Whether one of the bytes of a character is that of a string terminator. The machine sees bytes
here, so the byte counts wherever it stands in a character. -/
def hasTerminator (c : Char) : Bool := (String.utf8EncodeChar c).contains 0x9C

namespace Place

def afterEscape (c : Char) : Place :=
  if isMark c then .escapeMark
  else if c = '[' then .sequence
  else if c = ']' then .command
  else if c = 'P' then .deviceStart
  else if c = 'X' ∨ c = '^' ∨ c = '_' then .string
  else if within 0x30 0x7E c then .ground
  else .escape

def afterDevice (place : Place) (c : Char) : Place :=
  if isFinal c then .string
  else if isMark c then .deviceMark
  else if !within 0x30 0x3F c then place
  else if place = .deviceMark ∨ c = ':' then .string
  else if place = .deviceParameter ∧ within 0x3C 0x3F c then .string
  else .deviceParameter

def next (place : Place) (c : Char) : Place :=
  if c = '\x1b' then .escape
  else if c = '\x18' ∨ c = '\x1a' then .ground
  else
    match place with
    | .ground => .ground
    | .escape => afterEscape c
    | .escapeMark => if within 0x30 0x7E c then .ground else .escapeMark
    | .sequence => if isFinal c then .ground else .sequence
    | .command => if c = '\x07' then .ground else .command
    | .string => if hasTerminator c then .ground else .string
    | place => afterDevice place c

end Place

def isShown (c : Char) : Bool :=
  c = '\t' || c = '\n' || c = '\x0c' || c = '\r' || within 0x20 0x7E c || 0x80 ≤ c.toNat

/-- Whether a character that is met while skipping is shown. Sequences after an escape character
give way to a control character that is a blank; texts of commands and strings do not. -/
def endsSkip (place : Place) (c : Char) : Bool :=
  match place with
  | .ground => isShown c
  | .escape | .escapeMark | .sequence => isShown c && c.toNat < 0x20
  | _ => false

structure State where
  showing : Bool := false
  place : Place := .ground
  deriving DecidableEq, Repr

namespace State

def step (state : State) (c : Char) : Bool × State :=
  if (state.showing && isShown c) || endsSkip state.place c then
    (true, ⟨true, if 0x80 ≤ c.toNat then .ground else state.place⟩)
  else
    (false, ⟨false, state.place.next c⟩)

def run : State → List Char → List Char
  | _, [] => []
  | state, c :: rest =>
    let (shown, state) := state.step c
    if shown then c :: state.run rest else state.run rest

end State

def plain (text : String) : String := String.ofList (State.run {} text.toList)

end CostlyCalls.Text.Control
