/-!
# Control sequences in text

What a terminal would obey is taken out of a line before it is logged: control characters other
than blanks, and sequences that start with an escape character. A sequence that does not end takes
the rest of the line with it, up to the first blank control character if it can hold one.

* `Sequence.next`: how a sequence goes on;
* `withoutControls`: what is left of a line.
-/

namespace ArrayOffload.Text

/-- How far a control sequence has been read. -/
inductive Sequence where
  /-- Ordinary text. -/
  | plain
  /-- After the escape character. -/
  | escape
  /-- After the escape character and some marks. -/
  | escapeMarks
  /-- Between the introducer of a control function and its final letter. -/
  | control
  /-- The head of a device string, before any number or mark. -/
  | deviceStart
  | deviceNumbers
  | deviceMarks
  /-- A string that only its terminator ends. -/
  | string
  /-- A command to the operating system, which a bell ends too. -/
  | command
deriving DecidableEq, Repr

namespace Sequence

/-- The sequence that starts with the character after an escape character. -/
def afterEscape (code : Nat) : Sequence :=
  if code < 0x20 || code = 0x7f then escape
  else if code < 0x30 then escapeMarks
  else if code = 0x5b then control
  else if code = 0x5d then command
  else if code = 0x50 then deviceStart
  else if code = 0x58 || code = 0x5e || code = 0x5f then string
  else plain

/-- A sequence after one more ASCII character. Cancel and substitute end every sequence, and an
escape character starts a new one. -/
def next (sequence : Sequence) (code : Nat) : Sequence :=
  if code = 0x18 || code = 0x1a then plain
  else if code = 0x1b then escape
  else match sequence with
    | plain => plain
    | escape => afterEscape code
    | escapeMarks => if code < 0x30 || code = 0x7f then escapeMarks else plain
    | control => if code < 0x40 || code = 0x7f then control else plain
    | deviceStart =>
      if code < 0x20 || code = 0x7f then deviceStart
      else if code < 0x30 then deviceMarks
      else if code < 0x40 then deviceNumbers
      else string
    | deviceNumbers =>
      if code < 0x20 || code = 0x7f then deviceNumbers
      else if code < 0x30 then deviceMarks
      else if code < 0x3c then deviceNumbers
      else string
    | deviceMarks => if code < 0x30 || code = 0x7f then deviceMarks else string
    | string => string
    | command => if code = 0x07 then plain else command

/-- A sequence after a character beyond ASCII. Such a character belongs to no sequence, but one of
its bytes may be the terminator of a string. -/
def nextWide (sequence : Sequence) (c : Char) : Sequence :=
  if sequence = string && c.toString.toUTF8.data.contains 0x9c then plain else sequence

/-- Whether blank control characters inside the sequence stay in the text. -/
def keepsBlanks : Sequence → Bool
  | plain | escape | escapeMarks | control => true
  | deviceStart | deviceNumbers | deviceMarks | string | command => false

end Sequence

/-- Tab, line feed, form feed and carriage return. -/
def isBlankControl (code : Nat) : Bool := code = 9 || code = 10 || code = 12 || code = 13

/-- Whether a character of ordinary text stays. -/
def isShown (code : Nat) : Bool := (0x20 ≤ code && code ≠ 0x7f) || isBlankControl code

/-- What is left of a text. `resumed` says that a blank control character inside the sequence has
brought ordinary text back; another control character leads into the sequence again. -/
def withoutSequence : Sequence → Bool → List Char → List Char
  | _, _, [] => []
  | sequence, resumed, c :: rest =>
    let code := c.toNat
    if sequence = .plain || resumed then
      if 0x80 ≤ code then c :: withoutSequence .plain false rest
      else if isShown code then c :: withoutSequence sequence resumed rest
      else withoutSequence (sequence.next code) false rest
    else if 0x80 ≤ code then withoutSequence (sequence.nextWide c) false rest
    else if isBlankControl code && sequence.keepsBlanks then
      c :: withoutSequence sequence true rest
    else withoutSequence (sequence.next code) false rest

/-- A line without control sequences. -/
def withoutControls (line : String) : String :=
  String.ofList (withoutSequence .plain false line.toList)

end ArrayOffload.Text
