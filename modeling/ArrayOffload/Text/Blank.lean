/-!
# Blanks, cuts and lists in text

Argument text is trimmed of every white-space character, not only of the ASCII ones. Lists
are written with a comma and a space between their items.
-/

namespace ArrayOffload.Text

/-- The characters with the white-space property. -/
def isBlank (c : Char) : Bool :=
  let n := c.toNat
  (9 ≤ n && n ≤ 13) || n = 32 || n = 0x85 || n = 0xa0 || n = 0x1680 ||
    (0x2000 ≤ n && n ≤ 0x200a) || n = 0x2028 || n = 0x2029 || n = 0x202f || n = 0x205f ||
    n = 0x3000

/-- Text without the blanks at either end. -/
def trim (text : List Char) : List Char :=
  ((text.dropWhile isBlank).reverse.dropWhile isBlank).reverse

/-- What stands before and after the first `mark`. -/
def cutAt? (mark : Char) : List Char → Option (List Char × List Char)
  | [] => none
  | c :: rest =>
    if c = mark then some ([], rest)
    else (cutAt? mark rest).map fun cut => (c :: cut.1, cut.2)

/-- The pieces between the marks; one piece when there is no mark. -/
def splitAll (mark : Char) : List Char → List (List Char)
  | [] => [[]]
  | c :: rest =>
    if c = mark then [] :: splitAll mark rest
    else match splitAll mark rest with
      | piece :: pieces => (c :: piece) :: pieces
      | [] => [[c]]

/-- Items with a comma and a space between them. -/
def commaList (items : List String) : String := ", ".intercalate items

/-- Items in square brackets. -/
def bracketed (items : List String) : String := "[" ++ commaList items ++ "]"

/-- A shape in square brackets. -/
def dims (shape : List Nat) : String := bracketed (shape.map toString)

/-- Text filled up with blanks on the right to a width. -/
def padRight (width : Nat) (text : String) : String :=
  text ++ String.ofList (List.replicate (width - text.length) ' ')

/-- Text filled up with blanks on the left to a width. -/
def padLeft (width : Nat) (text : String) : String :=
  String.ofList (List.replicate (width - text.length) ' ') ++ text

end ArrayOffload.Text
