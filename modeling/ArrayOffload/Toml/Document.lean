import ArrayOffload.Toml.Scalar

/-!
# TOML documents

A document is read as a list of lines, each a header or an entry, and the lines are then put
together into one table.

* `parse?`: the table of a document, or none if it is not well formed.
-/

namespace ArrayOffload.Toml

/-- Keys have fewer parts, and values nest less deeply, than this. -/
def depthLimit : Nat := 80

namespace Scan

def isBare (c : Char) : Bool := c.isAlphanum || c = '_' || c = '-'

/-- One part of a key. -/
def keyPart : Scan String := do
  match ← get with
  | '"' :: _ | '\'' :: _ => shortText
  | _ =>
    let chars ← span isBare
    if chars.isEmpty then fail else return String.ofList chars

/-- The parts of a dotted key. The fuel bounds their number. -/
def keyParts : Nat → Scan (List String)
  | 0 => fail
  | fuel + 1 => do
    blanks
    let part ← keyPart
    blanks
    match ← get with
    | '.' :: tail =>
      set tail
      return part :: (← keyParts fuel)
    | _ => return [part]

/-- A key: the parts before the last, and the last. -/
def key : Scan (List String × String) := do
  let parts ← keyParts (depthLimit - 1)
  match parts.getLast? with
  | some last => return (parts.dropLast, last)
  | none => fail

/-- The items of an array up to its closing bracket; a last comma is allowed. -/
def arrayItems (item : Scan Node) : Nat → List Node → Scan (List Node)
  | 0, _ => fail
  | fuel + 1, done => do
    skipGaps
    match ← get with
    | ']' :: tail =>
      set tail
      return done
    | _ =>
      let node ← item
      skipGaps
      match ← get with
      | ',' :: tail =>
        set tail
        arrayItems item fuel (done ++ [node])
      | _ =>
        eat ']'
        return done ++ [node]

def entryOf (item : Scan Node) : Scan (List String × String × Node) := do
  let (path, last) ← key
  eat '='
  blanks
  return (path, last, ← item)

/-- The entries of a table in braces; they stand on one line, without a last comma. -/
def literalEntries (item : Scan Node) : Nat → Table → Scan Table
  | 0, _ => fail
  | fuel + 1, table => do
    let (path, last, node) ← entryOf item
    blanks
    let table ← StateT.lift (table.insert? path last node)
    match ← get with
    | ',' :: tail =>
      set tail
      literalEntries item fuel table
    | _ =>
      eat '\x7d'
      return table

def word (letters : String) (node : Node) : Scan Node := do
  letters.toList.forM eat
  return node

/-- A value that holds no others. -/
def scalar (first : Char) : Scan Node := do
  match first with
  | '"' | '\'' => return .text (← text)
  | 't' => word "true" (.boolean true)
  | 'f' => word "false" (.boolean false)
  | 'i' => word "inf" .float
  | 'n' => word "nan" .float
  | _ => number

/-- A table in braces, after the opening one. -/
def literalTable (item : Scan Node) : Scan Node := do
  blanks
  match ← get with
  | '\x7d' :: tail =>
    set tail
    return .table .literal []
  | chars => return .table .literal (← literalEntries item (chars.length + 1) [])

/-- A value; the argument says how deeply it may nest. -/
def value : Nat → Scan Node
  | 0 => do
    match ← get with
    | [] | '[' :: _ | '\x7b' :: _ => fail
    | c :: _ => scalar c
  | inner + 1 => do
    match ← get with
    | [] => fail
    | '[' :: tail =>
      set tail
      return .list (← arrayItems (value inner) (tail.length + 1) [])
    | '\x7b' :: tail =>
      set tail
      literalTable (value inner)
    | c :: _ => scalar c

end Scan

/-- One line of a document that says something. -/
inductive Line where
  | header (path : List String) (key : String)
  | nextHeader (path : List String) (key : String)
  | entry (path : List String) (key : String) (node : Node)
deriving Repr

namespace Scan

def line : Scan Line := do
  match ← get with
  | '[' :: '[' :: tail =>
    set tail
    let (path, last) ← key
    eat ']'
    eat ']'
    return .nextHeader path last
  | '[' :: tail =>
    set tail
    let (path, last) ← key
    eat ']'
    return .header path last
  | _ =>
    let (path, last, node) ← entryOf (value (depthLimit - 1))
    return .entry path last node

/-- All lines up to the end of the text. -/
def lines : Nat → List Line → Scan (List Line)
  | 0, _ => fail
  | fuel + 1, done => do
    skipGaps
    match ← get with
    | [] => return done
    | _ =>
      let next ← line
      lineEnd
      lines fuel (done ++ [next])

end Scan

/-- A table under construction, and the last header. -/
structure Progress where
  table : Table
  header : List String

def Progress.add? (p : Progress) : Line → Option Progress
  | .header path key => (p.table.open? path key).map (⟨·, path ++ [key]⟩)
  | .nextHeader path key => (p.table.openNext? path key).map (⟨·, path ++ [key]⟩)
  | .entry path key node => (p.table.insertUnder? p.header path key node).map (⟨·, p.header⟩)

/-- Put lines together. -/
def assemble? (lines : List Line) : Option Table :=
  (lines.foldlM Progress.add? ⟨[], []⟩).map (·.table)

/-- A byte-order mark at the start is not part of the document. -/
def withoutMark : List Char → List Char
  | '\ufeff' :: chars => chars
  | chars => chars

/-- Read a document. -/
def parse? (text : String) : Option Table := do
  let chars := withoutMark text.toList
  let (lines, _) ← Scan.lines (chars.length + 1) [] chars
  assemble? lines

end ArrayOffload.Toml
