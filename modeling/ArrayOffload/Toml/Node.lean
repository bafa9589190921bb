/-!
# TOML trees

The contents of a TOML document, and the rules on where a new entry may go. A table remembers
how it came to be, because that decides whether it may be extended.

* `Table.insert?`: an entry under a dotted key;
* `Table.open?`, `Table.openNext?`: what `[header]` and `[[header]]` lines do.
-/

namespace ArrayOffload.Toml

/-- How a table came to be. -/
inductive Form where
  /-- Written in braces; complete as it stands. -/
  | literal
  /-- Opened by a header of its own. -/
  | header
  /-- On the way to a header's table. -/
  | implied
  /-- On the way to a dotted key's entry. -/
  | dotted
deriving DecidableEq, Repr

inductive Node where
  | text (value : String)
  | integer (value : Int)
  | float
  | boolean (value : Bool)
  /-- A date, a time or both. -/
  | moment
  | list (items : List Node)
  | table (form : Form) (entries : List (String × Node))
  /-- Tables opened one after the other by the same header. -/
  | tables (items : List (List (String × Node)))
deriving Repr

/-- A table's entries, in the order written. -/
abbrev Table := List (String × Node)

namespace Table

/-- Replace the entry of a key. -/
def replace (key : String) (node : Node) (table : Table) : Table :=
  table.map fun entry => if entry.1 = key then (key, node) else entry

/-- Change the table at the end of a path, making tables on the way by `make`. A table whose
form is not in `passable` is not entered; of several tables of one header the last is. -/
def alter? (make : Form) (passable : List Form) (change : Form → Table → Option (Form × Table)) :
    List String → Form → Table → Option (Form × Table)
  | [], form, table => change form table
  | key :: rest, form, table =>
    match table.lookup key with
    | none => do
      let (inner, entries) ← alter? make passable change rest make []
      some (form, table ++ [(key, .table inner entries)])
    | some (.table inner entries) =>
      if inner ∈ passable then do
        let (inner, entries) ← alter? make passable change rest inner entries
        some (form, table.replace key (.table inner entries))
      else none
    | some (.tables items) => do
      let (_, entries) ← alter? make passable change rest .header (← items.getLast?)
      some (form, table.replace key (.tables (items.dropLast ++ [entries])))
    | some _ => none

/-- Add an entry whose key is not there yet. -/
def add? (key : String) (node : Node) (table : Table) : Option Table :=
  match table.lookup key with
  | none => some (table ++ [(key, node)])
  | some _ => none

/-- Add an entry under a dotted key, `path` being the parts before the last. Only tables made by
dotted keys are extended in this way. -/
def insert? (path : List String) (key : String) (node : Node) (table : Table) : Option Table :=
  (alter? .dotted [.dotted, .implied]
    (fun form entries =>
      if path.isEmpty || form = .dotted then (entries.add? key node).map (form, ·) else none)
    path .header table).map (·.2)

/-- Change the table that a header names. -/
def within? (path : List String) (change : Form → Table → Option (Form × Table))
    (table : Table) : Option Table :=
  (alter? .implied [.header, .implied, .dotted] change path .header table).map (·.2)

/-- Open the table of a header. It may have been implied before, and nothing else. -/
def open? (path : List String) (key : String) (table : Table) : Option Table :=
  table.within? path fun form entries =>
    match entries.lookup key with
    | none => some (form, entries ++ [(key, .table .header [])])
    | some (.table .implied inner) => some (form, entries.replace key (.table .header inner))
    | some _ => none

/-- Open one more table of a repeated header. -/
def openNext? (path : List String) (key : String) (table : Table) : Option Table :=
  table.within? path fun form entries =>
    match entries.lookup key with
    | none => some (form, entries ++ [(key, .tables [[]])])
    | some (.tables items) => some (form, entries.replace key (.tables (items ++ [[]])))
    | some _ => none

/-- Add an entry to the table that was opened last under `header`. -/
def insertUnder? (header path : List String) (key : String) (node : Node) (table : Table) :
    Option Table :=
  table.within? header fun form entries => (entries.insert? path key node).map (form, ·)

end Table

end ArrayOffload.Toml
