import ArrayOffload.Number.Decimal
import ArrayOffload.Text.Blank

/-!
# Element types

Values travel as doubles. An array holds only values of its element type, so every value is
coerced on the way in: singles are rounded, integers truncated and kept in range.
-/

namespace ArrayOffload

inductive Elem where
  | f32 | f64 | i32 | i64
deriving DecidableEq, Repr

namespace Elem

def name : Elem → String
  | f32 => "f32"
  | f64 => "f64"
  | i32 => "i32"
  | i64 => "i64"

def ofName? (text : String) : Option Elem :=
  [f32, f64, i32, i64].find? fun elem => elem.name = text

/-- The message for a word that names no element type. -/
def unknownName (text : String) : String := "unknown element type '" ++ text ++ "'"

/-- Bytes of one element. -/
def size : Elem → Nat
  | f32 | i32 => 4
  | f64 | i64 => 8

/-- The value as an element of this type holds it. -/
def coerce : Elem → Float → Float
  | f32, v => Number.toSingle v
  | f64, v => v
  | i32, v => Number.ofInt (Number.truncate (-0x80000000) 0x7fffffff v)
  | i64, v => Number.ofInt (Number.truncate (-0x8000000000000000) 0x7fffffffffffffff v)

/-- A value as a print statement shows it. -/
def valueText : Elem → Float → String
  | f32, v => Number.singleText v
  | f64, v => Number.plainText v
  | i32, v | i64, v => toString (Number.truncate (-0x8000000000000000) 0x7fffffffffffffff v)

end Elem

/-- The values of an array, in row-major order. -/
abbrev Cells := Array Float

/-- The values of an array as a print statement shows them. -/
def cellsText (elem : Elem) (values : Cells) : String :=
  Text.bracketed (values.toList.map elem.valueText)

end ArrayOffload
