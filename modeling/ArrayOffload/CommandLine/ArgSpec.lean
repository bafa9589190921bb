import ArrayOffload.Number.Decimal
import ArrayOffload.Elem
import ArrayOffload.Shape

/-!
# Argument texts

An argument on the command line is `NAME=V1,V2,..` or `NAME=D0xD1:V1,..`. Blanks around names,
extents and values do not count.
-/

namespace ArrayOffload

structure ArgSpec where
  name : String
  shape : Option Shape
  values : Cells
deriving BEq, Repr

inductive ArgSpecError where
  | noAssignment (text : String)
  | noName (text : String)
  | badShape (name shape : String)
  | badValue (name value : String)
deriving DecidableEq, Repr

def ArgSpecError.message : ArgSpecError → String
  | noAssignment text => s!"--arg '{text}' is not NAME=VALUES"
  | noName text => s!"--arg '{text}' has no name"
  | badShape name shape => s!"--arg '{name}': bad shape '{shape}'"
  | badValue name value => s!"--arg '{name}': bad value '{value}'"

namespace ArgSpec

def extents? (text : List Char) : Option Shape :=
  (Text.splitAll 'x' text).mapM fun extent =>
    Number.readBounded? (Shape.wordLimit - 1) (Text.trim extent)

def valueOf (name : String) (text : List Char) : Except ArgSpecError Float :=
  match Number.readFloat? (Text.trim text) with
  | some value => .ok value
  | none => .error (.badValue name (String.ofList (Text.trim text)))

def valuesOf (name : String) (text : List Char) : Except ArgSpecError Cells :=
  if (Text.trim text).isEmpty then .ok #[]
  else ((Text.splitAll ',' text).mapM (valueOf name)).map List.toArray

/-- Read an argument text. -/
def parse (text : String) : Except ArgSpecError ArgSpec := do
  match Text.cutAt? '=' text.toList with
  | none => throw (.noAssignment text)
  | some (before, rest) =>
    let name := String.ofList (Text.trim before)
    if name.isEmpty then throw (.noName text)
    match Text.cutAt? ':' rest with
    | none => return ⟨name, none, ← valuesOf name rest⟩
    | some (dims, values) =>
      match extents? dims with
      | none => throw (.badShape name (String.ofList dims))
      | some shape => return ⟨name, some shape, ← valuesOf name values⟩

end ArgSpec

end ArrayOffload
