import ArrayOffload.CommandLine.ArgSpec
import ArrayOffload.Engine.Basic

/-!
# Arguments of a call from the command line

One array for every parameter, from the argument texts. Where values are not required, a
parameter without a text gets a single zero.
-/

namespace ArrayOffload

inductive ArgumentsError where
  | spec (cause : ArgSpecError)
  | unknownParam (function name : String)
  | shapeNeeded (name : String) (rank : Nat)
  | missing (name : String)
  | wrongRank (name : String) (rank : Nat) (shape : Shape)
  | tooLarge (name : String) (shape : Shape)
  | wrongCount (name : String) (shape : Shape) (needed found : Nat)
  | notShared (name : String) (cause : OffloadError)
deriving DecidableEq, Repr

def ArgumentsError.message : ArgumentsError → String
  | spec cause => cause.message
  | unknownParam function name => s!"`{function}` has no parameter `{name}`"
  | shapeNeeded name rank =>
    s!"`{name}` has rank {rank}; give its shape as {name}=D0x..:VALUES"
  | missing name => s!"missing --arg for parameter `{name}`"
  | wrongRank name rank shape => s!"`{name}` has rank {rank}, got shape {Text.dims shape}"
  | tooLarge name shape => s!"`{name}`: shape {Text.dims shape} is too large"
  | wrongCount name shape needed found =>
    s!"`{name}`: shape {Text.dims shape} needs {needed} value(s), got {found}"
  | notShared name cause => s!"cannot allocate `{name}` shared: {cause.message}"

namespace Arguments

/-- Every name in argument texts and sharing lists is a parameter. -/
def checkNames (f : Func) (params : List ArrayDecl) :
    List String → Except (Stop ArgumentsError) Unit
  | [] => .ok ()
  | name :: rest =>
    if params.any fun decl => decl.name = name then checkNames f params rest
    else .error (.error (.unknownParam f.name name))

/-- The shape and the values of a parameter. -/
def contents (specs : List ArgSpec) (required : Bool) (decl : ArrayDecl) :
    Except (Stop ArgumentsError) (Shape × Cells) :=
  match specs.find? fun spec => spec.name = decl.name with
  | some spec =>
    match spec.shape with
    | some shape => .ok (shape, spec.values)
    | none =>
      if decl.rank = 1 then .ok ([spec.values.size], spec.values)
      else .error (.error (.shapeNeeded decl.name decl.rank))
  | none =>
    if required then .error (.error (.missing decl.name))
    else .ok (List.replicate decl.rank 1, #[Number.ofCode false 0])

/-- The shape and the values of a parameter, checked against each other. -/
def checkedContents (specs : List ArgSpec) (required : Bool) (decl : ArrayDecl) :
    Except (Stop ArgumentsError) (Shape × Cells) := do
  let (shape, values) ← contents specs required decl
  if shape.length ≠ decl.rank then throw (.error (.wrongRank decl.name decl.rank shape))
  match shape.count? with
  | none => throw (.error (.tooLarge decl.name shape))
  | some length =>
    if length ≠ values.size then
      throw (.error (.wrongCount decl.name shape length values.size))
    return (shape, values)

abbrev ArgumentsM := ExceptT (Stop ArgumentsError) (StateM Engine)

/-- The array of one parameter. -/
def arrayOf (specs : List ArgSpec) (shared : List String) (required : Bool)
    (decl : ArrayDecl) : ArgumentsM ArrayValue := do
  let (shape, values) ← MonadExcept.ofExcept (checkedContents specs required decl)
  if decl.name ∈ shared then
    let (result, engine) := (Engine.sharedArray decl.elem shape values).run.run (← get)
    set engine
    MonadExcept.ofExcept (result.mapError (Stop.map (ArgumentsError.notShared decl.name)))
  else MonadExcept.ofExcept (orFault (ArrayValue.ofCells? decl.elem shape values))

/-- The arrays of all parameters. -/
def build (f : Func) (texts shared : List String) (required : Bool) :
    ArgumentsM (List ArrayValue) := do
  let specs ← MonadExcept.ofExcept
    ((texts.mapM ArgSpec.parse).mapError fun cause => Stop.error (ArgumentsError.spec cause))
  let params ← MonadExcept.ofExcept (orFault (f.params.mapM f.decl?))
  MonadExcept.ofExcept (checkNames f params (specs.map (·.name) ++ shared))
  params.mapM (arrayOf specs shared required)

end Arguments

end ArrayOffload
