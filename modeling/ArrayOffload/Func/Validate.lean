import ArrayOffload.Error
import ArrayOffload.Func.Basic

/-!
# Well-formed functions

The checks a function must pass before it is compiled, in order: declarations, parameters, the
returned array, then each operation. The first failing check is reported.
-/

namespace ArrayOffload.Func

/-- Check one declaration against those before it. -/
def checkDecl (before : List ArrayDecl) (decl : ArrayDecl) : Except InvalidCause Unit :=
  if before.any fun other => other.name = decl.name then .error (.declaredTwice decl.name)
  else if decl.rank = 0 then .error (.rankZero decl.name)
  else match decl.shape with
    | .param => if decl.role = .scratch then .error (.noShapeSource decl.name) else .ok ()
    | .like source =>
      match before[source]? with
      | none => .error (.laterSource decl.name)
      | some other =>
        if other.rank = decl.rank then .ok ()
        else .error (.sourceRank decl.name decl.rank other.name other.rank)
    | .fixed dims =>
      if dims.length ≠ decl.rank then .error (.dimCount decl.name decl.rank dims.length)
      else if 0 ∈ dims then .error (.zeroExtent decl.name)
      else if (Shape.count? dims).isNone then .error (.tooLarge decl.name dims)
      else .ok ()

/-- Check declarations one after the other. -/
def checkDecls : List ArrayDecl → List ArrayDecl → Except InvalidCause Unit
  | _, [] => .ok ()
  | before, decl :: rest =>
    match checkDecl before decl with
    | .error cause => .error cause
    | .ok () => checkDecls (before ++ [decl]) rest

/-- Check that each parameter is declared with its position. -/
def checkParams (f : Func) : Nat → List ArrayId → Except InvalidCause Unit
  | _, [] => .ok ()
  | position, id :: rest =>
    if (f.decl? id).map (·.role) = some (.param position) then f.checkParams (position + 1) rest
    else .error (.undeclaredParam position)

/-- Check the ranks of a map's array operands. -/
def checkOperands (f : Func) (op : MapOp) (out : ArrayDecl) :
    List ArrayId → Except InvalidCause Unit
  | [] => .ok ()
  | id :: rest =>
    match f.decl? id with
    | none => .error (.undeclaredUse op.name id)
    | some arg =>
      if arg.rank = out.rank then f.checkOperands op out rest
      else .error (.operandRank op.name out.rank out.name arg.rank arg.name)

/-- Check one operation. -/
def checkOp (f : Func) (op : Op) : Except InvalidCause Unit :=
  match (op.reads ++ op.writes).find? fun id => f.arrays.length ≤ id with
  | some id => .error (.undeclaredUse op.word id)
  | none =>
    match op with
    | .map out op args =>
      if args.length ≠ op.arity then .error (.arity op.name op.arity args.length)
      else match f.decl? out with
        | none => .error (.undeclaredUse op.name out)
        | some target => f.checkOperands op target (args.filterMap Operand.array?)
    | .reduce out _ _ =>
      match f.decl? out with
      | none => .error (.undeclaredUse op.word out)
      | some target =>
        if target.shape = .fixed [1] then .ok () else .error (.reduceTarget target.name)
    | .scan out _ input =>
      match f.decl? out, f.decl? input with
      | some target, some source =>
        if target.rank = source.rank then .ok () else .error (.scanRank target.name source.name)
      | _, _ => .error (.undeclaredUse op.word out)
    | .store .. | .print _ => .ok ()
    | .call callee _ _ => if callee.isEmpty then .error .emptyCallee else .ok ()

def checkOps (f : Func) : List Op → Except InvalidCause Unit
  | [] => .ok ()
  | op :: rest =>
    match f.checkOp op with
    | .error cause => .error cause
    | .ok () => f.checkOps rest

/-- Check the returned array, if there is one. -/
def checkReturn (f : Func) : Except InvalidCause Unit :=
  match f.returns with
  | none => .ok ()
  | some id => if id < f.arrays.length then .ok () else .error .undeclaredReturn

/-- The first thing wrong with a function, if anything is. -/
def check (f : Func) : Except InvalidCause Unit := do
  checkDecls [] f.arrays
  f.checkParams 0 f.params
  f.checkReturn
  f.checkOps f.body

def validate (f : Func) : Except OffloadError Unit :=
  f.check.mapError (.invalid f.name)

end ArrayOffload.Func
