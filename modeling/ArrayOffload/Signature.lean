import ArrayOffload.ArrayValue
import ArrayOffload.Error
import ArrayOffload.Func.Basic
import ArrayOffload.Stop

/-!
# Signatures

What compilation knows about arguments: element type, rank and allocator, never extents.

* `Signature.ofArgs`: the signature of a function under some arguments, or why they do not fit.
-/

namespace ArrayOffload

structure ArrayType where
  elem : Elem
  rank : Nat
deriving DecidableEq, Repr

def ArrayType.text (type : ArrayType) : String := s!"{type.elem.name}/{type.rank}"

structure ArgType where
  type : ArrayType
  allocator : Allocator
deriving DecidableEq, Repr

def ArgType.text (arg : ArgType) : String := s!"{arg.type.text} {arg.allocator.name}"

def ArrayDecl.type (decl : ArrayDecl) : ArrayType := ⟨decl.elem, decl.rank⟩

def ArrayValue.type (a : ArrayValue) : ArrayType := ⟨a.elem, a.rank⟩

structure Signature where
  args : List ArgType
  returns : Option ArrayType
deriving DecidableEq, Repr

namespace Signature

/-- The types of arguments, each checked against its parameter. -/
def argTypes (f : Func) :
    List (ArrayId × ArrayValue) → Except (Stop OffloadError) (List ArgType)
  | [] => .ok []
  | (id, arg) :: rest => do
    let decl ← orFault (f.decl? id)
    if arg.type = decl.type then
      return ⟨arg.type, arg.allocator⟩ :: (← argTypes f rest)
    else
      throw (.error (.arguments f.name (.type decl.name decl.elem decl.rank arg.elem arg.rank)))

def returnType (f : Func) : Except (Stop OffloadError) (Option ArrayType) :=
  match f.returns with
  | none => .ok none
  | some id => do return some (← orFault (f.decl? id)).type

def ofArgs (f : Func) (args : List ArrayValue) : Except (Stop OffloadError) Signature := do
  if args.length = f.params.length then
    let types ← argTypes f (f.params.zip args)
    return ⟨types, ← returnType f⟩
  else
    throw (.error (.arguments f.name (.count f.params.length args.length)))

def allocator? (signature : Signature) (position : Nat) : Option Allocator :=
  signature.args[position]?.map (·.allocator)

def text (signature : Signature) : String :=
  "(" ++ Text.commaList (signature.args.map (·.text)) ++ ") -> " ++
    match signature.returns with
    | none => "()"
    | some type => type.text

end Signature

end ArrayOffload
