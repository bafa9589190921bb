import ArrayOffload.Digest.ContentHash
import ArrayOffload.Signature

/-!
# Keys of compiled units

A unit is known to the cache by function, signature and context, and to the outside by a
fingerprint that does not depend on when the function was registered.
-/

namespace ArrayOffload

/-- A registered function, by its position. -/
abbrev FuncId := Nat

def FuncId.text (id : FuncId) : String := s!"fn#{id}"

structure UnitKey where
  function : FuncId
  signature : Signature
  context : DeviceContext
deriving DecidableEq, Repr

def UnitKey.text (key : UnitKey) : String :=
  s!"{FuncId.text key.function} {key.signature.text} on {key.context.text}"

namespace Encoding

def allocator : Allocator → UInt8
  | .copied => 0
  | .shared => 1

def argType (arg : ArgType) : List UInt8 :=
  elem arg.type.elem :: word32 arg.type.rank ++ [allocator arg.allocator]

def returnType : Option ArrayType → List UInt8
  | none => [0x10]
  | some type => elem type.elem :: word32 type.rank

def signature (s : Signature) : List UInt8 :=
  word32 s.args.length ++ s.args.flatMap argType ++ returnType s.returns

/-- All that a compiled unit depends on. -/
def unit (function : ContentHash) (s : Signature) (c : DeviceContext) : List UInt8 :=
  function.bytes ++ signature s ++ context c

end Encoding

/-- The hash of all that a compiled unit depends on. -/
def unitFingerprint (function : ContentHash) (signature : Signature) (context : DeviceContext) :
    ContentHash :=
  .ofEncoding (Encoding.unit function signature context)

end ArrayOffload
