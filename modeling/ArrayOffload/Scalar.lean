import ArrayOffload.Number.Decimal

/-!
# Constants

A constant of a function is a double, kept as its bits. The bits tell apart what arithmetic and
comparison do not: the two zeros, and the NaNs with different payloads. So two functions whose
constants differ in any bit are different functions.

* `Scalar.value`: the number that a constant stands for;
* `Scalar.text`, `Scalar.read?`: its written form, both ways.
-/

namespace ArrayOffload

structure Scalar where
  bits : UInt64
deriving DecidableEq, Repr

namespace Scalar

/-- The constant with the given sign and magnitude code. -/
def ofCode (negative : Bool) (code : Nat) : Scalar :=
  ⟨UInt64.ofNat (code + if negative then Number.signBit else 0)⟩

def zero : Scalar := ofCode false 0

/-- The constant nearest to a natural number. -/
def ofNat (n : Nat) : Scalar := ofCode false (Number.binary64.code n 1)

/-- Whether the sign bit is set. -/
def isNegative (s : Scalar) : Bool := Number.signBit ≤ s.bits.toNat

/-- The bits other than the sign, read as a code; larger than infinity for a NaN. -/
def magnitude (s : Scalar) : Nat := s.bits.toNat % Number.signBit

/-- Neither an infinity nor a NaN. -/
def isFinite (s : Scalar) : Bool := s.magnitude < Number.binary64.infinity

def value (s : Scalar) : Float := Float.ofBits s.bits

/-- A constant as written in a function. -/
def text (s : Scalar) : String := Number.constantText s.isNegative s.magnitude

/-- A constant in its shortest form. -/
def shortText (s : Scalar) : String :=
  Number.codeText Number.binary64 s.isNegative s.magnitude

/-- Read a constant. -/
def read? (text : List Char) : Option Scalar :=
  (Number.readCode? text).map fun number => ofCode number.1 number.2

end Scalar

end ArrayOffload
