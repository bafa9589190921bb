/-!
# Binary floating-point codes

A finite magnitude of a binary format is a *code*: a natural number that counts the
representable magnitudes from zero upwards. The code of infinity is one past the largest
finite one. Rounding a ratio to the nearest code, ties to even, is exact integer arithmetic,
so every conversion below is a function on natural numbers and reads back without loss.

* `Format.code`: the code nearest to `num / den`;
* `Format.parts`: the significand and exponent that a code stands for;
* `Number.toSingle`, `Number.truncate`, `Number.ofInt`: conversions of `Float` built on them.
-/

namespace ArrayOffload.Number

/-- A binary format: significand bits with the leading one, the exponent of the least
positive magnitude, and the code of infinity. -/
structure Format where
  precision : Nat
  minExponent : Int
  infinity : Nat
deriving DecidableEq, Repr

def binary64 : Format := ⟨53, -1074, 0x7ff0000000000000⟩

def binary32 : Format := ⟨24, -149, 0x7f800000⟩

/-- `num / den` rounded to the nearest natural number, a half to the even neighbour. -/
def roundQuotient (num den : Nat) : Nat :=
  let quotient := num / den
  let rest := num % den
  if 2 * rest < den then quotient
  else if den < 2 * rest then quotient + 1
  else if quotient % 2 = 0 then quotient else quotient + 1

/-- `a / b * 2 ^ e` as a ratio of natural numbers. -/
def scaleRatio (a b : Nat) (e : Int) : Nat × Nat :=
  if 0 ≤ e then (a * Nat.pow 2 e.toNat, b) else (a, b * Nat.pow 2 (-e).toNat)

/-- The exponent of the largest power of two that is at most `num / den`. -/
def ratioLog2 (num den : Nat) : Int :=
  let guess : Int := (num.log2 : Int) - (den.log2 : Int)
  let scaled := scaleRatio num den (-guess)
  if scaled.2 ≤ scaled.1 then guess else guess - 1

namespace Format

/-- The number of codes that share one exponent. -/
def span (fmt : Format) : Nat := Nat.pow 2 (fmt.precision - 1)

/-- The code nearest to `num / den`; a tie goes to the even code, and what is too large
becomes infinity. -/
def code (fmt : Format) (num den : Nat) : Nat :=
  if num = 0 then 0
  else
    let unit := max fmt.minExponent (ratioLog2 num den - (fmt.precision - 1))
    let scaled := scaleRatio num den (-unit)
    let significand := roundQuotient scaled.1 scaled.2
    min fmt.infinity (significand + (unit - fmt.minExponent).toNat * fmt.span)

/-- The significand and exponent of a finite code: it stands for `significand * 2 ^ exponent`. -/
def parts (fmt : Format) (code : Nat) : Nat × Int :=
  let field := code / fmt.span
  let fraction := code % fmt.span
  if field = 0 then (fraction, fmt.minExponent)
  else (fraction + fmt.span, fmt.minExponent + field - 1)

/-- The exact value of a finite code, as a ratio. -/
def ratio (fmt : Format) (code : Nat) : Nat × Nat :=
  let split := fmt.parts code
  scaleRatio split.1 1 split.2

/-- Whether a code is finite and has no fractional part. -/
def isIntegral (fmt : Format) (code : Nat) : Bool :=
  let value := fmt.ratio code
  code < fmt.infinity && value.1 % value.2 = 0

end Format

/-- The weight of the sign bit of a double. -/
def signBit : Nat := 0x8000000000000000

/-- Whether the sign bit is set. -/
def isNegative (v : Float) : Bool := signBit ≤ v.toBits.toNat

/-- The magnitude bits of a double, read as a code; larger than infinity for a NaN. -/
def magnitude (v : Float) : Nat := v.toBits.toNat % signBit

/-- The double with the given sign and magnitude code. -/
def ofCode (negative : Bool) (code : Nat) : Float :=
  Float.ofBits (UInt64.ofNat (code + if negative then signBit else 0))

/-- Neither an infinity nor a NaN. -/
def isFinite (v : Float) : Bool := magnitude v < binary64.infinity

def isNaN (v : Float) : Bool := binary64.infinity < magnitude v

/-- The double that lies at the given position of another format. -/
def widen (fmt : Format) (negative : Bool) (code : Nat) : Float :=
  if fmt.infinity ≤ code then ofCode negative binary64.infinity
  else
    let value := fmt.ratio code
    ofCode negative (binary64.code value.1 value.2)

/-- The single-precision code of a finite double's magnitude. -/
def singleCode (v : Float) : Nat :=
  if magnitude v = binary64.infinity then binary32.infinity
  else
    let value := binary64.ratio (magnitude v)
    binary32.code value.1 value.2

/-- Round to single precision; a NaN stays a NaN. -/
def toSingle (v : Float) : Float :=
  if isNaN v then v else widen binary32 (isNegative v) (singleCode v)

/-- The nearest double to an integer; zero is positive. -/
def ofInt (n : Int) : Float := ofCode (n < 0) (binary64.code n.natAbs 1)

/-- The integer part of a double, kept within `low` and `high`; a NaN gives zero. -/
def truncate (low high : Int) (v : Float) : Int :=
  if isNaN v then 0
  else if isFinite v then
    let value := binary64.ratio (magnitude v)
    let size : Int := (value.1 / value.2 : Nat)
    max low (min high (if isNegative v then -size else size))
  else if isNegative v then low else high

end ArrayOffload.Number
