import ArrayOffload.Number.Binary

/-!
# Decimal numbers and their text

A decimal is a coefficient and a power of ten. Reading rounds it once to the nearest code.
Writing takes the fewest digits that read back as the same code, and of those the nearest; a
tie goes up. The printed forms differ only in where the point stands and when an exponent is
written.

* `readCode?`, `readFloat?`: reading;
* `shortest`: the digits to write;
* `plainText`, `singleText`, `constantText`, `debugText`: the printed forms.
-/

namespace ArrayOffload.Number

/-- The number of decimal digits of a natural number; zero has one. -/
def digitCount (n : Nat) : Nat := (Nat.toDigits 10 n).length

/-- `coefficient * 10 ^ exponent` as a ratio. -/
def decimalRatio (coefficient : Nat) (exponent : Int) : Nat × Nat :=
  if 0 ≤ exponent then (coefficient * Nat.pow 10 exponent.toNat, 1)
  else (coefficient, Nat.pow 10 (-exponent).toNat)

/-- The code nearest to a decimal. Decimals beyond `10 ^ 400` or below `10 ^ (-400)` are
decided by their size alone. -/
def decimalCode (fmt : Format) (coefficient : Nat) (exponent : Int) : Nat :=
  if coefficient = 0 then 0
  else
    let top : Int := digitCount coefficient + exponent
    if 400 < top then fmt.infinity
    else if top < -400 then 0
    else
      let value := decimalRatio coefficient exponent
      fmt.code value.1 value.2

/-! ## Reading -/

def digitValue (c : Char) : Nat := c.toNat - '0'.toNat

/-- The value of a run of digits. -/
def digitsValue (digits : List Char) : Nat :=
  digits.foldl (fun value c => 10 * value + digitValue c) 0

/-- A natural number: digits only, at least one. -/
def readNat? (text : List Char) : Option Nat :=
  if text.isEmpty || !text.all Char.isDigit then none else some (digitsValue text)

/-- A natural number up to `limit`, with an optional leading plus sign. -/
def readBounded? (limit : Nat) (text : List Char) : Option Nat :=
  let digits := match text with
    | '+' :: rest => rest
    | _ => text
  (readNat? digits).filter (· ≤ limit)

/-- An optional sign, and what follows it. -/
def splitSign : List Char → Bool × List Char
  | '-' :: rest => (true, rest)
  | '+' :: rest => (false, rest)
  | text => (false, text)

/-- The exponent that ends a number: `e` or `E`, an optional sign and digits; nothing means
zero. -/
def readExponent? : List Char → Option Int
  | [] => some 0
  | c :: rest =>
    if c = 'e' || c = 'E' then
      let signed := splitSign rest
      (readNat? signed.2).map fun n => if signed.1 then -(n : Int) else n
    else none

/-- Digits with an optional point and exponent; the point needs a digit on one side. -/
def readDecimal? (text : List Char) : Option (Nat × Int) :=
  let whole := text.takeWhile Char.isDigit
  let rest := text.dropWhile Char.isDigit
  let split := match rest with
    | '.' :: tail => (tail.takeWhile Char.isDigit, tail.dropWhile Char.isDigit)
    | _ => ([], rest)
  if whole.isEmpty && split.1.isEmpty then none
  else (readExponent? split.2).map fun exponent =>
    (digitsValue (whole ++ split.1), exponent - split.1.length)

/-- The magnitude code of the NaN that has no payload. -/
def quietCode : Nat := 0x7ff8000000000000

/-- The code of a double without its sign: a decimal or one of the words `inf`, `infinity` and
`nan` in any case. -/
def readMagnitude? (text : List Char) : Option Nat :=
  let word := String.ofList (text.map Char.toLower)
  if word = "inf" || word = "infinity" then some binary64.infinity
  else if word = "nan" then some quietCode
  else (readDecimal? text).map fun number => decimalCode binary64 number.1 number.2

/-- Whether a double is negative, and its code. The sign is optional. -/
def readCode? (text : List Char) : Option (Bool × Nat) :=
  let signed := splitSign text
  (readMagnitude? signed.2).map fun code => (signed.1, code)

def readFloat? (text : List Char) : Option Float :=
  (readCode? text).map fun number => ofCode number.1 number.2

/-! ## The digits to write -/

/-- The exponent of the largest power of ten that is at most `num / den`. -/
def ratioLog10 (num den : Nat) : Int :=
  if den ≤ num then (digitCount (num / den) : Int) - 1
  else
    let count := digitCount (den / num)
    if den ≤ num * Nat.pow 10 (count - 1) then 1 - (count : Int) else -(count : Int)

/-- The decimal with `count` digits nearest to the value of `code` among those that read back
as `code`, if there is one. Only the two neighbours of the value can be. -/
def withDigits? (fmt : Format) (code : Nat) (count : Nat) : Option (Nat × Int) :=
  let value := fmt.ratio code
  let step : Int := ratioLog10 value.1 value.2 - (count - 1)
  let unit := decimalRatio 1 step
  let num := value.1 * unit.2
  let den := value.2 * unit.1
  let below := num / den
  let rest := num % den
  let lower := decimalCode fmt below step = code
  let upper := decimalCode fmt (below + 1) step = code
  if lower && (!upper || 2 * rest < den) then some (below, step)
  else if upper then some (below + 1, step)
  else none

/-- The exact decimal value of a code. -/
def exactDecimal (fmt : Format) (code : Nat) : Nat × Int :=
  let split := fmt.parts code
  if 0 ≤ split.2 then (split.1 * Nat.pow 2 split.2.toNat, 0)
  else (split.1 * Nat.pow 5 (-split.2).toNat, split.2)

/-- A coefficient without trailing zeros. -/
def stripZeros : Nat → Nat × Int → Nat × Int
  | 0, number => number
  | fuel + 1, (coefficient, exponent) =>
    if coefficient ≠ 0 && coefficient % 10 = 0 then
      stripZeros fuel (coefficient / 10, exponent + 1)
    else (coefficient, exponent)

/-- The decimal of fewest digits that reads back as `code`; the exact value if seventeen
digits do not. -/
def shortest (fmt : Format) (code : Nat) : Nat × Int :=
  match (List.range 17).findSome? fun n => withDigits? fmt code (n + 1) with
  | some number => stripZeros 18 number
  | none => exactDecimal fmt code

/-! ## Printed forms -/

def zeros (n : Nat) : List Char := List.replicate n '0'

/-- A decimal written without an exponent. -/
def positional (number : Nat × Int) : String :=
  let digits := Nat.toDigits 10 number.1
  if 0 ≤ number.2 then String.ofList (digits ++ zeros number.2.toNat)
  else
    let places := (-number.2).toNat
    let padded := zeros (places + 1 - digits.length) ++ digits
    let whole := padded.length - places
    String.ofList (padded.take whole ++ '.' :: padded.drop whole)

/-- A decimal written with one digit before the point and an exponent. -/
def scientific (number : Nat × Int) : String :=
  let digits := Nat.toDigits 10 number.1
  let exponent := toString (number.2 + (digits.length - 1 : Nat))
  match digits with
  | first :: second :: rest => String.ofList (first :: '.' :: second :: rest) ++ "e" ++ exponent
  | _ => String.ofList digits ++ "e" ++ exponent

/-- The words for what has no digits, and the sign in front of what has. -/
def signedText (fmt : Format) (negative : Bool) (code : Nat) (digits : String) : String :=
  if fmt.infinity < code then "NaN"
  else (if negative then "-" else "") ++ (if code < fmt.infinity then digits else "inf")

/-- The fewest digits that read back, without an exponent. -/
def codeText (fmt : Format) (negative : Bool) (code : Nat) : String :=
  signedText fmt negative code (if code = 0 then "0" else positional (shortest fmt code))

def plainText (v : Float) : String := codeText binary64 (isNegative v) (magnitude v)

/-- The fewest digits that read back in single precision, without an exponent. -/
def singleText (v : Float) : String :=
  if isNaN v then "NaN" else codeText binary32 (isNegative v) (singleCode v)

/-- A constant as written in a function: integers with every digit and `.0`, other numbers
with the fewest digits. -/
def constantText (negative : Bool) (code : Nat) : String :=
  if binary64.isIntegral code then
    let value := binary64.ratio code
    signedText binary64 negative code (toString (value.1 / value.2) ++ ".0")
  else codeText binary64 negative code

/-- The fewest digits that read back, always with a point or an exponent: positional from
`10 ^ (-4)` up to below `10 ^ 16`, with an exponent elsewhere. -/
def debugText (v : Float) : String :=
  let written := signedText binary64 (isNegative v) (magnitude v)
  if magnitude v = 0 then written "0.0"
  else
    let number := shortest binary64 (magnitude v)
    let top := number.2 + (digitCount number.1 - 1 : Nat)
    if isFinite v && (top < -4 || 16 ≤ top) then written (scientific number)
    else if 0 ≤ number.2 then written (positional number ++ ".0")
    else written (positional number)

end ArrayOffload.Number
