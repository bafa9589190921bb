import ArrayOffload.Number.Decimal
import ArrayOffload.Toml.Node
import ArrayOffload.Toml.Scan

/-!
# Numbers, dates and times

Dates must exist in the calendar. Integers must fit in 64 bits with sign, and floats must not
round to infinity.
-/

namespace ArrayOffload.Toml.Scan

/-- A number of exactly `count` digits between two bounds. -/
def fixed (count low high : Nat) : Scan Nat := do
  let chars ← get
  match Number.readNat? (chars.take count) with
  | some value =>
    if (chars.take count).length = count && low ≤ value && value ≤ high then
      set (chars.drop count)
      return value
    else fail
  | none => fail

def daysIn (year month : Nat) : Nat :=
  if month = 2 then
    if year % 4 = 0 && (year % 100 ≠ 0 || year % 400 = 0) then 29 else 28
  else if month ∈ [4, 6, 9, 11] then 30 else 31

def date : Scan Unit := do
  let year ← fixed 4 0 9999
  eat '-'
  let month ← fixed 2 1 12
  eat '-'
  let _ ← fixed 2 1 (daysIn year month)

def time : Scan Unit := do
  let _ ← fixed 2 0 23
  eat ':'
  let _ ← fixed 2 0 59
  eat ':'
  let _ ← fixed 2 0 60
  match ← get with
  | '.' :: tail =>
    set tail
    let digits ← span Char.isDigit
    if digits.isEmpty then fail
  | _ => return ()

/-- The offset of a time from universal time, if there is one. -/
def offset : Scan Unit := do
  match ← get with
  | c :: tail =>
    if c = 'Z' || c = 'z' then set tail
    else if c = '+' || c = '-' then
      set tail
      let _ ← fixed 2 0 23
      eat ':'
      let _ ← fixed 2 0 59
  | [] => return ()

/-- A time after a date, after `T` or one blank. A blank may also end the value. -/
def dayTime : Scan Unit := do
  match ← get with
  | c :: tail =>
    if c = 'T' || c = 't' then
      set tail
      time
      offset
    else if c = ' ' && tail.head?.any Char.isDigit then
      set tail
      time
      offset
  | [] => return ()

/-- Whether a value starts as a date or a time does. -/
def startsMoment (chars : List Char) : Bool :=
  let digits := (chars.takeWhile Char.isDigit).length
  match chars.drop digits with
  | '-' :: _ => digits = 4
  | ':' :: _ => digits = 2
  | _ => false

def moment : Scan Unit := do
  if (← get).take 3 |>.contains ':' then time
  else
    date
    dayTime

/-- Digits of a class, with single underscores between them. -/
def groups (p : Char → Bool) : List Char → List Char × List Char
  | '_' :: c :: rest =>
    if p c then
      let (digits, tail) := groups p rest
      (c :: digits, tail)
    else ([], '_' :: c :: rest)
  | c :: rest =>
    if p c then
      let (digits, tail) := groups p rest
      (c :: digits, tail)
    else ([], c :: rest)
  | [] => ([], [])

/-- At least one digit, then more of them. -/
def digitRun (p : Char → Bool) : Scan (List Char) := do
  match ← get with
  | c :: tail =>
    if p c then
      let (digits, rest) := groups p tail
      set rest
      return c :: digits
    else fail
  | [] => fail

/-- A decimal number without needless leading zeros. -/
def whole : Scan (List Char) := do
  match ← get with
  | '0' :: tail =>
    set tail
    return ['0']
  | _ => digitRun Char.isDigit

def sign : Scan (List Char) := do
  match ← get with
  | c :: tail =>
    if c = '+' || c = '-' then
      set tail
      return [c]
    else return []
  | [] => return []

def exponent : Scan (List Char) := do
  match ← get with
  | c :: tail =>
    if c = 'e' || c = 'E' then
      set tail
      let mark ← sign
      return 'e' :: mark ++ (← digitRun Char.isDigit)
    else return []
  | [] => return []

def fraction : Scan (List Char) := do
  match ← get with
  | '.' :: tail =>
    set tail
    return '.' :: (← digitRun Char.isDigit)
  | _ => return []

/-- The largest integer. -/
def integerLimit : Nat := 0x7fffffffffffffff

def integerOf (mark digits : List Char) : Scan Node := do
  let value := Number.digitsValue digits
  if mark = ['-'] then
    if value ≤ integerLimit + 1 then return .integer (-(value : Int)) else fail
  else if value ≤ integerLimit then return .integer value
  else fail

/-- An integer in another base, after its mark. -/
def based (base : Nat) : Scan Node := do
  let digits ← digitRun fun c => (hexDigit? c).any (· < base)
  let value := digits.foldl (fun n c => base * n + (hexDigit? c).getD 0) 0
  if value ≤ integerLimit then return .integer value else fail

/-- A decimal integer or a float. -/
def decimal : Scan Node := do
  let mark ← sign
  match ← get with
  | 'i' :: 'n' :: 'f' :: tail | 'n' :: 'a' :: 'n' :: tail =>
    set tail
    return .float
  | _ =>
    let digits ← whole
    let tail := (← fraction) ++ (← exponent)
    if tail.isEmpty then integerOf mark digits
    else
      match Number.readFloat? (mark ++ digits ++ tail) with
      | some value =>
        if value.toBits.toNat = Number.binary64.infinity then fail else return .float
      | none => fail

def number : Scan Node := do
  match ← get with
  | '0' :: 'x' :: tail =>
    set tail
    based 16
  | '0' :: 'o' :: tail =>
    set tail
    based 8
  | '0' :: 'b' :: tail =>
    set tail
    based 2
  | chars =>
    if startsMoment chars then
      moment
      return .moment
    else decimal

end ArrayOffload.Toml.Scan
