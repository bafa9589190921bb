/-!
# Reading TOML text

Readers take characters off the front of a list and fail without a message.

* `blanks`, `lineEnd`, `skipGaps`: what stands between the parts of a document;
* `text`: the four kinds of strings.
-/

namespace ArrayOffload.Toml

/-- A reader of characters. -/
abbrev Scan := StateT (List Char) Option

namespace Scan

def fail {α : Type} : Scan α := StateT.lift none

/-- Read one given character. -/
def eat (c : Char) : Scan Unit := do
  match ← get with
  | d :: tail => if c = d then set tail else fail
  | [] => fail

/-- Read the longest run of characters of a class. -/
def span (p : Char → Bool) : Scan (List Char) := do
  let chars ← get
  set (chars.dropWhile p)
  return chars.takeWhile p

def isSpace (c : Char) : Bool := c = ' ' || c = '\t'

def blanks : Scan Unit := do
  let _ ← span isSpace

/-- Characters of comments: all but control characters. -/
def isPrinting (c : Char) : Bool := c = '\t' || (' ' ≤ c && c ≠ '\x7f')

/-- A line break or the end of the text. -/
def lineBreak : Scan Unit := do
  match ← get with
  | [] => return ()
  | '\n' :: tail | '\r' :: '\n' :: tail => set tail
  | _ => fail

/-- The rest of a line that may hold a comment only. -/
def lineEnd : Scan Unit := do
  blanks
  match ← get with
  | '#' :: tail =>
    set (tail.dropWhile isPrinting)
    lineBreak
  | _ => lineBreak

/-- Skip blanks, line breaks and comments. -/
def skipGapsFrom : Bool → List Char → List Char
  | _, '\n' :: tail | _, '\r' :: '\n' :: tail => skipGapsFrom false tail
  | false, c :: tail =>
    if isSpace c then skipGapsFrom false tail
    else if c = '#' then skipGapsFrom true tail
    else c :: tail
  | true, c :: tail => if isPrinting c then skipGapsFrom true tail else c :: tail
  | _, [] => []

def skipGaps : Scan Unit := modify (skipGapsFrom false)

/-! ## Strings -/

def hexDigit? (c : Char) : Option Nat :=
  if c.isDigit then some (c.toNat - '0'.toNat)
  else if 'a' ≤ c && c ≤ 'f' then some (c.toNat - 'a'.toNat + 10)
  else if 'A' ≤ c && c ≤ 'F' then some (c.toNat - 'A'.toNat + 10)
  else none

/-- The number written by hexadecimal digits. -/
def hexValue? (digits : List Char) : Option Nat :=
  digits.foldlM (fun value c => (hexDigit? c).map (16 * value + ·)) 0

/-- A character by its code point; surrogates are none. -/
def charOf? (code : Nat) : Option Char :=
  if h : code.isValidChar then some (Char.ofNatAux code h) else none

/-- A character given by `count` hexadecimal digits. -/
def codePoint (count : Nat) : Scan Char := do
  let chars ← get
  let digits := chars.take count
  if digits.length = count then
    set (chars.drop count)
    StateT.lift ((hexValue? digits).bind charOf?)
  else fail

/-- What a backslash stands for, together with what follows it. -/
def escape : Scan Char := do
  match ← get with
  | c :: tail =>
    set tail
    match c with
    | 'b' => return '\x08'
    | 't' => return '\t'
    | 'n' => return '\n'
    | 'f' => return '\x0c'
    | 'r' => return '\r'
    | '"' => return '"'
    | '\\' => return '\\'
    | 'u' => codePoint 4
    | 'U' => codePoint 8
    | _ => fail
  | [] => fail

/-- The rest of a string in double quotes. The fuel bounds its length. -/
def basic : Nat → List Char → Scan (List Char)
  | 0, _ => fail
  | fuel + 1, done => do
    match ← get with
    | '"' :: tail =>
      set tail
      return done
    | '\\' :: tail =>
      set tail
      basic fuel (done ++ [← escape])
    | c :: tail =>
      if isPrinting c then
        set tail
        basic fuel (done ++ [c])
      else fail
    | [] => fail

/-- The rest of a string in single quotes. -/
def literal : Scan (List Char) := do
  let chars ← span fun c => isPrinting c && c ≠ '\''
  eat '\''
  return chars

/-- Quotes in a long string: three of them end it, and up to two more before them belong to
it. Returns the quotes that belong to the string and whether it ends. -/
def quoteRun (quote : Char) : Scan (List Char × Bool) := do
  let chars ← get
  let count := (chars.takeWhile (· = quote)).length
  if 3 ≤ count then
    let extra := min (count - 3) 2
    set (chars.drop (3 + extra))
    return (List.replicate extra quote, true)
  else
    set (chars.drop count)
    return (List.replicate count quote, false)

/-- After a backslash at the end of a line, all blanks and line breaks are skipped. -/
def skipFold : List Char → List Char
  | '\n' :: tail | '\r' :: '\n' :: tail => skipFold tail
  | c :: tail => if isSpace c then skipFold tail else c :: tail
  | [] => []

/-- A backslash in a long string: an escape, or a line that goes on. -/
def longEscape : Scan (List Char) := do
  let chars ← get
  match chars.dropWhile isSpace with
  | '\n' :: tail | '\r' :: '\n' :: tail =>
    set (skipFold tail)
    return []
  | _ => return [← escape]

/-- The rest of a long string. Line breaks are read as one character. -/
def long (quote : Char) : Nat → List Char → Scan (List Char)
  | 0, _ => fail
  | fuel + 1, done => do
    match ← get with
    | [] => fail
    | '\n' :: tail | '\r' :: '\n' :: tail =>
      set tail
      long quote fuel (done ++ ['\n'])
    | c :: tail =>
      if c = quote then
        let (quotes, ends) ← quoteRun quote
        if ends then return done ++ quotes else long quote fuel (done ++ quotes)
      else if c = '\\' && quote = '"' then
        set tail
        let chars ← longEscape
        long quote fuel (done ++ chars)
      else if isPrinting c then
        set tail
        long quote fuel (done ++ [c])
      else fail

/-- A line break right after the opening quotes of a long string is dropped. -/
def dropBreak : List Char → List Char
  | '\n' :: tail | '\r' :: '\n' :: tail => tail
  | chars => chars

/-- A string of one line. -/
def shortText : Scan String := do
  match ← get with
  | '"' :: tail =>
    set tail
    return String.ofList (← basic (tail.length + 1) [])
  | '\'' :: tail =>
    set tail
    return String.ofList (← literal)
  | _ => fail

/-- A string of any kind. -/
def text : Scan String := do
  match ← get with
  | '"' :: '"' :: '"' :: tail =>
    set (dropBreak tail)
    return String.ofList (← long '"' (tail.length + 1) [])
  | '\'' :: '\'' :: '\'' :: tail =>
    set (dropBreak tail)
    return String.ofList (← long '\'' (tail.length + 1) [])
  | _ => shortText

end Scan

end ArrayOffload.Toml
