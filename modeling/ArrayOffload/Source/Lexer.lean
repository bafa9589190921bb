import ArrayOffload.Source.Token

/-!
# From characters to tokens

Blanks and comments separate tokens. A character that starts no token is reported and skipped.
Positions count bytes, so a character beyond ASCII moves them by its encoded size.

* `skipGap`: blanks and comments, noting line breaks;
* `scanNumber`: the longest number at the front;
* `tokenize`: every token of a source, the end of the file last, and every problem.
-/

namespace ArrayOffload.Source

/-- The blanks of a source: ASCII white space. -/
def isGap (c : Char) : Bool :=
  c = ' ' || c = '\t' || c = '\n' || c = '\r' || c.toNat = 12

def isIdentStart (c : Char) : Bool := c.isAlpha || c = '_'

def isIdentRest (c : Char) : Bool := c.isAlphanum || c = '_'

/-- The bytes that characters take. -/
def byteSize (cs : List Char) : Nat := cs.foldr (fun c size => c.utf8Size + size) 0

/-- A place in a source: the bytes before it, whether no token stands before it on its line,
and the characters that follow. -/
structure Place where
  position : Nat
  lineStart : Bool
  rest : List Char
deriving Repr

/-- Move past blanks and comments. `inComment` holds between `//` and the end of the line. -/
def skipGap (inComment : Bool) (position : Nat) (lineStart : Bool) : List Char → Place
  | [] => ⟨position, lineStart, []⟩
  | c :: rest =>
    if c = '\n' then skipGap false (position + 1) true rest
    else if inComment then skipGap true (position + c.utf8Size) lineStart rest
    else if isGap c then skipGap false (position + 1) lineStart rest
    else if c = '/' && rest.head? = some '/' then skipGap true (position + 1) lineStart rest
    else ⟨position, lineStart, c :: rest⟩

/-- Digits, and what follows them. -/
def spanDigits (cs : List Char) : List Char × List Char :=
  (cs.takeWhile Char.isDigit, cs.dropWhile Char.isDigit)

/-- An exponent with at least one digit, or nothing. -/
def scanExponent (cs : List Char) : List Char × List Char :=
  match cs with
  | e :: rest =>
    if e = 'e' || e = 'E' then
      let sign := match rest with
        | s :: _ => if s = '+' || s = '-' then [s] else []
        | [] => []
      let digits := spanDigits (rest.drop sign.length)
      if digits.1.isEmpty then ([], cs) else (e :: sign ++ digits.1, digits.2)
    else ([], cs)
  | [] => ([], [])

/-- A fraction with its point, or nothing. -/
def scanFraction (cs : List Char) : List Char × List Char :=
  match cs with
  | '.' :: rest => ('.' :: (spanDigits rest).1, (spanDigits rest).2)
  | _ => ([], cs)

/-- A number literal split into its parts, and what follows it. -/
structure NumberText where
  sign : List Char
  whole : List Char
  fraction : List Char
  exponent : List Char
  rest : List Char
deriving Repr

def scanNumber (cs : List Char) : NumberText :=
  let signed : List Char × List Char := match cs with
    | '-' :: rest => (['-'], rest)
    | _ => ([], cs)
  let whole := spanDigits signed.2
  let fraction := scanFraction whole.2
  let exponent := scanExponent fraction.2
  ⟨signed.1, whole.1, fraction.1, exponent.1, exponent.2⟩

def NumberText.chars (n : NumberText) : List Char :=
  n.sign ++ n.whole ++ n.fraction ++ n.exponent

/-- Whether a number starts here. -/
def startsNumber : List Char → Bool
  | [] => false
  | c :: rest =>
    let next := rest.head?
    c.isDigit || (c = '-' && (next.any Char.isDigit || next = some '.')) ||
      (c = '.' && next.any Char.isDigit)

/-- The largest integer literal. -/
def integerLimit : Nat := 0xffffffffffffffff

/-- The lexeme of a number: an integer if it is digits only and in range. -/
def NumberText.lexeme? (n : NumberText) : Option Lexeme :=
  let plain := n.sign.isEmpty && n.fraction.isEmpty && n.exponent.isEmpty
  match (if plain then Number.readBounded? integerLimit n.whole else none) with
  | some value => some (.integer value)
  | none => (Scalar.read? n.chars).map .number

/-- What stands at the front of a source: its lexeme, what is wrong with it, its characters and
the rest. -/
structure Piece where
  lexeme? : Option Lexeme
  problem? : Option Problem
  chars : List Char
  rest : List Char

/-- The map that replaces an arithmetic sign. -/
def infixMap? (c : Char) : Option MapOp :=
  [('+', MapOp.add), ('-', .sub), ('*', .mul), ('/', .div)].lookup c

/-- The piece that starts with `c`. -/
def nextPiece (c : Char) (rest : List Char) : Piece :=
  if isIdentStart c then
    let word := c :: rest.takeWhile isIdentRest
    let name := String.ofList word
    let lexeme := ((Symbol.keyword? name).map Lexeme.symbol).getD (.ident name)
    ⟨some lexeme, none, word, rest.dropWhile isIdentRest⟩
  else if startsNumber (c :: rest) then
    let number := scanNumber (c :: rest)
    match number.lexeme? with
    | some lexeme => ⟨some lexeme, none, number.chars, number.rest⟩
    | none =>
      ⟨some (.number .zero), some (.badNumber (String.ofList number.chars)),
        number.chars, number.rest⟩
  else if c = '-' && rest.head? = some '>' then
    ⟨some (.symbol .arrow), none, ['-', '>'], rest.drop 1⟩
  else match Symbol.mark? c, infixMap? c with
    | some symbol, _ => ⟨some (.symbol symbol), none, [c], rest⟩
    | none, some operation => ⟨none, some (.infixOperator c operation), [c], rest⟩
    | none, none => ⟨none, some (.badCharacter c), [c], rest⟩

/-- Read tokens from a place on. Every piece takes a character, so `fuel` is never used up
when it is at least the number of characters. -/
def tokensFrom : Nat → Nat → Bool → List Char → List Token × List Diagnostic
  | 0, position, lineStart, _ =>
    ([⟨.symbol .endOfFile, ⟨position, position⟩, lineStart⟩], [])
  | fuel + 1, position, lineStart, cs =>
    let place := skipGap false position lineStart cs
    match place.rest with
    | [] =>
      ([⟨.symbol .endOfFile, ⟨place.position, place.position⟩, place.lineStart⟩], [])
    | c :: rest =>
      let piece := nextPiece c rest
      let span : Span := ⟨place.position, place.position + byteSize piece.chars⟩
      let later := tokensFrom fuel span.stop false piece.rest
      ((piece.lexeme?.map fun lexeme => Token.mk lexeme span place.lineStart).toList ++ later.1,
        (piece.problem?.map fun problem => Diagnostic.mk problem span).toList ++ later.2)

/-- The tokens of a source and the problems found while reading them. -/
def tokenize (source : String) : List Token × List Diagnostic :=
  tokensFrom (source.toList.length + 1) 0 true source.toList

end ArrayOffload.Source
