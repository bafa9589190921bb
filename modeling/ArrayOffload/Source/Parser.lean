import ArrayOffload.Func.Builder
import ArrayOffload.Source.Lexer

/-!
# From tokens to functions

Reading goes on after a problem, so that one pass reports as many as it can: after a bad
statement it resumes at the next line or closing brace, after a bad item at the next function.
Functions are returned only when nothing is wrong.

Every loop stops as soon as a round takes no token, so the number of tokens at hand bounds its
rounds.

* `parseTokens`: functions, or a list of problems that is not empty;
* `parseSource`: the same from text; problems of the lexer stop the parser from running.
-/

namespace ArrayOffload.Source

/-- Where reading stands: the last token taken, the tokens left (the end of the file last), the
problems so far and the function under construction. -/
structure Reader where
  previous : Span
  rest : List Token
  problems : List Diagnostic
  draft : Func

abbrev Parser := StateM Reader

/-- A value and the place it was written at. -/
structure Located (α : Type) where
  value : α
  span : Span

namespace Reader

def current (r : Reader) : Token :=
  r.rest.head?.getD ⟨.symbol .endOfFile, r.previous, true⟩

/-- Take the current token; the last one stays. -/
def advance (r : Reader) : Reader :=
  match r.rest with
  | token :: next :: rest => { r with previous := token.span, rest := next :: rest }
  | _ => r

def isAt (r : Reader) (symbol : Symbol) : Bool :=
  match r.current.lexeme with
  | .symbol s => s = symbol
  | _ => false

def report (r : Reader) (problem : Problem) (span : Span) : Reader :=
  { r with problems := r.problems ++ [⟨problem, span⟩] }

end Reader

/-! ## Single tokens -/

def current : Parser Token := return (← get).current

def advance : Parser Unit := modify Reader.advance

def isAt (symbol : Symbol) : Parser Bool := return (← get).isAt symbol

def report (problem : Problem) (span : Span) : Parser Unit := modify (·.report problem span)

/-- Report something at the current token. -/
def reportHere (problem : String → Problem) : Parser Unit := do
  let token ← current
  report (problem token.lexeme.description) token.span

/-- Take the symbol if it is next. -/
def eat (symbol : Symbol) : Parser Bool := do
  if ← isAt symbol then
    advance
    return true
  else return false

/-- Take the symbol, or report that it is missing and stay. -/
def expect (symbol : Symbol) : Parser Span := do
  let token ← current
  if ← eat symbol then return token.span
  else
    reportHere (.expected symbol.description)
    return token.span

/-- The name that stands for a missing one. -/
def missingName : String := "_error_"

def expectIdent : Parser (Located String) := do
  let token ← current
  match token.lexeme with
  | .ident name =>
    advance
    return ⟨name, token.span⟩
  | _ =>
    reportHere (.expected "identifier")
    return ⟨missingName, token.span⟩

def expectInteger : Parser Nat := do
  let token ← current
  match token.lexeme with
  | .integer value =>
    advance
    return value
  | _ =>
    reportHere (.expected "integer literal")
    return 0

def expectScalar : Parser Scalar := do
  let token ← current
  match token.lexeme with
  | .integer value =>
    advance
    return .ofNat value
  | .number value =>
    advance
    return value
  | _ =>
    reportHere (.expected "number")
    return .zero

/-! ## Loops and recovery -/

/-- Items up to the closing symbol, with commas between them; a missing comma ends the list. -/
def itemsWithin (close : Symbol) (item : Parser Unit) : Nat → Parser Unit
  | 0 => return
  | rounds + 1 => do
    unless (← isAt close) || (← isAt .endOfFile) do
      item
      if ← eat .comma then itemsWithin close item rounds

def items (close : Symbol) (item : Parser Unit) : Parser Unit := do
  itemsWithin close item (← get).rest.length

/-- Like `items`, collecting what the items give. -/
def collectWithin {α : Type} (close : Symbol) (item : Parser (Option α)) :
    Nat → Parser (List α)
  | 0 => return []
  | rounds + 1 => do
    if (← isAt close) || (← isAt .endOfFile) then return []
    else
      let value ← item
      if ← eat .comma then return value.toList ++ (← collectWithin close item rounds)
      else return value.toList

def collect {α : Type} (close : Symbol) (item : Parser (Option α)) : Parser (List α) := do
  collectWithin close item (← get).rest.length

/-- Drop tokens until one satisfies `stop`; the last token always does. -/
def dropUntil (stop : Token → Bool) (previous : Span) : List Token → Span × List Token
  | token :: next :: rest =>
    if stop token then (previous, token :: next :: rest)
    else dropUntil stop token.span (next :: rest)
  | rest => (previous, rest)

def skipTo (stop : Token → Bool) : Parser Unit :=
  modify fun r =>
    let skipped := dropUntil stop r.previous r.rest
    { r with previous := skipped.1, rest := skipped.2 }

def Token.isSymbol (token : Token) (symbol : Symbol) : Bool :=
  match token.lexeme with
  | .symbol s => s = symbol
  | _ => false

/-- To the first token of a line, or a closing brace. -/
def skipToStatement : Parser Unit :=
  skipTo fun token => token.isSymbol .endOfFile || token.isSymbol .rightBrace || token.lineStart

/-- To the next function or attribute. -/
def skipToItem : Parser Unit :=
  skipTo fun token => token.isSymbol .endOfFile || token.isSymbol .fn || token.isSymbol .hash

/-! ## Names -/

def reportUnknown (name : Located String) : Parser Unit := do
  report (.unknownArray name.value (← get).draft.declaredNames) name.span

/-- The array of that name. A missing name was reported already. -/
def resolve (name : Located String) : Parser (Option ArrayId) := do
  match (← get).draft.lookup? name.value with
  | some id => return some id
  | none =>
    if name.value ≠ missingName then reportUnknown name
    return none

/-- Add a declaration unless the name is taken. -/
def declareAs (name : Located String) (add : Func → ArrayId × Func) : Parser Unit := do
  if ((← get).draft.lookup? name.value).isSome then report (.alreadyDeclared name.value) name.span
  else modify fun r => { r with draft := (add r.draft).2 }

def addOp (op : Op) : Parser Unit := modify fun r => { r with draft := r.draft.push op }

def parseElem : Parser Elem := do
  let word ← expectIdent
  match Elem.ofName? word.value with
  | some elem => return elem
  | none =>
    report (.unknownElem word.value) word.span
    return .f32

/-! ## Statements -/

def parseArray : Parser (Option ArrayId) := do resolve (← expectIdent)

/-- Array names in parentheses. -/
def parseArrays : Parser (List ArrayId) := do
  let _ ← expect .leftParen
  let ids ← collect .rightParen parseArray
  let _ ← expect .rightParen
  return ids

/-- `let t: f32 like a` or `let s: f64[4]`. -/
def parseLet : Parser Unit := do
  let _ ← expect .let
  let name ← expectIdent
  let _ ← expect .colon
  let elem ← parseElem
  if ← eat .like then
    if let some source ← parseArray then declareAs name (·.addLike name.value elem source)
  else if ← eat .leftBracket then
    let dims ← collect .rightBracket (some <$> expectInteger)
    let _ ← expect .rightBracket
    if dims.isEmpty then report (.noDimension name.value) name.span
    else declareAs name (·.addFixed name.value elem dims)
  else reportHere .expectedShape

/-- `call f(a, b) -> (c)`. -/
def parseCall : Parser Unit := do
  let _ ← expect .call
  let callee ← expectIdent
  let reads ← parseArrays
  let writes ← if ← eat .arrow then parseArrays else pure []
  addOp (.call callee.value reads writes)

def parseOperand : Parser (Option Operand) := do
  match (← current).lexeme with
  | .ident _ => return (← parseArray).map .array
  | _ => return some (.scalar (← expectScalar))

/-- The part after `a = reduce` or `a = scan`. -/
def parseFold (make : FoldOp → ArrayId → Op) : Parser Unit := do
  let word ← expectIdent
  let _ ← expect .leftParen
  match FoldOp.ofName? word.value with
  | none => report (.unknownFold word.value) word.span
  | some op =>
    let input ← expectIdent
    let _ ← expect .rightParen
    if let some input ← resolve input then addOp (make op input)

/-- The part after `a =`. -/
def parseMap (out : ArrayId) : Parser Unit := do
  let word ← expectIdent
  let _ ← expect .leftParen
  match MapOp.ofName? word.value with
  | none => report (.unknownMap word.value) word.span
  | some op =>
    let args ← collect .rightParen parseOperand
    let _ ← expect .rightParen
    addOp (.map out op args)

/-- The part after `a[`. -/
def parseStore (array : ArrayId) : Parser Unit := do
  let index ← expectInteger
  let _ ← expect .rightBracket
  let _ ← expect .equals
  let value ← expectScalar
  addOp (.store array index value)

/-- `a = op(x, 2.0)`, `s = reduce sum(a)`, `t = scan max(a)` or `a[3] = 1.5`. -/
def parseAssign : Parser Unit := do
  if let some target ← parseArray then
    if ← eat .leftBracket then parseStore target
    else
      let _ ← expect .equals
      if ← eat .reduce then parseFold (.reduce target)
      else if ← eat .scan then parseFold (.scan target)
      else parseMap target

def parseStatement : Parser Unit := do
  match (← current).lexeme with
  | .symbol .let => parseLet
  | .symbol .print =>
    advance
    addOp (.print (← parseArrays))
  | .symbol .call => parseCall
  | .ident _ => parseAssign
  | _ =>
    reportHere (.expected "statement")
    advance

/-- Statements up to the closing brace. -/
def statementsWithin : Nat → Parser Unit
  | 0 => return
  | rounds + 1 => do
    unless (← isAt .rightBrace) || (← isAt .endOfFile) do
      let mark := (← get).problems.length
      parseStatement
      let _ ← eat .semicolon
      if mark < (← get).problems.length then skipToStatement
      statementsWithin rounds

/-! ## Functions -/

/-- `name: f32[_, _]`. -/
def parseParam : Parser Unit := do
  let name ← expectIdent
  let _ ← expect .colon
  let elem ← parseElem
  let _ ← expect .leftBracket
  let dims ← collect .rightBracket do
    let dim ← expectIdent
    if dim.value ≠ "_" then report (.paramDimension dim.value) dim.span
    return some ()
  let _ ← expect .rightBracket
  declareAs name (·.addParam name.value elem dims.length)

/-- `#[serial]`. -/
def parseAttribute : Parser Unit := do
  let start ← expect .hash
  let _ ← expect .leftBracket
  let name ← expectIdent
  let _ ← expect .rightBracket
  if name.value = "serial" then
    modify fun r => { r with draft := { r.draft with serialOnly := true } }
  else report (.unknownAttribute name.value) (start.merge (← get).previous)

def attributesWithin : Nat → Parser Unit
  | 0 => return
  | rounds + 1 => do
    if ← isAt .hash then
      parseAttribute
      attributesWithin rounds

/-- The name after the arrow, if there is one. -/
def parseReturned : Parser (Option (Located String)) := do
  if ← eat .arrow then return some (← expectIdent) else return none

/-- Set the returned array. -/
def setReturn (name : Located String) : Parser Unit := do
  match (← get).draft.lookup? name.value with
  | some id => modify fun r => { r with draft := { r.draft with returns := some id } }
  | none => reportUnknown name

/-- The finished draft, if nothing went wrong since the first `mark` problems. -/
def finishFunc (mark : Nat) (span : Span) : Parser (Option Func) := do
  let r ← get
  if mark < r.problems.length then return none
  match r.draft.build with
  | .ok f => return some f
  | .error cause =>
    report (.rejected cause) span
    return none

/-- One function with its attributes. -/
def parseFunc : Parser (Option Func) := do
  let start := (← current).span
  let mark := (← get).problems.length
  modify fun r => { r with draft := Func.empty "" }
  attributesWithin (← get).rest.length
  let _ ← expect .fn
  let name ← expectIdent
  modify fun r => { r with draft := { r.draft with name := name.value } }
  let _ ← expect .leftParen
  items .rightParen parseParam
  let _ ← expect .rightParen
  let returned ← parseReturned
  unless ← eat .leftBrace do
    reportHere (.expected Symbol.leftBrace.description)
    skipToItem
    return none
  statementsWithin (← get).rest.length
  let _ ← expect .rightBrace
  let span := start.merge (← get).previous
  if let some name := returned then setReturn name
  finishFunc mark span

/-- Functions up to the end of the file. -/
def funcsWithin : Nat → Parser (List Func)
  | 0 => return []
  | rounds + 1 => do
    if ← isAt .endOfFile then return []
    else if (← isAt .hash) || (← isAt .fn) then
      let f ← parseFunc
      return f.toList ++ (← funcsWithin rounds)
    else
      reportHere .expectedItem
      advance
      skipToItem
      funcsWithin rounds

/-- The functions of a token list that ends with the end of the file. -/
def parseTokens (tokens : List Token) : Except (List Diagnostic) (List Func) :=
  let result := (funcsWithin tokens.length).run ⟨Span.empty, tokens, [], Func.empty ""⟩
  if result.2.problems.isEmpty then .ok result.1 else .error result.2.problems

/-- The functions of a source text. -/
def parseSource (source : String) : Except (List Diagnostic) (List Func) :=
  let scanned := tokenize source
  if scanned.2.isEmpty then parseTokens scanned.1 else .error scanned.2

end ArrayOffload.Source
