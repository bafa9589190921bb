import ArrayOffload.Proofs.Tiling

/-!
# Parsing under watch

A parser that keeps a record of its loops. It does what the parser does, with three differences: each
round of a loop is noted, with the tokens that are left before and after it; a look at a token where
none is left is a hazard; and so is a loop that goes on for more rounds than there are tokens.

* `Source.Round`, `Source.Hazard`, `Source.Watched`: what is noted, and what can go wrong;
* `Source.Watched.loopWithin`: one form for all loops;
* `Source.Watched.parseTokens`: the parser under watch;
* `Source.repeatWithin`, `Source.collectWithin_eq`: the loops of the parser in that form.
-/

namespace ArrayOffload.Source

variable {α β : Type}

inductive Loop where
  | functions | attributes | params | dimensions | statements | operands | recovery
deriving DecidableEq, Repr

/-- One round of a loop: the tokens left before and after it, and whether the loop goes on. -/
structure Round where
  loop : Loop
  before : Nat
  after : Nat
  again : Bool
deriving DecidableEq, Repr

/-- The round takes a token or ends its loop. -/
def Round.Productive (round : Round) : Prop := round.again = true → round.after < round.before

inductive Hazard where
  /-- There is no token to look at. -/
  | pastEnd
  /-- A loop had as many rounds as there were tokens and goes on. -/
  | endless
deriving DecidableEq, Repr

/-- Work of the parser with a record of the rounds so far. -/
abbrev Watched := StateT (Reader × List Round) (Except Hazard)

/-- Work without loops: there has to be a token when it starts, and still one when it ends. -/
instance : MonadLift Parser Watched where
  monadLift work := fun (r, rounds) =>
    let (a, s) := work.run r
    if r.rest.isEmpty || s.rest.isEmpty then .error .pastEnd else .ok (a, s, rounds)

/-- The tokens that are left. -/
def left : Parser Nat := return (← get).rest.length

/-- Neither the closing symbol nor the end of the file is next. -/
def outside (close : Symbol) : Parser Bool := return !((← isAt close) || (← isAt .endOfFile))

/-- Some token is next that does not stop a search. -/
def searching (stop : Token → Bool) : Parser Bool := return !stop (← current)

namespace Watched

def note (round : Round) : Watched Unit := modify fun (r, rounds) => (r, rounds ++ [round])

/-- A loop. The body says what it found and whether the loop goes on. -/
def loopWithin (loop : Loop) (more : Parser Bool) (body : Watched (List α × Bool)) :
    Nat → Watched (List α)
  | 0 => throw .endless
  | bound + 1 => do
    if ← more then
      let before ← left
      let result ← body
      let after ← left
      note ⟨loop, before, after, result.2⟩
      if result.2 then return result.1 ++ (← loopWithin loop more body bound)
      else return result.1
    else return []

/-- A loop that has to end within as many rounds as there are tokens left. -/
def runLoop (loop : Loop) (more : Parser Bool) (body : Watched (List α × Bool)) :
    Watched (List α) := do
  loopWithin loop more body (← left)

def itemRound (item : Watched (Option α)) : Watched (List α × Bool) := do
  let value ← item
  return (value.toList, ← eat .comma)

/-- Items up to the closing symbol. -/
def listed (loop : Loop) (close : Symbol) (item : Watched (Option α)) : Watched (List α) :=
  runLoop loop (outside close) (itemRound item)

def searchRound : Watched (List Unit × Bool) := do
  advance
  return ([], true)

def skipTo (stop : Token → Bool) : Watched Unit := do
  let _ ← runLoop .recovery (searching stop) searchRound

def skipToStatement : Watched Unit :=
  skipTo fun token => token.isSymbol .endOfFile || token.isSymbol .rightBrace || token.lineStart

def skipToItem : Watched Unit :=
  skipTo fun token => token.isSymbol .endOfFile || token.isSymbol .fn || token.isSymbol .hash

def parseArrays : Watched (List ArrayId) := do
  let _ ← expect .leftParen
  let ids ← listed .operands .rightParen (liftM parseArray)
  let _ ← expect .rightParen
  return ids

def parseLet : Watched Unit := do
  let _ ← expect .let
  let name ← expectIdent
  let _ ← expect .colon
  let elem ← parseElem
  if ← eat .like then
    if let some source ← parseArray then declareAs name (·.addLike name.value elem source)
  else if ← eat .leftBracket then
    let dims ← listed .dimensions .rightBracket (liftM (some <$> expectInteger))
    let _ ← expect .rightBracket
    if dims.isEmpty then report (.noDimension name.value) name.span
    else declareAs name (·.addFixed name.value elem dims)
  else reportHere .expectedShape

def parseCall : Watched Unit := do
  let _ ← expect .call
  let callee ← expectIdent
  let reads ← parseArrays
  let writes ← if ← eat .arrow then parseArrays else pure []
  addOp (.call callee.value reads writes)

def parseMap (out : ArrayId) : Watched Unit := do
  let word ← expectIdent
  let _ ← expect .leftParen
  match MapOp.ofName? word.value with
  | none => report (.unknownMap word.value) word.span
  | some op =>
    let args ← listed .operands .rightParen (liftM parseOperand)
    let _ ← expect .rightParen
    addOp (.map out op args)

def parseAssign : Watched Unit := do
  if let some target ← parseArray then
    if ← eat .leftBracket then parseStore target
    else
      let _ ← expect .equals
      if ← eat .reduce then parseFold (.reduce target)
      else if ← eat .scan then parseFold (.scan target)
      else parseMap target

def parseStatement : Watched Unit := do
  match (← current).lexeme with
  | .symbol .let => parseLet
  | .symbol .print =>
    advance
    addOp (.print (← parseArrays))
  | .symbol .call => parseCall
  | .ident _ => parseAssign
  | _ =>
    reportHere (.expected "statement")
    advance

def statementRound : Watched (List Unit × Bool) := do
  let mark := (← (get : Parser Reader)).problems.length
  parseStatement
  let _ ← eat .semicolon
  if mark < (← (get : Parser Reader)).problems.length then skipToStatement
  return ([], true)

def statements : Watched Unit := do
  let _ ← runLoop .statements (outside .rightBrace) statementRound

def parseParam : Watched Unit := do
  let name ← expectIdent
  let _ ← expect .colon
  let elem ← parseElem
  let _ ← expect .leftBracket
  let dims ← listed .dimensions .rightBracket do
    let dim ← expectIdent
    if dim.value ≠ "_" then report (.paramDimension dim.value) dim.span
    return some ()
  let _ ← expect .rightBracket
  declareAs name (·.addParam name.value elem dims.length)

def attributeRound : Watched (List Unit × Bool) := do
  parseAttribute
  return ([], true)

def attributes : Watched Unit := do
  let _ ← runLoop .attributes (isAt .hash) attributeRound

def parseFunc : Watched (Option Func) := do
  let start := (← current).span
  let mark := (← (get : Parser Reader)).problems.length
  (modify fun r => { r with draft := Func.empty "" } : Parser Unit)
  attributes
  let _ ← expect .fn
  let name ← expectIdent
  (modify fun r => { r with draft := { r.draft with name := name.value } } : Parser Unit)
  let _ ← expect .leftParen
  let _ ← listed .params .rightParen do
    parseParam
    return some ()
  let _ ← expect .rightParen
  let returned ← parseReturned
  unless ← eat .leftBrace do
    reportHere (.expected Symbol.leftBrace.description)
    skipToItem
    return none
  statements
  let _ ← expect .rightBrace
  let span := start.merge (← (get : Parser Reader)).previous
  if let some name := returned then setReturn name
  finishFunc mark span

def funcRound : Watched (List Func × Bool) := do
  if (← isAt .hash) || (← isAt .fn) then
    let f ← parseFunc
    return (f.toList, true)
  else
    reportHere .expectedItem
    advance
    skipToItem
    return ([], true)

def funcs : Watched (List Func) :=
  runLoop .functions (return !(← isAt .endOfFile)) funcRound

/-- The functions of a token list, or problems, with all rounds of all loops. -/
def parseTokens (tokens : List Token) :
    Except Hazard (Except (List Diagnostic) (List Func) × List Round) := do
  let (found, r, rounds) ← funcs.run (⟨Span.empty, tokens, [], Func.empty ""⟩, [])
  return (if r.problems.isEmpty then .ok found else .error r.problems, rounds)

end Watched

/-! ## One form for all loops -/

/-- A loop of the parser. The body says what it found and whether the loop goes on. -/
def repeatWithin (more : Parser Bool) (body : Parser (List α × Bool)) : Nat → Parser (List α)
  | 0 => return []
  | rounds + 1 => do
    if ← more then
      let result ← body
      if result.2 then return result.1 ++ (← repeatWithin more body rounds) else return result.1
    else return []

def itemRound (item : Parser (Option α)) : Parser (List α × Bool) := do
  let value ← item
  return (value.toList, ← eat .comma)

def searchRound : Parser (List Unit × Bool) := do
  advance
  return ([], true)

def statementRound : Parser (List Unit × Bool) := do
  let mark := (← get).problems.length
  parseStatement
  let _ ← eat .semicolon
  if mark < (← get).problems.length then skipToStatement
  return ([], true)

def attributeRound : Parser (List Unit × Bool) := do
  parseAttribute
  return ([], true)

def funcRound : Parser (List Func × Bool) := do
  if (← isAt .hash) || (← isAt .fn) then
    let f ← parseFunc
    return (f.toList, true)
  else
    reportHere .expectedItem
    advance
    skipToItem
    return ([], true)

theorem collectWithin_eq (close : Symbol) (item : Parser (Option α)) (rounds : Nat) :
    collectWithin close item rounds = repeatWithin (outside close) (itemRound item) rounds := by
  induction rounds with
  | zero => rfl
  | succ rounds ih =>
    rw [collectWithin, repeatWithin, ← ih]
    simp only [outside, itemRound, bind_assoc, pure_bind]
    refine bind_congr fun closed => bind_congr fun ended => ?_
    cases closed <;> cases ended <;> simp

theorem itemsWithin_eq (close : Symbol) (item : Parser Unit) (rounds : Nat) :
    itemsWithin close item rounds = (do
      let _ ← collectWithin close (do item; return some ()) rounds
      return ()) := by
  induction rounds with
  | zero => rfl
  | succ rounds ih =>
    rw [itemsWithin, collectWithin, ih]
    simp only [bind_assoc, pure_bind]
    refine bind_congr fun closed => bind_congr fun ended => ?_
    cases closed <;> cases ended <;> simp
    refine bind_congr fun _ => bind_congr fun comma => ?_
    cases comma <;> simp

theorem statementsWithin_eq (rounds : Nat) :
    statementsWithin rounds = (do
      let _ ← repeatWithin (outside .rightBrace) statementRound rounds
      return ()) := by
  induction rounds with
  | zero => rfl
  | succ rounds ih =>
    rw [statementsWithin, repeatWithin, ih]
    simp only [outside, statementRound, bind_assoc, pure_bind]
    refine bind_congr fun closed => bind_congr fun ended => ?_
    cases closed <;> cases ended <;> simp
    refine bind_congr fun _ => bind_congr fun _ => bind_congr fun _ => bind_congr fun r => ?_
    split <;> simp

theorem attributesWithin_eq (rounds : Nat) :
    attributesWithin rounds = (do
      let _ ← repeatWithin (isAt .hash) attributeRound rounds
      return ()) := by
  induction rounds with
  | zero => rfl
  | succ rounds ih =>
    rw [attributesWithin, repeatWithin, ih]
    simp only [attributeRound, bind_assoc, pure_bind]
    refine bind_congr fun found => ?_
    cases found <;> simp

theorem funcsWithin_eq (rounds : Nat) :
    funcsWithin rounds =
      repeatWithin (do return !(← isAt .endOfFile)) funcRound rounds := by
  induction rounds with
  | zero => rfl
  | succ rounds ih =>
    rw [funcsWithin, repeatWithin, ← ih]
    simp only [funcRound, bind_assoc, pure_bind]
    refine bind_congr fun ended => ?_
    cases ended <;> simp
    refine bind_congr fun hash => bind_congr fun fn => ?_
    cases hash <;> cases fn <;> simp

end ArrayOffload.Source
