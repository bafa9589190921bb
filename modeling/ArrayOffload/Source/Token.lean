import ArrayOffload.Error
import ArrayOffload.Func.Basic

/-!
# Tokens, positions and problems

A source is read as tokens with byte positions. A problem found on the way is data: what is
wrong, and where.
-/

namespace ArrayOffload.Source

/-- A range of bytes. -/
structure Span where
  start : Nat
  stop : Nat
deriving DecidableEq, Repr

namespace Span

def empty : Span := ⟨0, 0⟩

/-- The least range that covers both. -/
def merge (a b : Span) : Span := ⟨min a.start b.start, max a.stop b.stop⟩

/-- The least range that covers all of them. -/
def mergeAll : List Span → Span
  | [] => empty
  | first :: rest => rest.foldl merge first

end Span

/-- Keywords, punctuation and the end of the file. -/
inductive Symbol where
  | fn | let | like | reduce | scan | print | call
  | leftParen | rightParen | leftBrace | rightBrace | leftBracket | rightBracket
  | comma | colon | semicolon | equals | arrow | hash
  | endOfFile
deriving DecidableEq, Repr

namespace Symbol

def text : Symbol → String
  | fn => "fn"
  | .let => "let"
  | like => "like"
  | reduce => "reduce"
  | scan => "scan"
  | print => "print"
  | call => "call"
  | leftParen => "("
  | rightParen => ")"
  | leftBrace => "\x7b"
  | rightBrace => "\x7d"
  | leftBracket => "["
  | rightBracket => "]"
  | comma => ","
  | colon => ":"
  | semicolon => ";"
  | equals => "="
  | arrow => "->"
  | hash => "#"
  | endOfFile => ""

def keywords : List Symbol := [fn, .let, like, reduce, scan, print, call]

def keyword? (word : String) : Option Symbol := keywords.find? fun symbol => symbol.text = word

def marks : List (Char × Symbol) :=
  [('(', leftParen), (')', rightParen), ('{', leftBrace), ('}', rightBrace),
    ('[', leftBracket), (']', rightBracket), (',', comma), (':', colon), (';', semicolon),
    ('=', equals), ('#', hash)]

/-- The punctuation mark of one character. -/
def mark? (c : Char) : Option Symbol := marks.lookup c

def description : Symbol → String
  | endOfFile => "end of file"
  | symbol => "'" ++ symbol.text ++ "'"

end Symbol

inductive Lexeme where
  | symbol (symbol : Symbol)
  | ident (name : String)
  | integer (value : Nat)
  /-- A literal with a sign, a fraction or an exponent, or too large for an integer. -/
  | number (value : Scalar)
deriving Repr

def Lexeme.description : Lexeme → String
  | symbol s => s.description
  | ident _ => "identifier"
  | integer _ => "integer literal"
  | number _ => "number"

/-- A lexeme, its place, and whether it is the first on its line. -/
structure Token where
  lexeme : Lexeme
  span : Span
  lineStart : Bool
deriving Repr

/-- What can be wrong with a source. -/
inductive Problem where
  | badNumber (text : String)
  | infixOperator (mark : Char) (operation : MapOp)
  | badCharacter (c : Char)
  | expected (what : String) (found : String)
  | expectedItem (found : String)
  | expectedShape (found : String)
  | unknownAttribute (name : String)
  | paramDimension (name : String)
  | unknownElem (name : String)
  | noDimension (name : String)
  | unknownFold (name : String)
  | unknownMap (name : String)
  | unknownArray (name : String) (known : List String)
  | alreadyDeclared (name : String)
  | rejected (cause : OffloadError)
deriving DecidableEq, Repr

namespace Problem

def message : Problem → String
  | badNumber text => s!"invalid number literal '{text}'"
  | infixOperator mark _ => s!"unexpected '{mark}'; there are no infix operators"
  | badCharacter c => s!"unexpected character '{c}'"
  | expected what found => s!"expected {what}, found {found}"
  | expectedItem found => s!"expected 'fn', found {found}"
  | expectedShape found => s!"expected 'like' or '[', found {found}"
  | unknownAttribute name => s!"unknown attribute '{name}'"
  | paramDimension name => s!"parameter dimension '{name}' must be `_`"
  | unknownElem name => Elem.unknownName name
  | noDimension name => s!"local `{name}` needs at least one dimension"
  | unknownFold name => s!"unknown reduction '{name}'"
  | unknownMap name => s!"unknown map '{name}'"
  | unknownArray name _ => s!"unknown array `{name}`"
  | alreadyDeclared name => s!"array `{name}` is already declared"
  | rejected cause => cause.message

def help? : Problem → Option String
  | infixOperator _ operation => some s!"use the `{operation.name}(a, b)` map instead"
  | expectedItem _ =>
    some "a .dpir file is a sequence of `fn name(...) \x7b ... \x7d` items"
  | expectedShape _ => some "locals are `let t: f32 like a` or `let s: f64[4]`"
  | unknownAttribute _ => some "the only attribute is `#[serial]`"
  | paramDimension _ => some "parameter shapes come from the argument at call time"
  | unknownElem _ => some "element types are f32, f64, i32, i64"
  | unknownFold _ => some "reductions are sum, product, min, max"
  | unknownMap _ => some ("maps are " ++ Text.commaList (MapOp.all.map MapOp.name))
  | unknownArray .. => some "declare it as a parameter or with `let`"
  | _ => none

def notes : Problem → List String
  | unknownArray _ [] => []
  | unknownArray _ known => ["arrays in scope: " ++ Text.commaList known]
  | _ => []

end Problem

structure Diagnostic where
  problem : Problem
  span : Span
deriving DecidableEq, Repr

end ArrayOffload.Source
