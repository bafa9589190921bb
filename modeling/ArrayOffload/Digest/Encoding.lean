import ArrayOffload.Context
import ArrayOffload.Func.Basic

/-!
# Byte encodings

Functions, signatures and contexts as byte lists, the input of content hashes. Numbers are
little-endian, texts carry their length, and every construct has a tag of its own. Names of
arrays and functions are left out: two functions that differ only in names encode the same.
-/

namespace ArrayOffload.Encoding

/-- The first byte of every encoding. -/
def version : UInt8 := 1

/-- The low `count` bytes of a number, the lowest first. -/
def little : Nat → Nat → List UInt8
  | 0, _ => []
  | count + 1, value => value.toUInt8 :: little count (value / 256)

def word32 (value : Nat) : List UInt8 := little 4 value

def word64 (value : Nat) : List UInt8 := little 8 value

def utf8 (text : String) : List UInt8 := text.toUTF8.toList

def string (text : String) : List UInt8 := word32 (utf8 text).length ++ utf8 text

def scalar (constant : Scalar) : List UInt8 := word64 constant.bits.toNat

def bool (value : Bool) : UInt8 := if value then 1 else 0

/-- A count, then the numbers. -/
def ids (values : List ArrayId) : List UInt8 := word32 values.length ++ values.flatMap word32

def elem : Elem → UInt8
  | .f32 => 0x80
  | .f64 => 0x81
  | .i32 => 0x82
  | .i64 => 0x83

def role : Role → List UInt8
  | .param position => word32 (position + 1)
  | .scratch => word32 0

def shape : ShapeSource → List UInt8
  | .param => [0x40]
  | .like source => 0x41 :: word32 source
  | .fixed dims => 0x42 :: word32 dims.length ++ dims.flatMap word64

def decl (d : ArrayDecl) : List UInt8 :=
  0x02 :: elem d.elem :: word32 d.rank ++ role d.role ++ shape d.shape

def operand : Operand → List UInt8
  | .array id => 0x09 :: word32 id
  | .scalar constant => 0x0a :: scalar constant

def op : Op → List UInt8
  | .map out op args => 0x03 :: string op.name ++ word32 out ++ args.flatMap operand
  | .reduce out op input => 0x04 :: string op.name ++ word32 out ++ word32 input
  | .scan out op input => 0x05 :: string op.name ++ word32 out ++ word32 input
  | .store array index constant => 0x06 :: word32 array ++ word64 index ++ scalar constant
  | .print arrays => 0x07 :: ids arrays
  | .call callee reads writes => 0x08 :: string callee ++ ids reads ++ ids writes

def returned : Option ArrayId → List UInt8
  | some id => 1 :: word32 id
  | none => [0]

/-- A function without its names. -/
def func (f : Func) : List UInt8 :=
  0x01 :: bool f.serialOnly :: word32 f.arrays.length ++ f.arrays.flatMap decl ++
    returned f.returns ++ word32 f.body.length ++ f.body.flatMap op

def deviceKind : DeviceKind → UInt8
  | .host => 0
  | .gpu => 1
  | .accelerator => 2

def context (c : DeviceContext) : List UInt8 :=
  deviceKind c.kind ::
    match c.handle with
    | some handle => 1 :: word32 handle
    | none => [0]

end ArrayOffload.Encoding
