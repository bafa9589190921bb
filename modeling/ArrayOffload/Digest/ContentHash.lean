import ArrayOffload.Digest.Blake3
import ArrayOffload.Digest.Encoding

/-!
# Content hashes

The digest of an encoding, named in full by 64 hexadecimal digits and shown to people by eight
letters and digits.
-/

namespace ArrayOffload

structure ContentHash where
  bytes : List UInt8
deriving DecidableEq, Repr

namespace ContentHash

def zero : ContentHash := ⟨List.replicate 32 0⟩

/-- The digest of some bytes after the version byte. -/
def ofEncoding (bytes : List UInt8) : ContentHash := ⟨Blake3.digest (Encoding.version :: bytes)⟩

def hexDigits : List Char := "0123456789abcdef".toList

/-- Digits and small letters without `i`, `l` and `o`; five bits name the first thirty-two. -/
def shortDigits : List Char := "0123456789abcdefghjkmnpqrstuvwxyz".toList

def hex (hash : ContentHash) : String :=
  String.ofList (hash.bytes.flatMap fun byte =>
    [hexDigits.getD (byte.toNat / 16) '0', hexDigits.getD (byte.toNat % 16) '0'])

/-- The first forty bits, five to a character. -/
def short (hash : ContentHash) : String :=
  let value := (hash.bytes.take 5).foldl (fun n byte => n * 256 + byte.toNat) 0
  String.ofList ((List.range 8).map fun i =>
    shortDigits.getD (value / Nat.pow 32 (7 - i) % 32) '0')

def text (hash : ContentHash) : String := "#" ++ hash.short

end ContentHash

/-- The hash of what a function computes. -/
def Func.contentHash (f : Func) : ContentHash := .ofEncoding (Encoding.func f)

end ArrayOffload
