/-!
# BLAKE3

The 32-byte digest of a byte list. The input is cut into chunks of 1024 bytes and each chunk
into blocks of 64; chunks are the leaves of a binary tree whose left side is always the
largest full one.
-/

namespace ArrayOffload.Blake3

/-- Eight words that chain one block to the next. -/
abbrev Chain := Array UInt32

def start : Chain :=
  #[0x6a09e667, 0xbb67ae85, 0x3c6ef372, 0xa54ff53a, 0x510e527f, 0x9b05688c, 0x1f83d9ab,
    0x5be0cd19]

def chunkStart : UInt32 := 1

def chunkEnd : UInt32 := 2

def parentFlag : UInt32 := 4

def rootFlag : UInt32 := 8

def blockLength : Nat := 64

def chunkLength : Nat := 1024

/-- The order in which a round takes the words of the round before. -/
def permutation : List Nat := [2, 6, 3, 10, 7, 0, 4, 13, 1, 11, 12, 5, 9, 14, 15, 8]

def rotateRight (word count : UInt32) : UInt32 := (word >>> count) ||| (word <<< (32 - count))

/-- Mix two message words into four words of the state. -/
def mix (state : Array UInt32) (a b c d : Nat) (x y : UInt32) : Array UInt32 :=
  let word (i : Nat) : UInt32 := state.getD i 0
  let a1 := word a + word b + x
  let d1 := rotateRight (word d ^^^ a1) 16
  let c1 := word c + d1
  let b1 := rotateRight (word b ^^^ c1) 12
  let a2 := a1 + b1 + y
  let d2 := rotateRight (d1 ^^^ a2) 8
  let c2 := c1 + d2
  let b2 := rotateRight (b1 ^^^ c2) 7
  (((state.setIfInBounds a a2).setIfInBounds b b2).setIfInBounds c c2).setIfInBounds d d2

/-- The words mixed together: four columns, then four diagonals. -/
def mixing : List (Nat × Nat × Nat × Nat) :=
  [(0, 4, 8, 12), (1, 5, 9, 13), (2, 6, 10, 14), (3, 7, 11, 15),
   (0, 5, 10, 15), (1, 6, 11, 12), (2, 7, 8, 13), (3, 4, 9, 14)]

def mixAll (state block : Array UInt32) : Array UInt32 :=
  mixing.zipIdx.foldl
    (fun s (step, i) =>
      let (a, b, c, d) := step
      mix s a b c d (block.getD (2 * i) 0) (block.getD (2 * i + 1) 0))
    state

def permuted (block : Array UInt32) : Array UInt32 :=
  (permutation.map fun i => block.getD i 0).toArray

def rounds : Nat → Array UInt32 → Array UInt32 → Array UInt32
  | 0, state, _ => state
  | n + 1, state, block => rounds n (mixAll state block) (permuted block)

/-- One block of input with all that its compression depends on. -/
structure Node where
  chain : Chain
  block : Array UInt32
  counter : Nat
  length : Nat
  flags : UInt32

/-- The first eight words of the compression of a block. -/
def Node.compress (node : Node) : Chain :=
  let tail : Array UInt32 :=
    #[(node.counter % 0x100000000).toUInt32, (node.counter / 0x100000000).toUInt32,
      node.length.toUInt32, node.flags]
  let final := rounds 7 (node.chain ++ start.extract 0 4 ++ tail) node.block
  ((List.range 8).map fun i => final.getD i 0 ^^^ final.getD (i + 8) 0).toArray

def word (bytes : List UInt8) : UInt32 :=
  bytes.foldr (fun byte value => byte.toUInt32 ||| (value <<< 8)) 0

/-- The sixteen words of a block, filled up with zeros. -/
def blockWords (bytes : List UInt8) : Array UInt32 :=
  ((List.range 16).map fun i => word ((bytes.drop (4 * i)).take 4)).toArray

/-- The last block of a chunk, the blocks before it already compressed. The fuel bounds the
number of blocks. -/
def chunkFrom (counter : Nat) : Nat → Chain → UInt32 → List UInt8 → Node
  | 0, chain, flags, bytes =>
    ⟨chain, blockWords bytes, counter, bytes.length, flags ||| chunkEnd⟩
  | fuel + 1, chain, flags, bytes =>
    if bytes.length ≤ blockLength then
      ⟨chain, blockWords bytes, counter, bytes.length, flags ||| chunkEnd⟩
    else
      let node : Node :=
        ⟨chain, blockWords (bytes.take blockLength), counter, blockLength, flags⟩
      chunkFrom counter fuel node.compress 0 (bytes.drop blockLength)

def chunk (counter : Nat) (bytes : List UInt8) : Node :=
  chunkFrom counter bytes.length start chunkStart bytes

def parent (left right : Node) : Node :=
  ⟨start, left.compress ++ right.compress, 0, blockLength, parentFlag⟩

/-- The number of bytes on the left of a split: the largest power of two of whole chunks that
leaves something on the right. -/
def leftLength (length : Nat) : Nat :=
  chunkLength * Nat.pow 2 (Nat.log2 ((length - 1) / chunkLength))

/-- The tree over bytes that start at chunk number `counter`. The fuel bounds its height. -/
def treeFrom : Nat → Nat → List UInt8 → Node
  | 0, counter, bytes => chunk counter bytes
  | fuel + 1, counter, bytes =>
    if bytes.length ≤ chunkLength then chunk counter bytes
    else
      let size := leftLength bytes.length
      parent (treeFrom fuel counter (bytes.take size))
        (treeFrom fuel (counter + size / chunkLength) (bytes.drop size))

def wordBytes (w : UInt32) : List UInt8 :=
  [w.toUInt8, (w >>> 8).toUInt8, (w >>> 16).toUInt8, (w >>> 24).toUInt8]

/-- The digest, always 32 bytes. -/
def digest (bytes : List UInt8) : List UInt8 :=
  let root := treeFrom bytes.length 0 bytes
  let final := { root with flags := root.flags ||| rootFlag }
  final.compress.toList.flatMap wordBytes

end ArrayOffload.Blake3
