import GraphShapes.Digest

/-!
# BLAKE3

The 256-bit unkeyed BLAKE3 hash. A message is cut into chunks of 1024 bytes, each chunk into
blocks of 64 bytes; the blocks of a chunk are compressed one after the other into a chaining
value of eight words. The chaining values are the leaves of a binary tree whose left subtrees
are complete: of `n` chunks, the left half is the largest power of two below `n`. The digest is
the root's compression, marked as such.
-/

namespace GraphShapes.Blake3

/-- The initial chaining value. -/
def iv : Array UInt32 :=
  #[0x6A09E667, 0xBB67AE85, 0x3C6EF372, 0xA54FF53A, 0x510E527F, 0x9B05688C, 0x1F83D9AB, 0x5BE0CD19]

/-- How the message words move between two rounds. -/
def permutation : List Nat := [2, 6, 3, 10, 7, 0, 4, 13, 1, 11, 12, 5, 9, 14, 15, 8]

/-- Marks the first block of a chunk. -/
def chunkStart : UInt32 := 1

/-- Marks the last block of a chunk. -/
def chunkEnd : UInt32 := 2

/-- Marks the joining of two subtrees. -/
def parent : UInt32 := 4

/-- Marks the root of the tree. -/
def root : UInt32 := 8

/-- The word with its bits moved right in a circle. -/
def rotateRight (w : UInt32) (places : UInt32) : UInt32 := (w >>> places) ||| (w <<< (32 - places))

def word (state : Array UInt32) (i : Nat) : UInt32 := state.getD i 0

/-- The quarter round: mixes two message words into four words of the state. -/
def mix (state : Array UInt32) (ia ib ic id : Nat) (x y : UInt32) : Array UInt32 :=
  let a := word state ia + word state ib + x
  let d := rotateRight (word state id ^^^ a) 16
  let c := word state ic + d
  let b := rotateRight (word state ib ^^^ c) 12
  let a := a + b + y
  let d := rotateRight (d ^^^ a) 8
  let c := c + d
  let b := rotateRight (b ^^^ c) 7
  (((state.setIfInBounds ia a).setIfInBounds ib b).setIfInBounds ic c).setIfInBounds id d

/-- The places that the eight quarter rounds of a round mix: the columns, then the diagonals. -/
def quarters : List (Nat × Nat × Nat × Nat) :=
  [(0, 4, 8, 12), (1, 5, 9, 13), (2, 6, 10, 14), (3, 7, 11, 15),
   (0, 5, 10, 15), (1, 6, 11, 12), (2, 7, 8, 13), (3, 4, 9, 14)]

/-- One round over the sixteen message words. -/
def round (state block : Array UInt32) : Array UInt32 :=
  (quarters.zipIdx).foldl
    (fun s (q, i) => mix s q.1 q.2.1 q.2.2.1 q.2.2.2 (word block (2 * i)) (word block (2 * i + 1)))
    state

/-- The message words as the next round sees them. -/
def permute (block : Array UInt32) : Array UInt32 :=
  (permutation.map (word block)).toArray

/-- So many rounds, with the message words permuted in between. -/
def rounds : Nat → Array UInt32 → Array UInt32 → Array UInt32
  | 0, state, _ => state
  | n + 1, state, block => rounds n (round state block) (permute block)

/-- A block compressed into a chaining value. `counter` is the number of the chunk and `length`
the number of bytes in the block. -/
def compress (chaining block : Array UInt32) (counter : UInt64) (length flags : UInt32) :
    Array UInt32 :=
  let start := chaining ++ iv.take 4 ++
    #[counter.toUInt32, (counter >>> 32).toUInt32, length, flags]
  let state := rounds 7 start block
  ((List.range 8).map fun i => word state i ^^^ word state (i + 8)).toArray

/-- The little-endian word at the head of a list of bytes, missing bytes being zero. -/
def wordOfBytes (bs : List UInt8) : UInt32 :=
  (bs.take 4).foldr (fun b acc => (acc <<< 8) ||| b.toUInt32) 0

/-- The sixteen words of a block of at most 64 bytes. -/
def wordsOfBlock (bs : List UInt8) : Array UInt32 :=
  ((List.range 16).map fun i => wordOfBytes (bs.drop (4 * i))).toArray

/-- The bytes of a word, the lowest first. -/
def bytesOfWord (w : UInt32) : List UInt8 :=
  [w.toUInt8, (w >>> 8).toUInt8, (w >>> 16).toUInt8, (w >>> 24).toUInt8]

/-- The list cut into pieces of the given size, at least one; `fuel` bounds their number. -/
def pieces (size : Nat) : Nat → List UInt8 → List (List UInt8)
  | 0, bs => [bs]
  | fuel + 1, bs =>
    if bs.length ≤ size then [bs] else bs.take size :: pieces size fuel (bs.drop size)

/-- The blocks of a chunk, from some chaining value on. `first` marks the block that starts the
chunk, and `last` what is marked at its end. -/
def chunkFrom (counter : UInt64) (last : UInt32) :
    UInt32 → Array UInt32 → List (List UInt8) → Array UInt32
  | _, chaining, [] => chaining
  | first, chaining, [b] =>
    compress chaining (wordsOfBlock b) counter b.length.toUInt32 (first ||| last)
  | first, chaining, b :: rest =>
    chunkFrom counter last 0
      (compress chaining (wordsOfBlock b) counter b.length.toUInt32 first) rest

/-- The chaining value of a chunk; `mark` is `root` for the only chunk of a message. -/
def chunk (counter : UInt64) (mark : UInt32) (bs : List UInt8) : Array UInt32 :=
  chunkFrom counter (chunkEnd ||| mark) chunkStart iv (pieces 64 16 bs)

def join (mark : UInt32) (left right : Array UInt32) : Array UInt32 :=
  compress iv (left ++ right) 0 64 (parent ||| mark)

/-- The largest power of two below a number above one. -/
def leftSize (n : Nat) : Nat := 1 <<< Nat.log2 (n - 1)

/-- The chaining value of the tree over numbered chunks; `fuel` bounds its height. -/
def tree : Nat → UInt32 → List (List UInt8 × Nat) → Array UInt32
  | _, _, [] => iv
  | _, mark, [(bs, i)] => chunk i.toUInt64 mark bs
  | 0, _, _ => iv
  | fuel + 1, mark, chunks =>
    let left := leftSize chunks.length
    join mark (tree fuel 0 (chunks.take left)) (tree fuel 0 (chunks.drop left))

/-- The hash of a message. -/
def hash (message : List UInt8) : Digest :=
  let chunks := (pieces 1024 message.length message).zipIdx
  let bytes := (tree chunks.length root chunks).toList.flatMap bytesOfWord
  ⟨Vector.ofFn fun i => bytes.getD i 0⟩

/-- The hash of a text's UTF-8 bytes. -/
def hashText (text : String) : Digest := hash text.toUTF8.toList

end GraphShapes.Blake3
