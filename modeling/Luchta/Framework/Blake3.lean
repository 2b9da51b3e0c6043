import Luchta.Framework.Bincode

/-!
# BLAKE3

The unkeyed hash of the BLAKE3 specification: chunks of up to 1024 bytes are chained block by
block, and the chunks' values are joined pairwise in a left-complete binary tree, whose root is
compressed once more with its own flag. It stands in for the hash library where a run is evaluated.
-/

namespace Luchta.Framework.Blake3

abbrev Words := List UInt32

def IV : Words :=
  [0x6A09E667, 0xBB67AE85, 0x3C6EF372, 0xA54FF53A, 0x510E527F, 0x9B05688C, 0x1F83D9AB, 0x5BE0CD19]

def CHUNK_START : UInt32 := 1
def CHUNK_END : UInt32 := 2
def PARENT : UInt32 := 4
def ROOT : UInt32 := 8

def rotr (x : UInt32) (n : UInt32) : UInt32 := (x >>> n) ||| (x <<< (32 - n))

/-- The quarter round on the words `a`, `b`, `c`, `d` of the state. -/
def quarter (s : Words) (a b c d : Nat) (mx my : UInt32) : Words :=
  let va := s.getD a 0 + s.getD b 0 + mx
  let vd := rotr (s.getD d 0 ^^^ va) 16
  let vc := s.getD c 0 + vd
  let vb := rotr (s.getD b 0 ^^^ vc) 12
  let va := va + vb + my
  let vd := rotr (vd ^^^ va) 8
  let vc := vc + vd
  let vb := rotr (vb ^^^ vc) 7
  (((s.set a va).set b vb).set c vc).set d vd

def round (s m : Words) : Words :=
  let s := quarter s 0 4 8 12 (m.getD 0 0) (m.getD 1 0)
  let s := quarter s 1 5 9 13 (m.getD 2 0) (m.getD 3 0)
  let s := quarter s 2 6 10 14 (m.getD 4 0) (m.getD 5 0)
  let s := quarter s 3 7 11 15 (m.getD 6 0) (m.getD 7 0)
  let s := quarter s 0 5 10 15 (m.getD 8 0) (m.getD 9 0)
  let s := quarter s 1 6 11 12 (m.getD 10 0) (m.getD 11 0)
  let s := quarter s 2 7 8 13 (m.getD 12 0) (m.getD 13 0)
  quarter s 3 4 9 14 (m.getD 14 0) (m.getD 15 0)

def permute (m : Words) : Words :=
  [2, 6, 3, 10, 7, 0, 4, 13, 1, 11, 12, 5, 9, 14, 15, 8].map fun i => m.getD i 0

def rounds : Nat → Words → Words → Words
  | 0, s, _ => s
  | n + 1, s, m => rounds n (round s m) (permute m)

/-- The input of one compression, kept until it is known whether it is the root. -/
structure Node where
  cv : Words
  block : Words
  counter : Nat
  blockLen : UInt32
  flags : UInt32

/-- The first half of the compression's output. -/
def Node.compress (n : Node) (flags : UInt32) : Words :=
  let s := rounds 7 (n.cv ++ IV.take 4 ++
    [UInt32.ofNat n.counter, UInt32.ofNat (n.counter / 2 ^ 32), n.blockLen, n.flags ||| flags]) n.block
  (List.range 8).map fun i => s.getD i 0 ^^^ s.getD (i + 8) 0

def word (b : Bytes) (i : Nat) : UInt32 :=
  let byte := fun j => (b.getD (4 * i + j) 0).toUInt32
  byte 0 ||| (byte 1 <<< 8) ||| (byte 2 <<< 16) ||| (byte 3 <<< 24)

def blockWords (b : Bytes) : Words := (List.range 16).map (word b)

/-- The last block of a chunk, after its other blocks have been chained. -/
def chunkNode (counter : Nat) : Nat → Words → UInt32 → Bytes → Node
  | 0, cv, start, b => ⟨cv, blockWords b, counter, UInt32.ofNat b.length, start ||| CHUNK_END⟩
  | k + 1, cv, start, b =>
    if b.length ≤ 64 then
      ⟨cv, blockWords b, counter, UInt32.ofNat b.length, start ||| CHUNK_END⟩
    else
      chunkNode counter k ((Node.mk cv (blockWords (b.take 64)) counter 64 start).compress 0) 0
        (b.drop 64)

def chunks : Nat → Nat → Bytes → List Node
  | 0, _, _ => []
  | k + 1, counter, b =>
    chunkNode counter 15 IV CHUNK_START (b.take 1024) ::
      if b.length ≤ 1024 then [] else chunks k (counter + 1) (b.drop 1024)

/-- The largest power of two below `n`. -/
def leftSize (n : Nat) : Nat := 2 ^ Nat.log2 (n - 1)

def tree : Nat → List Node → Node
  | _, [n] => n
  | 0, _ => ⟨IV, [], 0, 0, 0⟩
  | k + 1, l =>
    let left := tree k (l.take (leftSize l.length))
    let right := tree k (l.drop (leftSize l.length))
    ⟨IV, left.compress 0 ++ right.compress 0, 0, 64, PARENT⟩

def hashBytes (b : Bytes) : Bytes :=
  let nodes := chunks (b.length / 1024 + 1) 0 b
  ((tree nodes.length nodes).compress ROOT).flatMap fun w => leBytes 4 w.toNat

theorem length_flatMap_words (l : Words) :
    (l.flatMap fun w => leBytes 4 w.toNat).length = 4 * l.length := by
  induction l with
  | nil => rfl
  | cons w l ih => rw [List.flatMap_cons, List.length_append, ih, length_leBytes, List.length_cons]; omega

theorem length_hashBytes (b : Bytes) : (hashBytes b).length = 32 := by
  rw [hashBytes, length_flatMap_words, Node.compress, List.length_map, List.length_range]

def hash (b : Bytes) : Vector UInt8 32 := ⟨(hashBytes b).toArray, length_hashBytes b⟩

/-- The published digest of `abc`. -/
example : (hash (utf8 "abc")).toList =
    [0x64, 0x37, 0xb3, 0xac, 0x38, 0x46, 0x51, 0x33, 0xff, 0xb6, 0x3b, 0x75, 0x27, 0x3a, 0x8d, 0xb5,
      0x48, 0xc5, 0x58, 0x46, 0x5d, 0x79, 0xdb, 0x03, 0xfd, 0x35, 0x9c, 0x6c, 0xd5, 0xbd, 0x9d,
      0x85] := by
  decide +kernel

end Luchta.Framework.Blake3
