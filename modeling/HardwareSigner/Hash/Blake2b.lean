import HardwareSigner.Bytes

/-!
Keyed BLAKE2b with a 32-byte digest. The key fills a block of its own before the data; a hasher
without a key bytes still takes that block, all zeros.
-/

namespace HardwareSigner.Blake2b

def initial : Vector UInt64 8 :=
  #v[0x6a09e667f3bcc908, 0xbb67ae8584caa73b, 0x3c6ef372fe94f82b,
    0xa54ff53a5f1d36f1, 0x510e527fade682d1, 0x9b05688c2b3e6c1f,
    0x1f83d9abfb41bd6b, 0x5be0cd19137e2179]

/-- The order in which each round takes the words of a block. -/
def permutations : List (List (Fin 16)) :=
  [[0, 1, 2, 3, 4, 5, 6, 7, 8, 9, 10, 11, 12, 13, 14, 15],
    [14, 10, 4, 8, 9, 15, 13, 6, 1, 12, 0, 2, 11, 7, 5, 3],
    [11, 8, 12, 0, 5, 2, 15, 13, 10, 14, 3, 6, 7, 1, 9, 4],
    [7, 9, 3, 1, 13, 12, 11, 14, 2, 6, 5, 10, 4, 0, 15, 8],
    [9, 0, 5, 7, 2, 4, 10, 15, 14, 1, 11, 12, 6, 8, 3, 13],
    [2, 12, 6, 10, 0, 11, 8, 3, 4, 13, 7, 5, 15, 14, 1, 9],
    [12, 5, 1, 15, 14, 13, 4, 10, 0, 7, 6, 3, 9, 2, 8, 11],
    [13, 11, 7, 14, 12, 1, 3, 9, 5, 0, 15, 4, 8, 6, 2, 10],
    [6, 15, 14, 9, 11, 3, 0, 8, 12, 2, 13, 7, 1, 4, 10, 5],
    [10, 2, 8, 4, 7, 6, 1, 5, 15, 11, 9, 14, 3, 12, 13, 0],
    [0, 1, 2, 3, 4, 5, 6, 7, 8, 9, 10, 11, 12, 13, 14, 15],
    [14, 10, 4, 8, 9, 15, 13, 6, 1, 12, 0, 2, 11, 7, 5, 3]]

/-- The columns and then the diagonals of the working state. -/
def quarters : List (Fin 16 × Fin 16 × Fin 16 × Fin 16) :=
  [(0, 4, 8, 12), (1, 5, 9, 13), (2, 6, 10, 14), (3, 7, 11, 15),
    (0, 5, 10, 15), (1, 6, 11, 12), (2, 7, 8, 13), (3, 4, 9, 14)]

def rotateRight (x n : UInt64) : UInt64 := (x >>> n) ||| (x <<< (64 - n))

def mix (v : Vector UInt64 16) (q : Fin 16 × Fin 16 × Fin 16 × Fin 16) (x y : UInt64) :
    Vector UInt64 16 :=
  let (i, j, k, l) := q
  let a := v[i] + v[j] + x
  let d := rotateRight (v[l] ^^^ a) 32
  let c := v[k] + d
  let b := rotateRight (v[j] ^^^ c) 24
  let a := a + b + y
  let d := rotateRight (d ^^^ a) 16
  let c := c + d
  let b := rotateRight (b ^^^ c) 63
  (((v.set i a).set j b).set k c).set l d

def pairs : List (Fin 16) → List (Fin 16 × Fin 16)
  | x :: y :: rest => (x, y) :: pairs rest
  | _ => []

def round (m v : Vector UInt64 16) (order : List (Fin 16)) : Vector UInt64 16 :=
  (quarters.zip (pairs order)).foldl (fun v (q, x, y) => mix v q m[x] m[y]) v

def words (block : Bytes) : Vector UInt64 16 :=
  Vector.ofFn fun i => UInt64.ofNat (Bytes.toNatLE ((block.drop (8 * i.val)).take 8))

/-- Takes a block into the state; `count` bytes have been taken then, and `final` marks the last. -/
def compress (h : Vector UInt64 8) (block : Bytes) (count : Nat) (final : Bool) :
    Vector UInt64 8 :=
  let v : Vector UInt64 16 := h ++ initial
  let v := v.set 12 (v[12] ^^^ UInt64.ofNat count)
  let v := v.set 13 (v[13] ^^^ UInt64.ofNat (count >>> 64))
  let v := if final then v.set 14 (~~~v[14]) else v
  let m := words block
  let v := permutations.foldl (round m) v
  Vector.ofFn fun i => h[i] ^^^ v[i.val] ^^^ v[i.val + 8]

def blockLength : Nat := 128

def pad (b : Bytes) : Bytes := b ++ List.replicate (blockLength - b.length) 0

/-- Takes the pieces of the input in order; the last one may be short and closes the hash. -/
def absorb (h : Vector UInt64 8) (count : Nat) : List Bytes → Vector UInt64 8
  | [] => h
  | [b] => compress h (pad b) (count + b.length) true
  | b :: rest => absorb (compress h b (count + b.length) false) (count + b.length) rest

def maxKey : Nat := 64

/-- The state that says how long the key and the digest are. -/
def start (keyLength : Nat) : Vector UInt64 8 :=
  initial.set 0 (initial[0] ^^^ 0x01010000 ^^^ UInt64.ofNat (256 * keyLength) ^^^ 32)

def digest (h : Vector UInt64 8) : Block 32 :=
  ⟨[h[0], h[1], h[2], h[3]].flatMap Bytes.ofUInt64LE, by simp⟩

def keyed (key data : Bytes) : Block 32 :=
  let input := pad key ++ data
  digest (absorb (start key.length) 0 (Bytes.pieces blockLength (input.length + 1) input))

structure Hasher where
  key : Bytes
  length_key : key.length ≤ maxKey
  taken : Bytes

namespace Hasher

/-- A hasher that has taken nothing yet; a key over 64 bytes has none. -/
def ofKey? (key : Bytes) : Option Hasher :=
  if h : key.length ≤ maxKey then some ⟨key, h, []⟩ else none

def update (h : Hasher) (data : Bytes) : Hasher := { h with taken := h.taken ++ data }

def finish (h : Hasher) : Block 32 := keyed h.key h.taken

end Hasher

end HardwareSigner.Blake2b
