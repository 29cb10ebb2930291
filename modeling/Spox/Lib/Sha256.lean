import Spox.Lib.Script

/-!
# SHA-256

The hash function as its standard defines it, over lists of bytes: the message
is padded to blocks of 64 bytes, and each block changes the state in 64 rounds.
Words of 32 bits are natural numbers.
-/

namespace Spox.Lib

namespace Sha256

open Spox.Lib.Script

/-- The constants of the rounds. -/
def constants : List Nat :=
  [0x428a2f98, 0x71374491, 0xb5c0fbcf, 0xe9b5dba5, 0x3956c25b, 0x59f111f1, 0x923f82a4, 0xab1c5ed5,
    0xd807aa98, 0x12835b01, 0x243185be, 0x550c7dc3, 0x72be5d74, 0x80deb1fe, 0x9bdc06a7, 0xc19bf174,
    0xe49b69c1, 0xefbe4786, 0x0fc19dc6, 0x240ca1cc, 0x2de92c6f, 0x4a7484aa, 0x5cb0a9dc, 0x76f988da,
    0x983e5152, 0xa831c66d, 0xb00327c8, 0xbf597fc7, 0xc6e00bf3, 0xd5a79147, 0x06ca6351, 0x14292967,
    0x27b70a85, 0x2e1b2138, 0x4d2c6dfc, 0x53380d13, 0x650a7354, 0x766a0abb, 0x81c2c92e, 0x92722c85,
    0xa2bfe8a1, 0xa81a664b, 0xc24b8b70, 0xc76c51a3, 0xd192e819, 0xd6990624, 0xf40e3585, 0x106aa070,
    0x19a4c116, 0x1e376c08, 0x2748774c, 0x34b0bcb5, 0x391c0cb3, 0x4ed8aa4a, 0x5b9cca4f, 0x682e6ff3,
    0x748f82ee, 0x78a5636f, 0x84c87814, 0x8cc70208, 0x90befffa, 0xa4506ceb, 0xbef9a3f7, 0xc67178f2]

/-- The working variables. -/
structure State where
  a : Nat
  b : Nat
  c : Nat
  d : Nat
  e : Nat
  f : Nat
  g : Nat
  h : Nat

def initial : State :=
  ⟨0x6a09e667, 0xbb67ae85, 0x3c6ef372, 0xa54ff53a, 0x510e527f, 0x9b05688c, 0x1f83d9ab, 0x5be0cd19⟩

/-- Arithmetic is modulo 2³². -/
def word (n : Nat) : Nat := n % 2 ^ 32

/-- Rotation to the right. -/
def rotate (k x : Nat) : Nat := x >>> k ||| word (x <<< (32 - k))

def smallSigma0 (x : Nat) : Nat := rotate 7 x ^^^ rotate 18 x ^^^ x >>> 3
def smallSigma1 (x : Nat) : Nat := rotate 17 x ^^^ rotate 19 x ^^^ x >>> 10
def bigSigma0 (x : Nat) : Nat := rotate 2 x ^^^ rotate 13 x ^^^ rotate 22 x
def bigSigma1 (x : Nat) : Nat := rotate 6 x ^^^ rotate 11 x ^^^ rotate 25 x
def choose (x y z : Nat) : Nat := x &&& y ^^^ (2 ^ 32 - 1 - x) &&& z
def majority (x y z : Nat) : Nat := x &&& y ^^^ x &&& z ^^^ y &&& z

/-- One round, with its constant and its word of the schedule. -/
def round (s : State) (k w : Nat) : State :=
  let t := s.h + bigSigma1 s.e + choose s.e s.f s.g + k + w
  ⟨word (t + bigSigma0 s.a + majority s.a s.b s.c), s.a, s.b, s.c, word (s.d + t), s.e, s.f, s.g⟩

/-- The rounds of a block. -/
def rounds : List Nat → List Nat → State → State
  | k :: ks, w :: ws, s => rounds ks ws (round s k w)
  | _, _, s => s

/-- So many more words of a schedule that starts with its last word. -/
def schedule : Nat → List Nat → List Nat
  | 0, ws => ws
  | n + 1, ws =>
      schedule n (word (smallSigma1 (ws.getD 1 0) + ws.getD 6 0 + smallSigma0 (ws.getD 14 0) +
        ws.getD 15 0) :: ws)

/-- The words of a block. -/
def words : List UInt8 → List Nat
  | a :: b :: c :: d :: rest => ofBigEndian [a, b, c, d] :: words rest
  | _ => []

def compress (s : State) (block : List UInt8) : State :=
  let t := rounds constants (schedule 48 (words block).reverse).reverse s
  ⟨word (s.a + t.a), word (s.b + t.b), word (s.c + t.c), word (s.d + t.d), word (s.e + t.e),
    word (s.f + t.f), word (s.g + t.g), word (s.h + t.h)⟩

/-- Compress a number of blocks. -/
def blocks : Nat → List UInt8 → State → State
  | 0, _, s => s
  | n + 1, data, s => blocks n (data.drop 64) (compress s (data.take 64))

/-- A mark, zeros and the length in bits fill up the last block. -/
def pad (data : List UInt8) : List UInt8 :=
  data ++ 0x80 :: List.replicate ((119 - data.length % 64) % 64) 0 ++ bigEndian 8 (8 * data.length)

def State.bytes (s : State) : List UInt8 :=
  [s.a, s.b, s.c, s.d, s.e, s.f, s.g, s.h].flatMap (bigEndian 4)

end Sha256

/-- The hash of a message. -/
def sha256 (data : List UInt8) : List UInt8 :=
  (Sha256.blocks ((Sha256.pad data).length / 64) (Sha256.pad data) Sha256.initial).bytes

theorem length_sha256 (data : List UInt8) : (sha256 data).length = 32 := by
  simp [sha256, Sha256.State.bytes, Script.length_bigEndian]

example : sha256 [0x61, 0x62, 0x63] =
    [0xba, 0x78, 0x16, 0xbf, 0x8f, 0x01, 0xcf, 0xea, 0x41, 0x41, 0x40, 0xde, 0x5d, 0xae, 0x22, 0x23,
      0xb0, 0x03, 0x61, 0xa3, 0x96, 0x17, 0x7a, 0x9c, 0xb4, 0x10, 0xff, 0x61, 0xf2, 0x00, 0x15,
      0xad] := by
  decide +kernel

end Spox.Lib
