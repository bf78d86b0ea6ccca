import Ostrich.Lib.Der

/-!
# SHA-256 (FIPS 180-4)

The hash as a function on octets, with words as natural numbers below `2^32`.
-/

namespace Ostrich.Sha256

/-- A word is a number below this. -/
def wordSize : ℕ := 4294967296

/-- Rotate a word to the right. -/
def rotr (x n : ℕ) : ℕ := (x >>> n ||| x <<< (32 - n)) % wordSize

/-- The bits of `y` where `x` has a one, and those of `z` elsewhere. -/
def ch (x y z : ℕ) : ℕ := (x &&& y) ^^^ ((wordSize - 1 - x) &&& z)

/-- The bits that two of the words have. -/
def maj (x y z : ℕ) : ℕ := (x &&& y) ^^^ (x &&& z) ^^^ (y &&& z)

/-- The round constants. -/
def roundConstants : List ℕ := [
    0x428a2f98, 0x71374491, 0xb5c0fbcf, 0xe9b5dba5, 0x3956c25b, 0x59f111f1, 0x923f82a4, 0xab1c5ed5,
    0xd807aa98, 0x12835b01, 0x243185be, 0x550c7dc3, 0x72be5d74, 0x80deb1fe, 0x9bdc06a7, 0xc19bf174,
    0xe49b69c1, 0xefbe4786, 0x0fc19dc6, 0x240ca1cc, 0x2de92c6f, 0x4a7484aa, 0x5cb0a9dc, 0x76f988da,
    0x983e5152, 0xa831c66d, 0xb00327c8, 0xbf597fc7, 0xc6e00bf3, 0xd5a79147, 0x06ca6351, 0x14292967,
    0x27b70a85, 0x2e1b2138, 0x4d2c6dfc, 0x53380d13, 0x650a7354, 0x766a0abb, 0x81c2c92e, 0x92722c85,
    0xa2bfe8a1, 0xa81a664b, 0xc24b8b70, 0xc76c51a3, 0xd192e819, 0xd6990624, 0xf40e3585, 0x106aa070,
    0x19a4c116, 0x1e376c08, 0x2748774c, 0x34b0bcb5, 0x391c0cb3, 0x4ed8aa4a, 0x5b9cca4f, 0x682e6ff3,
    0x748f82ee, 0x78a5636f, 0x84c87814, 0x8cc70208, 0x90befffa, 0xa4506ceb, 0xbef9a3f7, 0xc67178f2]

/-- The working variables. -/
structure State where
  a : ℕ
  b : ℕ
  c : ℕ
  d : ℕ
  e : ℕ
  f : ℕ
  g : ℕ
  h : ℕ

/-- The first hash value. -/
def start : State where
  a := 0x6a09e667
  b := 0xbb67ae85
  c := 0x3c6ef372
  d := 0xa54ff53a
  e := 0x510e527f
  f := 0x9b05688c
  g := 0x1f83d9ab
  h := 0x5be0cd19

/-- One round, with its constant and its word. -/
def round (s : State) (k w : ℕ) : State :=
  let t₁ := s.h + (rotr s.e 6 ^^^ rotr s.e 11 ^^^ rotr s.e 25) + ch s.e s.f s.g + k + w
  let t₂ := (rotr s.a 2 ^^^ rotr s.a 13 ^^^ rotr s.a 22) + maj s.a s.b s.c
  { a := (t₁ + t₂) % wordSize, b := s.a, c := s.b, d := s.c
    e := (s.d + t₁) % wordSize, f := s.e, g := s.f, h := s.g }

/-- Extend the words of a block, the last one first, by so many words. -/
def extend : ℕ → List ℕ → List ℕ
  | 0, ws => ws
  | n + 1, ws =>
    let w (i : ℕ) := ws.getD i 0
    let s₀ := rotr (w 14) 7 ^^^ rotr (w 14) 18 ^^^ w 14 >>> 3
    let s₁ := rotr (w 1) 17 ^^^ rotr (w 1) 19 ^^^ w 1 >>> 10
    extend n ((w 15 + s₀ + w 6 + s₁) % wordSize :: ws)

/-- The words of some octets, four octets a word. -/
def words : List UInt8 → List ℕ
  | a :: b :: c :: d :: rest => Der.ofBytes [a, b, c, d] :: words rest
  | _ => []

/-- The hash value after a block. -/
def compress (s : State) (block : List UInt8) : State :=
  let ws := (extend 48 (words block).reverse).reverse
  let t := (roundConstants.zip ws).foldl (fun t kw => round t kw.1 kw.2) s
  { a := (s.a + t.a) % wordSize, b := (s.b + t.b) % wordSize, c := (s.c + t.c) % wordSize
    d := (s.d + t.d) % wordSize, e := (s.e + t.e) % wordSize, f := (s.f + t.f) % wordSize
    g := (s.g + t.g) % wordSize, h := (s.h + t.h) % wordSize }

/-- The message with a one, zeros, and its length in bits. -/
def pad (message : List UInt8) : List UInt8 :=
  message ++ 0x80 :: List.replicate ((119 - message.length % 64) % 64) 0 ++
    List.replicate 4 0 ++ Der.be4 (8 * message.length)

/-- The hash value after so many blocks. -/
def blocks : ℕ → State → List UInt8 → State
  | 0, s, _ => s
  | n + 1, s, message => blocks n (compress s (message.take 64)) (message.drop 64)

/-- The digest of a message. -/
def digest (message : List UInt8) : List UInt8 :=
  let padded := pad message
  let s := blocks (padded.length / 64) start padded
  [s.a, s.b, s.c, s.d, s.e, s.f, s.g, s.h].flatMap Der.be4

/-- The digest of `abc`. -/
example : digest [97, 98, 99] = [
    0xba, 0x78, 0x16, 0xbf, 0x8f, 0x01, 0xcf, 0xea, 0x41, 0x41, 0x40, 0xde, 0x5d, 0xae, 0x22, 0x23,
    0xb0, 0x03, 0x61, 0xa3, 0x96, 0x17, 0x7a, 0x9c, 0xb4, 0x10, 0xff, 0x61, 0xf2, 0x00, 0x15, 0xad]
    := by
  decide +kernel

end Ostrich.Sha256
