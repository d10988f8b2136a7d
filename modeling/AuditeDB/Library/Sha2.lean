import Mathlib
import AuditeDB.Library.Utf8

/-!
# SHA-256 and HMAC-SHA-256

An executable rendering of the two functions on byte strings. Words are natural numbers below `2 ^ 32`,
and every recursion is structural, so that a digest of a concrete message can be evaluated.
-/

namespace Sha2

/-- A digest of thirty-two bytes. -/
abbrev Digest : Type := { bytes : List UInt8 // bytes.length = 32 }

/-- The value of a number as a word. -/
def word (n : Nat) : Nat := n % 4294967296

/-- The rotation of a word to the right. -/
def rotateRight (k n : Nat) : Nat := (n >>> k) ||| word (n <<< (32 - k))

/-- The round constants. -/
def roundConstants : List Nat := [
  0x428a2f98, 0x71374491, 0xb5c0fbcf, 0xe9b5dba5, 0x3956c25b, 0x59f111f1, 0x923f82a4, 0xab1c5ed5,
  0xd807aa98, 0x12835b01, 0x243185be, 0x550c7dc3, 0x72be5d74, 0x80deb1fe, 0x9bdc06a7, 0xc19bf174,
  0xe49b69c1, 0xefbe4786, 0x0fc19dc6, 0x240ca1cc, 0x2de92c6f, 0x4a7484aa, 0x5cb0a9dc, 0x76f988da,
  0x983e5152, 0xa831c66d, 0xb00327c8, 0xbf597fc7, 0xc6e00bf3, 0xd5a79147, 0x06ca6351, 0x14292967,
  0x27b70a85, 0x2e1b2138, 0x4d2c6dfc, 0x53380d13, 0x650a7354, 0x766a0abb, 0x81c2c92e, 0x92722c85,
  0xa2bfe8a1, 0xa81a664b, 0xc24b8b70, 0xc76c51a3, 0xd192e819, 0xd6990624, 0xf40e3585, 0x106aa070,
  0x19a4c116, 0x1e376c08, 0x2748774c, 0x34b0bcb5, 0x391c0cb3, 0x4ed8aa4a, 0x5b9cca4f, 0x682e6ff3,
  0x748f82ee, 0x78a5636f, 0x84c87814, 0x8cc70208, 0x90befffa, 0xa4506ceb, 0xbef9a3f7, 0xc67178f2]

/-- The eight working variables. -/
structure Registers where
  a : Nat
  b : Nat
  c : Nat
  d : Nat
  e : Nat
  f : Nat
  g : Nat
  h : Nat

/-- The initial hash value. -/
def initial : Registers :=
  ⟨0x6a09e667, 0xbb67ae85, 0x3c6ef372, 0xa54ff53a, 0x510e527f, 0x9b05688c, 0x1f83d9ab, 0x5be0cd19⟩

/-- The choice of bits. -/
def choose (x y z : Nat) : Nat := (x &&& y) ^^^ ((4294967295 ^^^ x) &&& z)

/-- The majority of bits. -/
def majority (x y z : Nat) : Nat := (x &&& y) ^^^ (x &&& z) ^^^ (y &&& z)

/-- One round with its constant and message word. -/
def round (s : Registers) (k w : Nat) : Registers :=
  let t₁ := s.h + (rotateRight 6 s.e ^^^ rotateRight 11 s.e ^^^ rotateRight 25 s.e) +
    choose s.e s.f s.g + k + w
  let t₂ := (rotateRight 2 s.a ^^^ rotateRight 13 s.a ^^^ rotateRight 22 s.a) + majority s.a s.b s.c
  ⟨word (t₁ + t₂), s.a, s.b, s.c, word (s.d + t₁), s.e, s.f, s.g⟩

/-- The next message word of a window of sixteen words. -/
def nextWord : List Nat → Nat
  | [w₀, w₁, _, _, _, _, _, _, _, w₉, _, _, _, _, w₁₄, _] =>
    word ((rotateRight 17 w₁₄ ^^^ rotateRight 19 w₁₄ ^^^ (w₁₄ >>> 10)) + w₉ +
      (rotateRight 7 w₁ ^^^ rotateRight 18 w₁ ^^^ (w₁ >>> 3)) + w₀)
  | _ => 0

/-- The rounds of one block; the window of message words moves with the round constants. -/
def rounds : List Nat → List Nat → Registers → Registers
  | [], _, s => s
  | k :: ks, window, s => rounds ks (window.tail ++ [nextWord window]) (round s k (window.headD 0))

/-- The compression of one block of sixteen words. -/
def compress (s : Registers) (block : List Nat) : Registers :=
  let t := rounds roundConstants block s
  ⟨word (s.a + t.a), word (s.b + t.b), word (s.c + t.c), word (s.d + t.d),
    word (s.e + t.e), word (s.f + t.f), word (s.g + t.g), word (s.h + t.h)⟩

/-- The big-endian words of a byte string. -/
def packWords : List UInt8 → List Nat
  | a :: b :: c :: d :: rest =>
    (a.toNat * 16777216 + b.toNat * 65536 + c.toNat * 256 + d.toNat) :: packWords rest
  | _ => []

/-- The first blocks of sixteen words. -/
def blocks : Nat → List Nat → List (List Nat)
  | 0, _ => []
  | count + 1, words => words.take 16 :: blocks count (words.drop 16)

/-- The big-endian bytes of a word. -/
def wordBytes (w : Nat) : List UInt8 :=
  [UInt8.ofNat (w >>> 24), UInt8.ofNat (w >>> 16), UInt8.ofNat (w >>> 8), UInt8.ofNat w]

/-- The padded message: a one bit, zero bits, and the bit length in eight bytes. -/
def pad (message : List UInt8) : List UInt8 :=
  let zeros : List UInt8 := List.replicate ((119 - message.length % 64) % 64) 0
  let bits := 8 * message.length
  message ++ (0x80 :: zeros) ++ wordBytes (word (bits >>> 32)) ++ wordBytes (word bits)

/-- The bytes of a hash value. -/
def digestBytes (s : Registers) : List UInt8 :=
  [s.a, s.b, s.c, s.d, s.e, s.f, s.g, s.h].flatMap wordBytes

/-- The SHA-256 digest of a byte string. -/
def sha256 (message : List UInt8) : Digest :=
  let padded := pad message
  ⟨digestBytes ((blocks (padded.length / 64) (packWords padded)).foldl compress initial), rfl⟩

/-- A key padded to one block; a longer key is hashed first. -/
def blockKey (key : List UInt8) : List UInt8 :=
  let short := if key.length ≤ 64 then key else (sha256 key).1
  short ++ List.replicate (64 - short.length) 0

/-- The HMAC-SHA-256 tag of a byte string under a key. -/
def hmacSha256 (key message : List UInt8) : Digest :=
  let padded := blockKey key
  sha256 (padded.map (· ^^^ 0x5c) ++ (sha256 (padded.map (· ^^^ 0x36) ++ message)).1)

example : Utf8.hexEncode (sha256 (Utf8.utf8Bytes "abc")).1 =
    "ba7816bf8f01cfea414140de5dae2223b00361a396177a9cb410ff61f20015ad" := by
  decide +kernel

example : Utf8.hexEncode (hmacSha256 (Utf8.utf8Bytes "key")
      (Utf8.utf8Bytes "The quick brown fox jumps over the lazy dog")).1 =
    "f7bc83f430538424b13298e6aa6fb143ef4d59a14946175997479dbc2d1a3cd8" := by
  decide +kernel

end Sha2
