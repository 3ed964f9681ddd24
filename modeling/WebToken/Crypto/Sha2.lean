import WebToken.Bytes

/-!
# The SHA-2 family

The two widths of the family, 32 and 64 bits, run the same compression with different constants,
so there is one definition over words of any width and one record of constants for each. The
message is padded with a one bit, zeros and its length to whole blocks of sixteen words; the
result is eight words, of which a member of the family may drop some at the end.
-/

namespace WebToken

namespace Crypto

/-- The eight words of the chaining value. -/
structure Sha2.State (w : Nat) where
  a : BitVec w
  b : BitVec w
  c : BitVec w
  d : BitVec w
  e : BitVec w
  f : BitVec w
  g : BitVec w
  h : BitVec w
  deriving Repr, DecidableEq

/-- What tells one width of the family from the other. -/
structure Sha2 where
  /-- Bytes in a word. -/
  wordBytes : Nat
  /-- One constant for each round. -/
  constants : List (BitVec (8 * wordBytes))
  /-- Rotations of the two sums over the state: three each. -/
  bigSigma0 : Nat × Nat × Nat
  bigSigma1 : Nat × Nat × Nat
  /-- Two rotations and a shift of each sum over the schedule. -/
  smallSigma0 : Nat × Nat × Nat
  smallSigma1 : Nat × Nat × Nat

namespace Sha2

/-- A word of the width. -/
abbrev Word (s : Sha2) := BitVec (8 * s.wordBytes)

/-- Bytes in a block. -/
def blockBytes (s : Sha2) : Nat := 16 * s.wordBytes

/-- Three rotations of a word, summed. -/
def rotations {w : Nat} (r : Nat × Nat × Nat) (x : BitVec w) : BitVec w :=
  x.rotateRight r.1 ^^^ x.rotateRight r.2.1 ^^^ x.rotateRight r.2.2

/-- Two rotations and a shift of a word, summed. -/
def rotationsShift {w : Nat} (r : Nat × Nat × Nat) (x : BitVec w) : BitVec w :=
  x.rotateRight r.1 ^^^ x.rotateRight r.2.1 ^^^ (x >>> r.2.2)

/-- The bits of `f` where `e` has a one and those of `g` elsewhere. -/
def choose {w : Nat} (e f g : BitVec w) : BitVec w := (e &&& f) ^^^ (~~~e &&& g)

/-- The bits that two of three words share. -/
def majority {w : Nat} (a b c : BitVec w) : BitVec w := (a &&& b) ^^^ (a &&& c) ^^^ (b &&& c)

/-! ## Compression -/

/-- The word that follows sixteen words of the schedule. -/
def nextWord (s : Sha2) : List s.Word → s.Word
  | w0 :: w1 :: window =>
    rotationsShift s.smallSigma1 (window.getD 12 0) + window.getD 7 0
      + rotationsShift s.smallSigma0 w1 + w0
  | _ => 0

/-- One round, with the sum of its constant and its word of the schedule. -/
def round (s : Sha2) (x : State (8 * s.wordBytes)) (kw : s.Word) : State (8 * s.wordBytes) :=
  let t1 := x.h + rotations s.bigSigma1 x.e + choose x.e x.f x.g + kw
  let t2 := rotations s.bigSigma0 x.a + majority x.a x.b x.c
  ⟨t1 + t2, x.a, x.b, x.c, x.d + t1, x.e, x.f, x.g⟩

/-- The rounds for the constants given, with sixteen words of the schedule at hand. -/
def rounds (s : Sha2) :
    List s.Word → List s.Word → State (8 * s.wordBytes) → State (8 * s.wordBytes)
  | [], _, x => x
  | k :: ks, window, x =>
    rounds s ks (window.drop 1 ++ [s.nextWord window]) (s.round x (k + window.headD 0))

/-- The words of a block. -/
def words (s : Sha2) (block : Bytes) : List s.Word :=
  (block.chunks s.wordBytes).map fun word => BitVec.ofNat _ word.toNat

/-- The chaining value after one more block. -/
def compress (s : Sha2) (x : State (8 * s.wordBytes)) (block : Bytes) : State (8 * s.wordBytes) :=
  let y := s.rounds s.constants (s.words block) x
  ⟨x.a + y.a, x.b + y.b, x.c + y.c, x.d + y.d, x.e + y.e, x.f + y.f, x.g + y.g, x.h + y.h⟩

/-! ## The message -/

/-- The padding of a message of `length` bytes: a one bit, zeros up to the place of the length,
and the length in bits in two words. -/
def padding (s : Sha2) (length : Nat) : Bytes :=
  let used := (length + 1 + 2 * s.wordBytes) % s.blockBytes
  let zeros := (s.blockBytes - used) % s.blockBytes
  0x80 :: List.replicate zeros 0 ++ Bytes.ofNat (2 * s.wordBytes) (8 * length)

/-- The bytes of a chaining value. -/
def State.bytes (k : Nat) {w : Nat} (x : State w) : Bytes :=
  [x.a, x.b, x.c, x.d, x.e, x.f, x.g, x.h].flatMap fun word => Bytes.ofNat k word.toNat

/-- The first `size` bytes of the hash of a message, from a given chaining value. -/
def digest (s : Sha2) (start : State (8 * s.wordBytes)) (size : Nat) (message : Bytes) : Bytes :=
  let padded := message ++ s.padding message.length
  ((padded.chunks s.blockBytes).foldl s.compress start |>.bytes s.wordBytes).take size

theorem length_bytes (k : Nat) {w : Nat} (x : State w) : (x.bytes k).length = 8 * k := by
  simp [State.bytes]
  omega

/-- A digest has the size asked for, up to eight words. -/
theorem length_digest (s : Sha2) (start : State (8 * s.wordBytes)) {size : Nat}
    (h : size ≤ 8 * s.wordBytes) (message : Bytes) :
    (s.digest start size message).length = size := by
  simp [digest, length_bytes, h]

/-! ## The two widths -/

/-- Words of 32 bits and 64 rounds. The constants are the fractions of the cube roots of the first
primes. -/
def narrow : Sha2 where
  wordBytes := 4
  bigSigma0 := (2, 13, 22)
  bigSigma1 := (6, 11, 25)
  smallSigma0 := (7, 18, 3)
  smallSigma1 := (17, 19, 10)
  constants := [
      0x428a2f98, 0x71374491, 0xb5c0fbcf, 0xe9b5dba5, 0x3956c25b, 0x59f111f1,
      0x923f82a4, 0xab1c5ed5, 0xd807aa98, 0x12835b01, 0x243185be, 0x550c7dc3,
      0x72be5d74, 0x80deb1fe, 0x9bdc06a7, 0xc19bf174, 0xe49b69c1, 0xefbe4786,
      0x0fc19dc6, 0x240ca1cc, 0x2de92c6f, 0x4a7484aa, 0x5cb0a9dc, 0x76f988da,
      0x983e5152, 0xa831c66d, 0xb00327c8, 0xbf597fc7, 0xc6e00bf3, 0xd5a79147,
      0x06ca6351, 0x14292967, 0x27b70a85, 0x2e1b2138, 0x4d2c6dfc, 0x53380d13,
      0x650a7354, 0x766a0abb, 0x81c2c92e, 0x92722c85, 0xa2bfe8a1, 0xa81a664b,
      0xc24b8b70, 0xc76c51a3, 0xd192e819, 0xd6990624, 0xf40e3585, 0x106aa070,
      0x19a4c116, 0x1e376c08, 0x2748774c, 0x34b0bcb5, 0x391c0cb3, 0x4ed8aa4a,
      0x5b9cca4f, 0x682e6ff3, 0x748f82ee, 0x78a5636f, 0x84c87814, 0x8cc70208,
      0x90befffa, 0xa4506ceb, 0xbef9a3f7, 0xc67178f2]

/-- Words of 64 bits and 80 rounds. -/
def wide : Sha2 where
  wordBytes := 8
  bigSigma0 := (28, 34, 39)
  bigSigma1 := (14, 18, 41)
  smallSigma0 := (1, 8, 7)
  smallSigma1 := (19, 61, 6)
  constants := [
      0x428a2f98d728ae22, 0x7137449123ef65cd, 0xb5c0fbcfec4d3b2f, 0xe9b5dba58189dbbc,
      0x3956c25bf348b538, 0x59f111f1b605d019, 0x923f82a4af194f9b, 0xab1c5ed5da6d8118,
      0xd807aa98a3030242, 0x12835b0145706fbe, 0x243185be4ee4b28c, 0x550c7dc3d5ffb4e2,
      0x72be5d74f27b896f, 0x80deb1fe3b1696b1, 0x9bdc06a725c71235, 0xc19bf174cf692694,
      0xe49b69c19ef14ad2, 0xefbe4786384f25e3, 0x0fc19dc68b8cd5b5, 0x240ca1cc77ac9c65,
      0x2de92c6f592b0275, 0x4a7484aa6ea6e483, 0x5cb0a9dcbd41fbd4, 0x76f988da831153b5,
      0x983e5152ee66dfab, 0xa831c66d2db43210, 0xb00327c898fb213f, 0xbf597fc7beef0ee4,
      0xc6e00bf33da88fc2, 0xd5a79147930aa725, 0x06ca6351e003826f, 0x142929670a0e6e70,
      0x27b70a8546d22ffc, 0x2e1b21385c26c926, 0x4d2c6dfc5ac42aed, 0x53380d139d95b3df,
      0x650a73548baf63de, 0x766a0abb3c77b2a8, 0x81c2c92e47edaee6, 0x92722c851482353b,
      0xa2bfe8a14cf10364, 0xa81a664bbc423001, 0xc24b8b70d0f89791, 0xc76c51a30654be30,
      0xd192e819d6ef5218, 0xd69906245565a910, 0xf40e35855771202a, 0x106aa07032bbd1b8,
      0x19a4c116b8d2d0c8, 0x1e376c085141ab53, 0x2748774cdf8eeb99, 0x34b0bcb5e19b48a8,
      0x391c0cb3c5c95a63, 0x4ed8aa4ae3418acb, 0x5b9cca4f7763e373, 0x682e6ff3d6b2b8a3,
      0x748f82ee5defb2fc, 0x78a5636f43172f60, 0x84c87814a1f0ab72, 0x8cc702081a6439ec,
      0x90befffa23631e28, 0xa4506cebde82bde9, 0xbef9a3f7b2c67915, 0xc67178f2e372532b,
      0xca273eceea26619c, 0xd186b8c721c0c207, 0xeada7dd6cde0eb1e, 0xf57d4f7fee6ed178,
      0x06f067aa72176fba, 0x0a637dc5a2c898a6, 0x113f9804bef90dae, 0x1b710b35131c471b,
      0x28db77f523047d84, 0x32caab7b40c72493, 0x3c9ebe0a15c9bebc, 0x431d67c49c100d4c,
      0x4cc5d4becb3e42b6, 0x597f299cfc657e2a, 0x5fcb6fab3ad6faec, 0x6c44198c4a475817]

/-- The chaining value from which SHA-256 starts: fractions of the square roots of the first
primes. -/
def start256 : State 32 :=
  ⟨0x6a09e667, 0xbb67ae85, 0x3c6ef372, 0xa54ff53a,
    0x510e527f, 0x9b05688c, 0x1f83d9ab, 0x5be0cd19⟩

/-- The chaining value from which SHA-384 starts. -/
def start384 : State 64 :=
  ⟨0xcbbb9d5dc1059ed8, 0x629a292a367cd507, 0x9159015a3070dd17, 0x152fecd8f70e5939,
    0x67332667ffc00b31, 0x8eb44a8768581511, 0xdb0c2e0d64f98fa7, 0x47b5481dbefa4fa4⟩

/-- The chaining value from which SHA-512 starts. -/
def start512 : State 64 :=
  ⟨0x6a09e667f3bcc908, 0xbb67ae8584caa73b, 0x3c6ef372fe94f82b, 0xa54ff53a5f1d36f1,
    0x510e527fade682d1, 0x9b05688c2b3e6c1f, 0x1f83d9abfb41bd6b, 0x5be0cd19137e2179⟩

end Sha2

end Crypto

end WebToken
