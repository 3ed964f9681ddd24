import WebToken.Bytes

/-!
# SHA-1

Five words of 32 bits, eighty rounds in four groups of twenty.
-/

namespace WebToken

namespace Crypto

namespace Sha1

/-- A word of 32 bits. -/
abbrev Word := BitVec 32

/-- The five words of the chaining value. -/
structure State where
  a : Word
  b : Word
  c : Word
  d : Word
  e : Word
  deriving Repr, DecidableEq

/-- Bytes in a block. -/
def blockBytes : Nat := 64

/-- The function and the constant of a round. -/
def mix (round : Nat) (b c d : Word) : Word :=
  if round < 20 then ((b &&& c) ^^^ (~~~b &&& d)) + 0x5a827999
  else if round < 40 then (b ^^^ c ^^^ d) + 0x6ed9eba1
  else if round < 60 then ((b &&& c) ^^^ (b &&& d) ^^^ (c &&& d)) + 0x8f1bbcdc
  else (b ^^^ c ^^^ d) + 0xca62c1d6

/-- The word that follows sixteen words of the schedule. -/
def nextWord (window : List Word) : Word :=
  (window.getD 13 0 ^^^ window.getD 8 0 ^^^ window.getD 2 0 ^^^ window.getD 0 0).rotateLeft 1

/-- The rounds from `round` on, with sixteen words of the schedule at hand. -/
def rounds : Nat → Nat → List Word → State → State
  | 0, _, _, x => x
  | left + 1, round, window, x =>
    let t := x.a.rotateLeft 5 + mix round x.b x.c x.d + x.e + window.headD 0
    rounds left (round + 1) (window.drop 1 ++ [nextWord window])
      ⟨t, x.a, x.b.rotateLeft 30, x.c, x.d⟩

/-- The chaining value after one more block. -/
def compress (x : State) (block : Bytes) : State :=
  let y := rounds 80 0 ((block.chunks 4).map fun word => BitVec.ofNat 32 word.toNat) x
  ⟨x.a + y.a, x.b + y.b, x.c + y.c, x.d + y.d, x.e + y.e⟩

/-- The chaining value from which the hash starts. -/
def start : State := ⟨0x67452301, 0xefcdab89, 0x98badcfe, 0x10325476, 0xc3d2e1f0⟩

/-- The padding of a message of `length` bytes. -/
def padding (length : Nat) : Bytes :=
  let zeros := (blockBytes - (length + 9) % blockBytes) % blockBytes
  0x80 :: List.replicate zeros 0 ++ Bytes.ofNat 8 (8 * length)

/-- The hash of a message: twenty bytes. -/
def digest (message : Bytes) : Bytes :=
  let x := ((message ++ padding message.length).chunks blockBytes).foldl compress start
  [x.a, x.b, x.c, x.d, x.e].flatMap fun word => Bytes.ofNat 4 word.toNat

@[simp] theorem length_digest (message : Bytes) : (digest message).length = 20 := by
  simp [digest]

end Sha1

end Crypto

end WebToken
