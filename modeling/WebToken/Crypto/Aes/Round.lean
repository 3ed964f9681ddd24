import WebToken.Crypto.Aes.Block

/-!
# The rounds of the cipher

A round substitutes bytes, turns the rows, mixes every column and adds a round key; the last round
mixes no columns. Each step has a step that undoes it.

Mixing is linear over the field of 256 elements. Doing it twice only adds to each byte four times
a sum of two bytes (`mixColumn_mixColumn`), and doing that twice changes nothing (`spread_spread`),
so mixing is undone by spreading first.

* `unround_round` and `round_unround` : a round and its undoing, under one round key;
* `unlastRound_lastRound` and `lastRound_unlastRound` : the same for the last round.
-/

namespace WebToken

namespace Crypto

namespace Aes

/-! ## Substitution -/

/-- The substitution of bytes: the inverse in the field of 256 elements, then an affine map. -/
def table : Array UInt8 := #[
    0x63, 0x7c, 0x77, 0x7b, 0xf2, 0x6b, 0x6f, 0xc5, 0x30, 0x01, 0x67, 0x2b, 0xfe, 0xd7, 0xab, 0x76,
    0xca, 0x82, 0xc9, 0x7d, 0xfa, 0x59, 0x47, 0xf0, 0xad, 0xd4, 0xa2, 0xaf, 0x9c, 0xa4, 0x72, 0xc0,
    0xb7, 0xfd, 0x93, 0x26, 0x36, 0x3f, 0xf7, 0xcc, 0x34, 0xa5, 0xe5, 0xf1, 0x71, 0xd8, 0x31, 0x15,
    0x04, 0xc7, 0x23, 0xc3, 0x18, 0x96, 0x05, 0x9a, 0x07, 0x12, 0x80, 0xe2, 0xeb, 0x27, 0xb2, 0x75,
    0x09, 0x83, 0x2c, 0x1a, 0x1b, 0x6e, 0x5a, 0xa0, 0x52, 0x3b, 0xd6, 0xb3, 0x29, 0xe3, 0x2f, 0x84,
    0x53, 0xd1, 0x00, 0xed, 0x20, 0xfc, 0xb1, 0x5b, 0x6a, 0xcb, 0xbe, 0x39, 0x4a, 0x4c, 0x58, 0xcf,
    0xd0, 0xef, 0xaa, 0xfb, 0x43, 0x4d, 0x33, 0x85, 0x45, 0xf9, 0x02, 0x7f, 0x50, 0x3c, 0x9f, 0xa8,
    0x51, 0xa3, 0x40, 0x8f, 0x92, 0x9d, 0x38, 0xf5, 0xbc, 0xb6, 0xda, 0x21, 0x10, 0xff, 0xf3, 0xd2,
    0xcd, 0x0c, 0x13, 0xec, 0x5f, 0x97, 0x44, 0x17, 0xc4, 0xa7, 0x7e, 0x3d, 0x64, 0x5d, 0x19, 0x73,
    0x60, 0x81, 0x4f, 0xdc, 0x22, 0x2a, 0x90, 0x88, 0x46, 0xee, 0xb8, 0x14, 0xde, 0x5e, 0x0b, 0xdb,
    0xe0, 0x32, 0x3a, 0x0a, 0x49, 0x06, 0x24, 0x5c, 0xc2, 0xd3, 0xac, 0x62, 0x91, 0x95, 0xe4, 0x79,
    0xe7, 0xc8, 0x37, 0x6d, 0x8d, 0xd5, 0x4e, 0xa9, 0x6c, 0x56, 0xf4, 0xea, 0x65, 0x7a, 0xae, 0x08,
    0xba, 0x78, 0x25, 0x2e, 0x1c, 0xa6, 0xb4, 0xc6, 0xe8, 0xdd, 0x74, 0x1f, 0x4b, 0xbd, 0x8b, 0x8a,
    0x70, 0x3e, 0xb5, 0x66, 0x48, 0x03, 0xf6, 0x0e, 0x61, 0x35, 0x57, 0xb9, 0x86, 0xc1, 0x1d, 0x9e,
    0xe1, 0xf8, 0x98, 0x11, 0x69, 0xd9, 0x8e, 0x94, 0x9b, 0x1e, 0x87, 0xe9, 0xce, 0x55, 0x28, 0xdf,
    0x8c, 0xa1, 0x89, 0x0d, 0xbf, 0xe6, 0x42, 0x68, 0x41, 0x99, 0x2d, 0x0f, 0xb0, 0x54, 0xbb, 0x16]

/-- The opposite substitution. -/
def inverseTable : Array UInt8 := #[
    0x52, 0x09, 0x6a, 0xd5, 0x30, 0x36, 0xa5, 0x38, 0xbf, 0x40, 0xa3, 0x9e, 0x81, 0xf3, 0xd7, 0xfb,
    0x7c, 0xe3, 0x39, 0x82, 0x9b, 0x2f, 0xff, 0x87, 0x34, 0x8e, 0x43, 0x44, 0xc4, 0xde, 0xe9, 0xcb,
    0x54, 0x7b, 0x94, 0x32, 0xa6, 0xc2, 0x23, 0x3d, 0xee, 0x4c, 0x95, 0x0b, 0x42, 0xfa, 0xc3, 0x4e,
    0x08, 0x2e, 0xa1, 0x66, 0x28, 0xd9, 0x24, 0xb2, 0x76, 0x5b, 0xa2, 0x49, 0x6d, 0x8b, 0xd1, 0x25,
    0x72, 0xf8, 0xf6, 0x64, 0x86, 0x68, 0x98, 0x16, 0xd4, 0xa4, 0x5c, 0xcc, 0x5d, 0x65, 0xb6, 0x92,
    0x6c, 0x70, 0x48, 0x50, 0xfd, 0xed, 0xb9, 0xda, 0x5e, 0x15, 0x46, 0x57, 0xa7, 0x8d, 0x9d, 0x84,
    0x90, 0xd8, 0xab, 0x00, 0x8c, 0xbc, 0xd3, 0x0a, 0xf7, 0xe4, 0x58, 0x05, 0xb8, 0xb3, 0x45, 0x06,
    0xd0, 0x2c, 0x1e, 0x8f, 0xca, 0x3f, 0x0f, 0x02, 0xc1, 0xaf, 0xbd, 0x03, 0x01, 0x13, 0x8a, 0x6b,
    0x3a, 0x91, 0x11, 0x41, 0x4f, 0x67, 0xdc, 0xea, 0x97, 0xf2, 0xcf, 0xce, 0xf0, 0xb4, 0xe6, 0x73,
    0x96, 0xac, 0x74, 0x22, 0xe7, 0xad, 0x35, 0x85, 0xe2, 0xf9, 0x37, 0xe8, 0x1c, 0x75, 0xdf, 0x6e,
    0x47, 0xf1, 0x1a, 0x71, 0x1d, 0x29, 0xc5, 0x89, 0x6f, 0xb7, 0x62, 0x0e, 0xaa, 0x18, 0xbe, 0x1b,
    0xfc, 0x56, 0x3e, 0x4b, 0xc6, 0xd2, 0x79, 0x20, 0x9a, 0xdb, 0xc0, 0xfe, 0x78, 0xcd, 0x5a, 0xf4,
    0x1f, 0xdd, 0xa8, 0x33, 0x88, 0x07, 0xc7, 0x31, 0xb1, 0x12, 0x10, 0x59, 0x27, 0x80, 0xec, 0x5f,
    0x60, 0x51, 0x7f, 0xa9, 0x19, 0xb5, 0x4a, 0x0d, 0x2d, 0xe5, 0x7a, 0x9f, 0x93, 0xc9, 0x9c, 0xef,
    0xa0, 0xe0, 0x3b, 0x4d, 0xae, 0x2a, 0xf5, 0xb0, 0xc8, 0xeb, 0xbb, 0x3c, 0x83, 0x53, 0x99, 0x61,
    0x17, 0x2b, 0x04, 0x7e, 0xba, 0x77, 0xd6, 0x26, 0xe1, 0x69, 0x14, 0x63, 0x55, 0x21, 0x0c, 0x7d]

/-- The byte put for a byte. -/
def substitute (b : UInt8) : UInt8 := table.getD b.toNat 0

/-- The byte for which a byte was put. -/
def unsubstitute (b : UInt8) : UInt8 := inverseTable.getD b.toNat 0

theorem unsubstitute_substitute (b : UInt8) : unsubstitute (substitute b) = b := by
  have h : ∀ n : Fin 256, unsubstitute (substitute (UInt8.ofNat n)) = UInt8.ofNat n := by
    decide +kernel
  simpa using h ⟨b.toNat, b.toNat_lt⟩

theorem substitute_unsubstitute (b : UInt8) : substitute (unsubstitute b) = b := by
  have h : ∀ n : Fin 256, substitute (unsubstitute (UInt8.ofNat n)) = UInt8.ofNat n := by
    decide +kernel
  simpa using h ⟨b.toNat, b.toNat_lt⟩

/-! ## Rows -/

/-- Turn row `i` by `i` places to the left. -/
def shiftRows (b : Block) : Block :=
  ⟨⟨b.c0.x0, b.c1.x1, b.c2.x2, b.c3.x3⟩, ⟨b.c1.x0, b.c2.x1, b.c3.x2, b.c0.x3⟩,
    ⟨b.c2.x0, b.c3.x1, b.c0.x2, b.c1.x3⟩, ⟨b.c3.x0, b.c0.x1, b.c1.x2, b.c2.x3⟩⟩

/-- Turn row `i` by `i` places to the right. -/
def unshiftRows (b : Block) : Block :=
  ⟨⟨b.c0.x0, b.c3.x1, b.c2.x2, b.c1.x3⟩, ⟨b.c1.x0, b.c0.x1, b.c3.x2, b.c2.x3⟩,
    ⟨b.c2.x0, b.c1.x1, b.c0.x2, b.c3.x3⟩, ⟨b.c3.x0, b.c2.x1, b.c1.x2, b.c0.x3⟩⟩

theorem unshiftRows_shiftRows (b : Block) : unshiftRows (shiftRows b) = b := rfl

theorem shiftRows_unshiftRows (b : Block) : shiftRows (unshiftRows b) = b := rfl

/-! ## Columns mixed -/

/-- Twice a byte, in the field of 256 elements. -/
def double (b : UInt8) : UInt8 := (b <<< 1) ^^^ (if b < 0x80 then 0 else 0x1B)

/-- Mix a column: each byte becomes twice itself, three times the next, and the other two. -/
def mixColumn (c : Column) : Column :=
  let all := c.x0 ^^^ c.x1 ^^^ c.x2 ^^^ c.x3
  ⟨c.x0 ^^^ all ^^^ double (c.x0 ^^^ c.x1), c.x1 ^^^ all ^^^ double (c.x1 ^^^ c.x2),
    c.x2 ^^^ all ^^^ double (c.x2 ^^^ c.x3), c.x3 ^^^ all ^^^ double (c.x3 ^^^ c.x0)⟩

/-- What a column needs before it is mixed so that mixing undoes an earlier mixing: four times the
sum of every second byte, added to these bytes. -/
def spread (c : Column) : Column :=
  let even := double (double (c.x0 ^^^ c.x2))
  let odd := double (double (c.x1 ^^^ c.x3))
  ⟨c.x0 ^^^ even, c.x1 ^^^ odd, c.x2 ^^^ even, c.x3 ^^^ odd⟩

/-- Undo the mixing of a column. -/
def unmixColumn (c : Column) : Column := mixColumn (spread c)

theorem xor_left_comm (a b c : UInt8) : a ^^^ (b ^^^ c) = b ^^^ (a ^^^ c) := by
  rw [← UInt8.xor_assoc, UInt8.xor_comm a, UInt8.xor_assoc]

theorem xor_cancel_left (a b : UInt8) : a ^^^ (a ^^^ b) = b := by
  rw [← UInt8.xor_assoc, UInt8.xor_self, UInt8.zero_xor]

/-- Doubling in the field respects sums. -/
theorem double_xor (a b : UInt8) : double (a ^^^ b) = double a ^^^ double b := by
  have top : ∀ x : UInt8, (x < 0x80) = (x.toBitVec.msb = false) := by
    intro x
    rw [BitVec.msb_eq_decide]
    simp [UInt8.lt_iff_toNat_lt]
  unfold double
  simp only [top, UInt8.toBitVec_xor, BitVec.msb_xor]
  cases a.toBitVec.msb <;> cases b.toBitVec.msb <;>
    simp [UInt8.shiftLeft_xor, UInt8.xor_assoc, UInt8.xor_comm, xor_left_comm]

/-- Mixing a column twice spreads it. -/
theorem mixColumn_mixColumn (c : Column) : mixColumn (mixColumn c) = spread c := by
  obtain ⟨a, b, c, d⟩ := c
  simp only [mixColumn, spread, double_xor, UInt8.xor_assoc, UInt8.xor_comm,
    xor_left_comm, xor_cancel_left, UInt8.xor_self, UInt8.xor_zero, UInt8.zero_xor]

theorem spread_spread (c : Column) : spread (spread c) = c := by
  obtain ⟨a, b, c, d⟩ := c
  simp only [spread, double_xor, UInt8.xor_comm, xor_left_comm, UInt8.xor_self, UInt8.xor_zero]

theorem unmixColumn_mixColumn (c : Column) : unmixColumn (mixColumn c) = c := by
  rw [unmixColumn, ← mixColumn_mixColumn, mixColumn_mixColumn, mixColumn_mixColumn, spread_spread]

theorem mixColumn_unmixColumn (c : Column) : mixColumn (unmixColumn c) = c := by
  rw [unmixColumn, mixColumn_mixColumn, spread_spread]

/-! ## Rounds -/

/-- A round that is not the last. -/
def round (b k : Block) : Block :=
  ((shiftRows (b.map (Column.map substitute))).map mixColumn).add k

/-- Undo a round that is not the last. -/
def unround (b k : Block) : Block :=
  (unshiftRows ((b.add k).map unmixColumn)).map (Column.map unsubstitute)

/-- The last round mixes no columns. -/
def lastRound (b k : Block) : Block :=
  (shiftRows (b.map (Column.map substitute))).add k

/-- Undo the last round. -/
def unlastRound (b k : Block) : Block :=
  (unshiftRows (b.add k)).map (Column.map unsubstitute)

theorem map_unsubstitute_substitute (b : Block) :
    (b.map (Column.map substitute)).map (Column.map unsubstitute) = b := by
  simp [Block.map, Column.map, unsubstitute_substitute]

theorem map_substitute_unsubstitute (b : Block) :
    (b.map (Column.map unsubstitute)).map (Column.map substitute) = b := by
  simp [Block.map, Column.map, substitute_unsubstitute]

theorem map_unmixColumn_mixColumn (b : Block) : (b.map mixColumn).map unmixColumn = b := by
  simp [Block.map, unmixColumn_mixColumn]

theorem map_mixColumn_unmixColumn (b : Block) : (b.map unmixColumn).map mixColumn = b := by
  simp [Block.map, mixColumn_unmixColumn]

theorem unround_round (b k : Block) : unround (round b k) k = b := by
  rw [unround, round, Block.add_add_cancel, map_unmixColumn_mixColumn, unshiftRows_shiftRows,
    map_unsubstitute_substitute]

theorem round_unround (b k : Block) : round (unround b k) k = b := by
  rw [unround, round, map_substitute_unsubstitute, shiftRows_unshiftRows,
    map_mixColumn_unmixColumn, Block.add_add_cancel]

theorem unlastRound_lastRound (b k : Block) : unlastRound (lastRound b k) k = b := by
  rw [unlastRound, lastRound, Block.add_add_cancel, unshiftRows_shiftRows,
    map_unsubstitute_substitute]

theorem lastRound_unlastRound (b k : Block) : lastRound (unlastRound b k) k = b := by
  rw [unlastRound, lastRound, map_substitute_unsubstitute, shiftRows_unshiftRows,
    Block.add_add_cancel]

end Aes

end Crypto

end WebToken
