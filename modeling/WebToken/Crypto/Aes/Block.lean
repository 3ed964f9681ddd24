import WebToken.Bytes

/-!
# Columns and blocks

The state of the cipher is a block: four columns of four bytes, read column by column. A string is
cut into blocks by `Block.split` and put together by `Block.join`.

* `Block.split_join` and `Block.join_split` : the two undo each other on strings of whole blocks;
* `Block.add_add_cancel` : adding a block twice changes nothing.
-/

namespace WebToken

namespace Crypto

namespace Aes

/-! ## Columns and blocks -/

/-- A column of four bytes. -/
structure Column where
  x0 : UInt8
  x1 : UInt8
  x2 : UInt8
  x3 : UInt8
  deriving Repr, DecidableEq, Inhabited

/-- A block of four columns. -/
structure Block where
  c0 : Column
  c1 : Column
  c2 : Column
  c3 : Column
  deriving Repr, DecidableEq, Inhabited

/-- The column of the first four bytes; missing bytes are zero. -/
def Column.ofBytes (b : Bytes) : Column :=
  ⟨b.getD 0 0, b.getD 1 0, b.getD 2 0, b.getD 3 0⟩

/-- The bytes of a column. -/
def Column.bytes (c : Column) : Bytes := [c.x0, c.x1, c.x2, c.x3]

/-- The block of the first sixteen bytes; missing bytes are zero. -/
def Block.ofBytes (b : Bytes) : Block :=
  ⟨.ofBytes b, .ofBytes (b.drop 4), .ofBytes (b.drop 8), .ofBytes (b.drop 12)⟩

/-- The bytes of a block. -/
def Block.bytes (b : Block) : Bytes := b.c0.bytes ++ b.c1.bytes ++ b.c2.bytes ++ b.c3.bytes

/-- Bytes in a block. -/
def blockBytes : Nat := 16

/-- The sum of two columns. -/
def Column.add (c d : Column) : Column :=
  ⟨c.x0 ^^^ d.x0, c.x1 ^^^ d.x1, c.x2 ^^^ d.x2, c.x3 ^^^ d.x3⟩

/-- The sum of two blocks. -/
def Block.add (b k : Block) : Block :=
  ⟨b.c0.add k.c0, b.c1.add k.c1, b.c2.add k.c2, b.c3.add k.c3⟩

/-- A function on bytes, done to a column. -/
def Column.map (f : UInt8 → UInt8) (c : Column) : Column := ⟨f c.x0, f c.x1, f c.x2, f c.x3⟩

/-- A function on columns, done to a block. -/
def Block.map (f : Column → Column) (b : Block) : Block := ⟨f b.c0, f b.c1, f b.c2, f b.c3⟩

theorem Column.add_add_cancel (c k : Column) : (c.add k).add k = c := by
  simp only [Column.add, UInt8.xor_assoc, UInt8.xor_self, UInt8.xor_zero]

theorem Block.add_add_cancel (b k : Block) : (b.add k).add k = b := by
  simp [Block.add, Column.add_add_cancel]

/-! ## Bytes and blocks -/

/-- The blocks of a string, the last one filled with zeros if it is not full. -/
def Block.split (b : Bytes) : List Block := (b.chunks blockBytes).map Block.ofBytes

/-- The bytes of blocks, one after the other. -/
def Block.join (bs : List Block) : Bytes := bs.flatMap Block.bytes

@[simp] theorem Block.length_bytes (b : Block) : b.bytes.length = blockBytes := rfl

theorem Block.ofBytes_bytes (b : Block) : Block.ofBytes b.bytes = b := rfl

/-- Sixteen bytes are the bytes of their block. -/
theorem Block.bytes_ofBytes {b : Bytes} (h : b.length = blockBytes) : (Block.ofBytes b).bytes = b := by
  match b, h with
  | [_, _, _, _, _, _, _, _, _, _, _, _, _, _, _, _], _ => rfl

@[simp] theorem Block.length_join (bs : List Block) :
    (Block.join bs).length = blockBytes * bs.length := by
  induction bs with
  | nil => rfl
  | cons b bs ih =>
    rw [Block.join, List.flatMap_cons, List.length_append, ← Block.join, ih, Block.length_bytes,
      List.length_cons]
    simp only [blockBytes]
    omega

/-- The blocks are found again in their bytes. -/
theorem Block.split_join (bs : List Block) : Block.split (Block.join bs) = bs := by
  have h : Bytes.chunks blockBytes (bs.map Block.bytes).flatten = bs.map Block.bytes :=
    Bytes.chunks_flatten (by decide) (by simp)
  rw [Block.split, Block.join, List.flatMap_def, h, List.map_map]
  exact List.map_id'' (fun b => Block.ofBytes_bytes b) bs

/-- A string of whole blocks is found again in its blocks. -/
theorem Block.join_split {b : Bytes} (h : b.length % blockBytes = 0) :
    Block.join (Block.split b) = b := by
  rw [Block.split, Block.join, List.flatMap_def, List.map_map]
  have hb : ∀ piece ∈ b.chunks blockBytes, (Block.bytes ∘ Block.ofBytes) piece = piece :=
    fun piece hp => Block.bytes_ofBytes (Bytes.length_of_mem_chunks h hp)
  rw [List.map_congr_left hb, List.map_id', Bytes.flatten_chunks (by decide)]

end Aes

end Crypto

end WebToken
