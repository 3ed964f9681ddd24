/-!
# Byte strings

A byte string is a list of bytes, most significant first where it stands for a number.
This file holds what every other part needs of them: the UTF-8 form of a text, numbers of a
fixed width, and the bytewise exclusive or.

* `Bytes.ofString_inj` : texts of the same UTF-8 form are equal;
* `Bytes.flatten_chunks` and `Bytes.chunks_flatten` : cutting a string into pieces and joining the
  pieces undo each other.
-/

namespace WebToken

/-- A string of bytes. -/
abbrev Bytes := List UInt8

namespace Bytes

/-! ## Text -/

/-- The UTF-8 form of a text. -/
def ofString (text : String) : Bytes :=
  text.toByteArray.data.toList

/-- The text a byte string spells in UTF-8, if it is well formed. -/
def toString? (bytes : Bytes) : Option String :=
  String.fromUTF8? ⟨bytes.toArray⟩

/-- Texts of the same UTF-8 form are equal. -/
theorem ofString_inj {s t : String} : ofString s = ofString t ↔ s = t := by
  refine ⟨fun h => ?_, congrArg _⟩
  exact String.toByteArray_inj.1 (ByteArray.ext (Array.toList_inj.1 h))

/-- The UTF-8 form of an ASCII character is its number. -/
theorem utf8EncodeChar_ofNat {b : UInt8} (h : b.toNat < 128) :
    String.utf8EncodeChar (Char.ofNat b.toNat) = [b] := by
  have table : ∀ n : Fin 128, String.utf8EncodeChar (Char.ofNat n) = [UInt8.ofNat n] := by decide
  simpa using table ⟨b.toNat, h⟩

/-- The UTF-8 form of the text that spells ASCII bytes one by one is those bytes. -/
theorem ofString_ofList_ascii {bytes : Bytes} (h : ∀ b ∈ bytes, b.toNat < 128) :
    ofString (String.ofList (bytes.map fun b => Char.ofNat b.toNat)) = bytes := by
  have spelled : (bytes.map fun b => Char.ofNat b.toNat).flatMap String.utf8EncodeChar = bytes := by
    induction bytes with
    | nil => rfl
    | cons b bytes ih =>
      rw [List.map_cons, List.flatMap_cons, utf8EncodeChar_ofNat (h b (by simp)),
        ih fun c hc => h c (by simp [hc]), List.singleton_append]
  rw [ofString, String.toByteArray_ofList, List.utf8Encode, spelled, List.data_toByteArray]

/-! ## Numbers -/

/-- The low `k` bytes of a number, least significant first. -/
def littleEndian : Nat → Nat → Bytes
  | 0, _ => []
  | k + 1, n => UInt8.ofNat n :: littleEndian k (n / 256)

/-- The low `k` bytes of a number, most significant first. -/
def ofNat (k n : Nat) : Bytes :=
  (littleEndian k n).reverse

/-- The number a byte string spells, most significant byte first. -/
def toNat (bytes : Bytes) : Nat :=
  bytes.foldl (fun n b => 256 * n + b.toNat) 0

/-- The number of bits of a number: zero has none. -/
def bitLength (n : Nat) : Nat :=
  if n = 0 then 0 else n.log2 + 1

/-- The number of bytes that hold a number. -/
def byteLength (n : Nat) : Nat :=
  (bitLength n + 7) / 8

/-- A number in as few bytes as hold it; zero takes one byte. -/
def ofNatMinimal (n : Nat) : Bytes :=
  ofNat (max 1 (byteLength n)) n

@[simp] theorem length_littleEndian (k n : Nat) : (littleEndian k n).length = k := by
  induction k generalizing n with
  | zero => rfl
  | succ k ih => simp [littleEndian, ih]

@[simp] theorem length_ofNat (k n : Nat) : (ofNat k n).length = k := by
  simp [ofNat]

/-! ## Exclusive or -/

/-- The bytewise exclusive or, as long as the shorter string. -/
def xor (a b : Bytes) : Bytes :=
  List.zipWith (· ^^^ ·) a b

@[simp] theorem length_xor (a b : Bytes) : (xor a b).length = min a.length b.length := by
  simp [xor]

/-- Applying the same pad twice gives the string back. -/
theorem xor_xor_cancel {a k : Bytes} (h : a.length ≤ k.length) : xor (xor a k) k = a := by
  induction a generalizing k with
  | nil => simp [xor]
  | cons x a ih =>
    cases k with
    | nil => simp at h
    | cons y k =>
      have := ih (k := k) (by simpa using h)
      simpa [xor, UInt8.xor_assoc] using this

/-! ## Blocks -/

/-- The string cut into pieces of `k` bytes, the last one perhaps shorter. -/
def chunks (k : Nat) (bytes : Bytes) : List Bytes :=
  go bytes.length bytes
where
  /-- At most `fuel` pieces; the length of the string is enough. -/
  go : Nat → Bytes → List Bytes
    | 0, _ => []
    | _ + 1, [] => []
    | fuel + 1, b :: bs => (b :: bs).take k :: go fuel ((b :: bs).drop k)

theorem chunks_go_flatten {k : Nat} (hk : 0 < k) {pieces : List Bytes}
    (h : ∀ p ∈ pieces, p.length = k) {fuel : Nat} (hf : pieces.flatten.length ≤ fuel) :
    chunks.go k fuel pieces.flatten = pieces := by
  induction pieces generalizing fuel with
  | nil => cases fuel <;> rfl
  | cons p pieces ih =>
    have hp : p.length = k := h p (by simp)
    have hrest := @ih (fun q hq => h q (by simp [hq])) (fuel - 1) (by
      simp only [List.flatten_cons, List.length_append] at hf; omega)
    cases fuel with
    | zero => simp only [List.flatten_cons, List.length_append] at hf; omega
    | succ fuel =>
      cases hc : (p :: pieces).flatten with
      | nil =>
        have := congrArg List.length hc
        simp only [List.flatten_cons, List.length_append, List.length_nil] at this
        omega
      | cons b bs =>
        rw [chunks.go, ← hc, List.flatten_cons, ← hp, List.take_left, List.drop_left, hp]
        exact congrArg _ hrest

/-- Pieces of `k` bytes are found again in the string that they make. -/
theorem chunks_flatten {k : Nat} (hk : 0 < k) {pieces : List Bytes}
    (h : ∀ p ∈ pieces, p.length = k) : chunks k pieces.flatten = pieces :=
  chunks_go_flatten hk h (Nat.le_refl _)

theorem flatten_chunks_go {k : Nat} (hk : 0 < k) {fuel : Nat} {bytes : Bytes}
    (hf : bytes.length ≤ fuel) : (chunks.go k fuel bytes).flatten = bytes := by
  induction fuel generalizing bytes with
  | zero => simp only [Nat.le_zero, List.length_eq_zero_iff] at hf; subst hf; rfl
  | succ fuel ih =>
    cases bytes with
    | nil => rfl
    | cons b bs =>
      rw [chunks.go, List.flatten_cons, ih, List.take_append_drop]
      simp only [List.length_drop, List.length_cons] at hf ⊢
      omega

/-- The pieces of a string make the string. -/
theorem flatten_chunks {k : Nat} (hk : 0 < k) (bytes : Bytes) : (chunks k bytes).flatten = bytes :=
  flatten_chunks_go hk (Nat.le_refl _)

theorem length_of_mem_chunks_go {k fuel : Nat} {bytes : Bytes}
    (h : bytes.length % k = 0) {piece : Bytes} (hp : piece ∈ chunks.go k fuel bytes) :
    piece.length = k := by
  induction fuel generalizing bytes with
  | zero => simp [chunks.go] at hp
  | succ fuel ih =>
    cases bytes with
    | nil => simp [chunks.go] at hp
    | cons b bs =>
      have hle : k ≤ (b :: bs).length := Nat.le_of_dvd (by simp) (Nat.dvd_of_mod_eq_zero h)
      rw [chunks.go, List.mem_cons] at hp
      rcases hp with rfl | hp
      · rw [List.length_take, Nat.min_eq_left hle]
      · refine ih ?_ hp
        rw [List.length_drop, ← Nat.mod_eq_sub_mod hle, h]

/-- A string of whole pieces has no shorter piece. -/
theorem length_of_mem_chunks {k : Nat} {bytes : Bytes} (h : bytes.length % k = 0)
    {piece : Bytes} (hp : piece ∈ chunks k bytes) : piece.length = k :=
  length_of_mem_chunks_go h hp

end Bytes

end WebToken
