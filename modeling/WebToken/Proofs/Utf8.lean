import Mathlib
import WebToken.Bytes

/-!
# The UTF-8 form of characters

Printers write characters and readers take bytes. This file gives the bytes of a list of characters
a name, so that a text can be taken apart where a printer put it together.

* `Bytes.ofString_ofList` : the bytes of a text are those of its characters, one after the other;
* `Bytes.toString?_ofString` : a text is read back from its bytes;
* `Bytes.eq_or_le_of_mem_utf8EncodeChar` : a byte below 128 is a character of its own.
-/

namespace WebToken

namespace Bytes

/-- The UTF-8 form of characters, one after the other. -/
def utf8 (cs : List Char) : Bytes := cs.flatMap String.utf8EncodeChar

@[simp] theorem utf8_nil : utf8 [] = [] := rfl

@[simp] theorem utf8_append (cs ds : List Char) : utf8 (cs ++ ds) = utf8 cs ++ utf8 ds := by
  simp [utf8]

theorem utf8_cons (c : Char) (cs : List Char) :
    utf8 (c :: cs) = String.utf8EncodeChar c ++ utf8 cs := rfl

/-- The bytes of a text are those of its characters. -/
theorem ofString_ofList (cs : List Char) : ofString (String.ofList cs) = utf8 cs := by
  rw [ofString, String.toByteArray_ofList, List.utf8Encode, List.data_toByteArray]
  rfl

theorem ofString_eq_utf8 (s : String) : ofString s = utf8 s.toList := by
  rw [← ofString_ofList, String.ofList_toList]

/-- A text is read back from its bytes. -/
theorem toString?_ofString (s : String) : toString? (ofString s) = some s := by
  have hb : (⟨(ofString s).toArray⟩ : ByteArray) = s.toByteArray := by
    simp [ofString]
  rw [toString?, hb, String.fromUTF8?, dif_pos s.isValidUTF8]
  rfl

/-- A byte of a character is the character itself, or lies above all ASCII characters. -/
theorem eq_or_le_of_mem_utf8EncodeChar {c : Char} {b : UInt8}
    (h : b ∈ String.utf8EncodeChar c) : b.toNat = c.toNat ∨ 128 ≤ b.toNat := by
  have hc : c.val.toNat = c.toNat := rfl
  unfold String.utf8EncodeChar at h
  simp only [hc] at h
  split at h
  · next hle =>
    rw [List.mem_singleton] at h
    rw [h, UInt8.toNat_ofNat']
    omega
  · right
    split at h
    · simp only [List.mem_cons, List.not_mem_nil, or_false] at h
      rcases h with rfl | rfl <;> rw [UInt8.toNat_ofNat'] <;> omega
    · split at h
      · simp only [List.mem_cons, List.not_mem_nil, or_false] at h
        rcases h with rfl | rfl | rfl <;> rw [UInt8.toNat_ofNat'] <;> omega
      · simp only [List.mem_cons, List.not_mem_nil, or_false] at h
        rcases h with rfl | rfl | rfl | rfl <;> rw [UInt8.toNat_ofNat'] <;> omega

/-- An ASCII character is one byte. -/
theorem utf8EncodeChar_ascii {c : Char} (h : c.toNat < 128) :
    String.utf8EncodeChar c = [UInt8.ofNat c.toNat] := by
  have hc : c.val.toNat = c.toNat := rfl
  unfold String.utf8EncodeChar
  simp only [hc]
  rw [if_pos (by omega)]

theorem utf8_cons_ascii {c : Char} (cs : List Char) (h : c.toNat < 128) :
    utf8 (c :: cs) = UInt8.ofNat c.toNat :: utf8 cs := by
  rw [utf8_cons, utf8EncodeChar_ascii h, List.singleton_append]

end Bytes

end WebToken
