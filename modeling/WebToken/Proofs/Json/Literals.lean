import WebToken.Json.Literal
import WebToken.Json.Printer
import WebToken.Proofs.Utf8

/-!
# A printed string literal is read back

The printer writes a character as itself, as a short escape or as `\u` with four digits; the reader
cuts this into pieces and joins the pieces again. Each character is followed through both steps
(`read_escapedChar`), and a literal is its characters one after the other.

* `Literal.read_stringChars` : the literal of a text is read up to its closing quote, and spells
  the text.
-/

namespace WebToken

namespace Json

namespace Literal

/-! ## One step of the reader -/

/-- The literal with pieces put in front. -/
def prepend (ps : List Piece) (l : Literal) : Literal := { l with pieces := ps ++ l.pieces }

theorem prepend_append (ps qs : List Piece) (l : Literal) :
    prepend (ps ++ qs) l = prepend ps (prepend qs l) := by
  simp [prepend]

theorem read_quote (text : Bytes) : read (quote :: text) = (⟨[], .closed⟩, text) := by
  rw [read.eq_def]
  exact if_pos rfl

/-- A byte that is neither a quote nor a backslash nor a control character is a piece. -/
theorem read_plain {b : UInt8} (hq : b ≠ quote) (hs : b ≠ backslash) (hc : ¬ b < 0x20)
    (text : Bytes) : read (b :: text) = ((read text).1.prepend [.byte b], (read text).2) := by
  rw [read.eq_def]
  simp only [if_neg hq, if_neg hs, if_neg hc]
  rfl

/-- A short escape is the byte that it stands for. -/
theorem read_escape {e b : UInt8} (hu : e ≠ 0x75) (he : escaped? e = some b) (text : Bytes) :
    read (backslash :: e :: text) = ((read text).1.prepend [.byte b], (read text).2) := by
  rw [read.eq_def]
  simp only [if_neg (show backslash ≠ quote by decide), if_true]
  split
  · next h => cases h
  · next h => exact absurd (List.cons.inj h).1 hu
  · next h =>
    obtain ⟨rfl, rfl⟩ := List.cons.inj h
    simp only [if_neg hu, he]
    rfl

/-- Four digits after `\u` are a unit. -/
theorem read_unit {w x y z : UInt8} {u : Nat} (h : unit? w x y z = some u) (text : Bytes) :
    read (backslash :: 0x75 :: w :: x :: y :: z :: text) =
      ((read text).1.prepend [.unit u], (read text).2) := by
  rw [read.eq_def]
  simp only [if_neg (show backslash ≠ quote by decide), if_true, h]
  rfl

/-- Bytes above the ASCII characters and those that need no escape are read as they stand. -/
theorem read_plains {bs : Bytes}
    (h : ∀ b ∈ bs, b ≠ quote ∧ b ≠ backslash ∧ ¬ b < 0x20) (text : Bytes) :
    read (bs ++ text) = ((read text).1.prepend (bs.map .byte), (read text).2) := by
  induction bs with
  | nil => rfl
  | cons b bs ih =>
    obtain ⟨hq, hs, hc⟩ := h b (by simp)
    have hbs := ih fun c hc => h c (by simp [hc])
    rw [List.cons_append, read_plain hq hs hc, hbs]
    rfl

/-! ## What pieces spell -/

/-- Whether pieces spell bytes, whatever stands behind them. -/
def Spells (ps : List Piece) (bytes : Bytes) : Prop :=
  ∀ (ending : Ending) (rest : List Piece),
    bytesOf ending (ps ++ rest) = (bytesOf ending rest).map (bytes ++ ·)

theorem spells_nil : Spells [] [] := by
  intro ending rest
  cases h : bytesOf ending rest <;> simp [h, Except.map]

theorem Spells.append {ps qs : List Piece} {a b : Bytes} (hp : Spells ps a) (hq : Spells qs b) :
    Spells (ps ++ qs) (a ++ b) := by
  intro ending rest
  rw [List.append_assoc, hp ending (qs ++ rest), hq ending rest]
  cases bytesOf ending rest <;> simp [Except.map]

theorem spells_byte (b : UInt8) : Spells [.byte b] [b] := by
  intro ending rest
  rfl

theorem spells_bytes (bs : Bytes) : Spells (bs.map .byte) bs := by
  induction bs with
  | nil => exact spells_nil
  | cons b bs ih => exact (spells_byte b).append ih

/-- A unit that is no surrogate is a character. -/
theorem spells_unit {u : Nat} (hl : isLowSurrogate u = false) (hh : isHighSurrogate u = false) :
    Spells [.unit u] (String.utf8EncodeChar (Char.ofNat u)) := by
  intro ending rest
  rw [List.singleton_append, bytesOf.eq_def]
  simp only [hl, hh]
  rfl

/-! ## One character -/

/-- A character of which the printer writes a short escape. -/
theorem read_shortEscape {c : Char} {e : UInt8} (hc : c.toNat < 128)
    (hu : e ≠ 0x75) (he : escaped? e = some (UInt8.ofNat c.toNat)) (text : Bytes) :
    ∃ ps, read (backslash :: e :: text) = ((read text).1.prepend ps, (read text).2) ∧
      Spells ps (String.utf8EncodeChar c) := by
  refine ⟨[.byte (UInt8.ofNat c.toNat)], read_escape hu he text, ?_⟩
  rw [Bytes.utf8EncodeChar_ascii hc]
  exact spells_byte _

/-- The unit of a control character is read from its two digits. -/
theorem unit?_hexChar {n : Nat} (h : n < 0x20) :
    unit? 0x30 0x30 (UInt8.ofNat (hexChar (n / 16)).toNat) (UInt8.ofNat (hexChar n).toNat) =
      some n := by
  have table : ∀ n, n < 0x20 → unit? 0x30 0x30 (UInt8.ofNat (hexChar (n / 16)).toNat)
      (UInt8.ofNat (hexChar n).toNat) = some n := by decide
  exact table n h

/-- A digit in base sixteen is an ASCII character. -/
theorem toNat_hexChar_lt (n : Nat) : (hexChar n).toNat < 128 := by
  have table : ∀ d, d < 16 → (Nat.digitChar d).toNat < 128 := by decide
  exact table (n % 16) (Nat.mod_lt n (by decide))

/-- What the printer writes for a character is read as pieces that spell the character. -/
theorem read_escapedChar (c : Char) (text : Bytes) :
    ∃ ps, read (Bytes.utf8 (escapedChar c) ++ text) = ((read text).1.prepend ps, (read text).2) ∧
      Spells ps (String.utf8EncodeChar c) := by
  unfold escapedChar
  -- the seven short escapes, in the order in which the printer looks for them
  split
  · next h => subst h; exact read_shortEscape (e := quote) (by decide) (by decide) (by decide) text
  split
  · next h =>
    subst h; exact read_shortEscape (e := backslash) (by decide) (by decide) (by decide) text
  split
  · next h => exact read_shortEscape (e := 0x62) (by omega) (by decide) (by rw [h]; decide) text
  split
  · next h => exact read_shortEscape (e := 0x74) (by omega) (by decide) (by rw [h]; decide) text
  split
  · next h => exact read_shortEscape (e := 0x6E) (by omega) (by decide) (by rw [h]; decide) text
  split
  · next h => exact read_shortEscape (e := 0x66) (by omega) (by decide) (by rw [h]; decide) text
  split
  · next h => exact read_shortEscape (e := 0x72) (by omega) (by decide) (by rw [h]; decide) text
  split
  · next h =>
    -- any other control character is a unit of four digits, the first two of them zero
    refine ⟨[.unit c.toNat], ?_, ?_⟩
    · have hx := toNat_hexChar_lt (c.toNat / 16)
      have hy := toNat_hexChar_lt c.toNat
      have hbytes : Bytes.utf8 ['\\', 'u', '0', '0', hexChar (c.toNat / 16), hexChar c.toNat] =
          [backslash, 0x75, 0x30, 0x30, UInt8.ofNat (hexChar (c.toNat / 16)).toNat,
            UInt8.ofNat (hexChar c.toNat).toNat] := by
        rw [Bytes.utf8_cons_ascii _ (by decide), Bytes.utf8_cons_ascii _ (by decide),
          Bytes.utf8_cons_ascii _ (by decide), Bytes.utf8_cons_ascii _ (by decide),
          Bytes.utf8_cons_ascii _ hx, Bytes.utf8_cons_ascii _ hy]
        rfl
      rw [hbytes]
      exact read_unit (unit?_hexChar h) text
    · have hu := spells_unit (u := c.toNat) (by simp [isLowSurrogate]; omega)
        (by simp [isHighSurrogate]; omega)
      rwa [Char.ofNat_toNat] at hu
  · next hq hs _ _ _ _ _ hc =>
    refine ⟨(String.utf8EncodeChar c).map .byte, ?_, spells_bytes _⟩
    rw [Bytes.utf8_cons, Bytes.utf8_nil, List.append_nil]
    refine read_plains (fun b hb => ?_) text
    -- such a byte is the character itself, or lies above everything that needs an escape
    have hb := Bytes.eq_or_le_of_mem_utf8EncodeChar hb
    have hcq : c.toNat ≠ 0x22 := fun h => hq (Char.toNat_inj.1 h)
    have hcs : c.toNat ≠ 0x5C := fun h => hs (Char.toNat_inj.1 h)
    refine ⟨?_, ?_, ?_⟩
    · rintro rfl
      have : quote.toNat = 0x22 := rfl
      omega
    · rintro rfl
      have : backslash.toNat = 0x5C := rfl
      omega
    · rw [UInt8.lt_iff_toNat_lt]
      have : (0x20 : UInt8).toNat = 0x20 := rfl
      omega

/-! ## Whole literals -/

theorem read_flatMap_escapedChar (cs : List Char) (text : Bytes) :
    ∃ ps, read (Bytes.utf8 (cs.flatMap escapedChar) ++ text) =
      ((read text).1.prepend ps, (read text).2) ∧ Spells ps (Bytes.utf8 cs) := by
  induction cs with
  | nil => exact ⟨[], rfl, spells_nil⟩
  | cons c cs ih =>
    obtain ⟨qs, hread, hspell⟩ := ih
    obtain ⟨ps, hc, hp⟩ := read_escapedChar c (Bytes.utf8 (cs.flatMap escapedChar) ++ text)
    refine ⟨ps ++ qs, ?_, hp.append hspell⟩
    rw [List.flatMap_cons, Bytes.utf8_append, List.append_assoc, hc, hread, prepend_append]

/-- The bytes of a literal: its quotes are single bytes. -/
theorem utf8_stringChars (s : String) (rest : Bytes) :
    Bytes.utf8 (stringChars s) ++ rest =
      quote :: (Bytes.utf8 (s.toList.flatMap escapedChar) ++ quote :: rest) := by
  rw [stringChars, List.cons_append, Bytes.utf8_cons_ascii _ (by decide), Bytes.utf8_append,
    Bytes.utf8_cons_ascii _ (by decide), Bytes.utf8_nil, List.cons_append, List.append_assoc]
  rfl

/-- A literal whose pieces spell the bytes of a text spells the text. -/
theorem text_eq_ok {l : Literal} {s : String}
    (h : bytesOf l.ending l.pieces = .ok (Bytes.ofString s)) : l.text = .ok s := by
  unfold text
  rw [h]
  simp only [bind, Except.bind, Bytes.toString?_ofString]

/-- A printed literal is read up to its closing quote, and spells its text. -/
theorem read_stringChars (s : String) (rest : Bytes) :
    ∃ l : Literal, read (Bytes.utf8 (s.toList.flatMap escapedChar) ++ quote :: rest) = (l, rest) ∧
      l.isClosed = true ∧ l.text = .ok s := by
  obtain ⟨ps, hread, hspell⟩ := read_flatMap_escapedChar s.toList (quote :: rest)
  rw [read_quote] at hread
  refine ⟨_, hread, rfl, text_eq_ok ?_⟩
  show bytesOf .closed (ps ++ []) = .ok (Bytes.ofString s)
  rw [hspell .closed [], Bytes.ofString_eq_utf8]
  exact congrArg _ (List.append_nil _)

end Literal

end Json

end WebToken
