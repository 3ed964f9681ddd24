import WebToken.Json.Numeral
import WebToken.Json.Printer
import WebToken.Proofs.Utf8

/-!
# A printed whole number is read back

A whole number is printed as its decimal digits behind a sign, the first digit zero only for zero
itself. A numeral ends where the text cannot continue it (`Numeral.Ends`), and this is so at every
place where the printer puts something behind a number.

* `Numeral.read_integerChars` : a printed whole number is read as the numeral `Numeral.ofInt`;
* `Numeral.value_ofInt` : that numeral denotes the number, if it has 64 bits.
-/

namespace WebToken

namespace Json

namespace Numeral

/-! ## Where a numeral ends -/

/-- Whether a text cannot continue a numeral. -/
def Ends (text : Bytes) : Prop :=
  ∀ b ∈ text.head?, digit? b = none ∧ b ≠ 0x2E ∧ b ≠ 0x65 ∧ b ≠ 0x45

theorem ends_nil : Ends [] := by
  intro b hb
  cases hb

theorem ends_cons {b : UInt8} (rest : Bytes)
    (h : digit? b = none ∧ b ≠ 0x2E ∧ b ≠ 0x65 ∧ b ≠ 0x45) : Ends (b :: rest) := by
  intro c hc
  cases hc
  exact h

/-! ## Digits -/

/-- The number that a digit character stands for. -/
def ofChar (c : Char) : Nat := c.toNat - 48

theorem toNat_of_isDigit {c : Char} (h : c.isDigit = true) : 48 ≤ c.toNat ∧ c.toNat ≤ 57 := by
  simp only [Char.isDigit, Bool.and_eq_true, decide_eq_true_eq, ge_iff_le,
    UInt32.le_iff_toNat_le] at h
  exact h

theorem digit?_of_isDigit {c : Char} (h : c.isDigit = true) :
    digit? (UInt8.ofNat c.toNat) = some (ofChar c) := by
  obtain ⟨hl, hu⟩ := toNat_of_isDigit h
  have hb : (UInt8.ofNat c.toNat).toNat = c.toNat := by
    rw [UInt8.toNat_ofNat']
    omega
  rw [digit?, if_pos ?_, hb, ofChar]
  rw [UInt8.le_iff_toNat_le, UInt8.le_iff_toNat_le, hb]
  exact ⟨hl, hu⟩

/-- Digits are read as far as they go. -/
theorem digits_utf8 {cs : List Char} (hcs : ∀ c ∈ cs, c.isDigit = true) {rest : Bytes}
    (hr : ∀ b ∈ rest.head?, digit? b = none) :
    digits (Bytes.utf8 cs ++ rest) = (cs.map ofChar, rest) := by
  induction cs with
  | nil =>
    cases rest with
    | nil => rfl
    | cons b rest =>
      have hb := hr b rfl
      show digits (b :: rest) = ([], b :: rest)
      rw [digits, hb]
  | cons c cs ih =>
    have hc := hcs c (by simp)
    have hlt : c.toNat < 128 := by
      have := toNat_of_isDigit hc
      omega
    rw [Bytes.utf8_cons_ascii _ hlt, List.cons_append, digits, digit?_of_isDigit hc,
      ih fun d hd => hcs d (by simp [hd])]
    rfl

theorem isDigit_of_mem_toDigits {n : Nat} {c : Char} (h : c ∈ Nat.toDigits 10 n) :
    c.isDigit = true :=
  Nat.isDigit_of_mem_toDigits (by decide) (by decide) h

/-- The digits of a number spell it. -/
theorem ofDigits_toDigits (n : Nat) : ofDigits ((Nat.toDigits 10 n).map ofChar) = n := by
  rw [ofDigits, List.foldl_map]
  exact Nat.ofDigitChars_ten_toDigits

/-- The first digit of a number that is not zero is not zero. -/
theorem head_toDigits {n : Nat} (hn : 0 < n) :
    ∃ c cs, Nat.toDigits 10 n = c :: cs ∧ ofChar c ≠ 0 := by
  induction n using Nat.strongRecOn with
  | ind n ih =>
    by_cases h : n < 10
    · refine ⟨Nat.digitChar n, [], Nat.toDigits_of_lt_base h, ?_⟩
      have table : ∀ d, d < 10 → 0 < d → ofChar (Nat.digitChar d) ≠ 0 := by decide
      exact table n h hn
    · obtain ⟨c, cs, hc, h0⟩ := ih (n / 10) (by omega) (by omega)
      refine ⟨c, cs ++ [Nat.digitChar (n % 10)], ?_, h0⟩
      rw [Nat.toDigits_of_base_le (by decide) (by omega), hc, List.cons_append]

/-- Digits that do not begin with zero are read as the digits before the point. -/
theorem readWhole_utf8 {c : Char} {cs : List Char} (hcs : ∀ d ∈ c :: cs, d.isDigit = true)
    (h0 : ofChar c ≠ 0 ∨ cs = []) {rest : Bytes} (hr : ∀ b ∈ rest.head?, digit? b = none) :
    readWhole (Bytes.utf8 (c :: cs) ++ rest) = .ok ((c :: cs).map ofChar, rest) := by
  unfold readWhole
  rw [digits_utf8 hcs hr, List.map_cons]
  split
  · next h => cases h
  · next h =>
    obtain ⟨hc, hcs⟩ := List.cons.inj (Prod.mk.inj h).1
    rcases h0 with h0 | rfl
    · exact absurd hc h0
    · cases hcs
  · next h => rw [← h]

/-- The digits of a number are read as the digits before the point. -/
theorem readWhole_toDigits (n : Nat) {rest : Bytes} (hr : ∀ b ∈ rest.head?, digit? b = none) :
    readWhole (Bytes.utf8 (Nat.toDigits 10 n) ++ rest) =
      .ok ((Nat.toDigits 10 n).map ofChar, rest) := by
  by_cases hn : n = 0
  · subst hn
    have hzero : ∀ d ∈ ['0'], d.isDigit = true := by
      intro d hd
      rw [List.mem_singleton.1 hd]
      rfl
    exact readWhole_utf8 hzero (.inr rfl) hr
  · obtain ⟨c, cs, hc, h0⟩ := head_toDigits (Nat.pos_of_ne_zero hn)
    rw [hc]
    refine readWhole_utf8 (fun d hd => isDigit_of_mem_toDigits (n := n) ?_) (.inl h0) hr
    rw [hc]
    exact hd

/-! ## Behind the digits -/

theorem readFraction_of_ends {rest : Bytes} (hr : Ends rest) :
    readFraction rest = .ok (none, rest) := by
  unfold readFraction
  split
  · next text => exact absurd rfl (hr 0x2E rfl).2.1
  · rfl

theorem readPower_of_ends {rest : Bytes} (hr : Ends rest) :
    readPower rest = .ok (none, rest) := by
  cases rest with
  | nil => rfl
  | cons b rest =>
    obtain ⟨-, -, he, hE⟩ := hr b rfl
    rw [readPower, if_neg (by simp [he, hE])]

/-! ## Where a numeral begins -/

/-- Whether a numeral can begin with a byte: a minus sign or a digit. -/
def Begins (b : UInt8) : Prop := b = 0x2D ∨ (48 ≤ b.toNat ∧ b.toNat ≤ 57)

theorem Begins.ne {b k : UInt8} (h : Begins b) (hs : k.toNat ≠ 0x2D)
    (hd : k.toNat < 48 ∨ 57 < k.toNat) : b ≠ k := by
  rintro rfl
  rcases h with rfl | h
  · exact hs rfl
  · omega

/-- Whatever is read as a numeral begins like one. -/
theorem begins_of_read {text : Bytes} {r : Numeral × Bytes} (h : read text = .ok r) :
    ∃ b left, text = b :: left ∧ Begins b := by
  cases text with
  | nil => cases h
  | cons b left =>
    refine ⟨b, left, rfl, ?_⟩
    by_cases hminus : b = 0x2D
    · exact .inl hminus
    · by_cases hdigit : 48 ≤ b ∧ b ≤ 57
      · rw [UInt8.le_iff_toNat_le, UInt8.le_iff_toNat_le] at hdigit
        exact .inr hdigit
      · -- neither a sign nor a digit: there are no digits before the point
        have hnone : digits (b :: left) = ([], b :: left) := by
          rw [digits, digit?, if_neg hdigit]
        unfold read at h
        split at h
        next negative text heq =>
        split at heq
        · next hcons => exact absurd (List.cons.inj hcons).1 hminus
        · cases heq
          rw [readWhole, hnone] at h
          cases h

/-! ## Whole numbers -/

/-- The numeral of a whole number. -/
def ofInt (n : Int) : Numeral :=
  ⟨decide (n < 0), (Nat.toDigits 10 n.natAbs).map ofChar, none, none⟩

/-- The parts of a numeral, read one after the other, make the numeral. -/
theorem read_of_parts (negative : Bool) {text text' text'' rest : Bytes} {whole : List Nat}
    {fraction : Option (List Nat)} {power : Option Int} (hw : readWhole text = .ok (whole, text'))
    (hf : readFraction text' = .ok (fraction, text''))
    (hp : readPower text'' = .ok (power, rest)) :
    read ((if negative then [0x2D] else []) ++ text) =
      .ok (⟨negative, whole, fraction, power⟩, rest) := by
  cases negative with
  | true =>
    unfold read
    simp only [if_true, List.cons_append, List.nil_append, hw, hf, hp, bind, Except.bind, pure,
      Except.pure]
  | false =>
    unfold read
    split
    next negative digits heq =>
    simp only [Bool.false_eq_true, if_false, List.nil_append] at heq
    split at heq
    · -- no digits begin with a minus sign
      cases hw
    · cases heq
      simp only [hw, hf, hp, bind, Except.bind, pure, Except.pure]

/-- A printed whole number is read as its numeral. -/
theorem read_integerChars (n : Int) {rest : Bytes} (hr : Ends rest) :
    read (Bytes.utf8 (integerChars n) ++ rest) = .ok (ofInt n, rest) := by
  have hread := read_of_parts (decide (n < 0))
    (readWhole_toDigits n.natAbs fun b hb => (hr b hb).1) (readFraction_of_ends hr)
    (readPower_of_ends hr)
  unfold integerChars
  by_cases hn : n < 0
  · rw [if_pos hn, Bytes.utf8_cons_ascii _ (by decide)]
    simpa [ofInt, hn] using hread
  · rw [if_neg hn]
    simpa [ofInt, hn] using hread

/-- The numeral of a whole number of 64 bits denotes it. -/
theorem value_ofInt {n : Int} (hl : -2 ^ 63 ≤ n) (hu : n < 2 ^ 64) :
    (ofInt n).value = .ok (.integer n) := by
  have hi : (ofInt n).toInteger? = some n := by
    simp only [toInteger?, ofInt, ofDigits_toDigits, Option.isSome_none, Bool.false_eq_true,
      or_self, if_false, decide_eq_true_eq]
    by_cases hn : n < 0
    · rw [if_pos hn, if_pos (by omega)]
      congr 1
      omega
    · rw [if_neg hn, if_pos (by omega)]
      congr 1
      omega
  rw [value, hi]

end Numeral

end Json

end WebToken
