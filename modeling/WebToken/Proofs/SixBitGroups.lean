import WebToken.Base64Url
import WebToken.Proofs.Numbers

/-!
# The number that a text spells

Bytes are the digits of a number in base 256. The symbols of their encoding are the digits in base 64
of the same number, with as few zero bits behind it as fill up the last symbol. Digits of one number
in one length are equal, so this says which text is the encoding, without the encoder.

* `Base64Url.Regroups.unique` : bytes are regrouped in one way only;
* `Base64Url.isEncodingOf_iff` : a text is the encoding of bytes exactly if it spells their number.
-/

namespace WebToken

namespace Base64Url

/-! ## The alphabet -/

/-- The symbols of the URL alphabet, in the order of the numbers that they stand for. -/
def alphabet : List Char :=
  ['A', 'B', 'C', 'D', 'E', 'F', 'G', 'H', 'I', 'J', 'K', 'L', 'M',
    'N', 'O', 'P', 'Q', 'R', 'S', 'T', 'U', 'V', 'W', 'X', 'Y', 'Z',
    'a', 'b', 'c', 'd', 'e', 'f', 'g', 'h', 'i', 'j', 'k', 'l', 'm',
    'n', 'o', 'p', 'q', 'r', 's', 't', 'u', 'v', 'w', 'x', 'y', 'z',
    '0', '1', '2', '3', '4', '5', '6', '7', '8', '9', '-', '_']

/-- The character of a number. -/
def symbolChar (n : Nat) : Char := Char.ofNat (symbol n).toNat

/-- The alphabet is that of the encoder. -/
theorem alphabet_eq : alphabet = (List.range 64).map symbolChar := by decide +kernel

theorem nodup_alphabet : alphabet.Nodup := by decide +kernel

theorem exists_symbolChar {c : Char} (h : c ∈ alphabet) : ∃ n < 64, c = symbolChar n := by
  rw [alphabet_eq] at h
  obtain ⟨n, hn, rfl⟩ := List.mem_map.1 h
  exact ⟨n, List.mem_range.1 hn, rfl⟩

/-- The number of a symbol is its place in the alphabet. -/
theorem idxOf_symbolChar {n : Nat} (h : n < 64) :
    symbolChar n ∈ alphabet ∧ alphabet.idxOf (symbolChar n) = n := by
  have hlt : n < alphabet.length := h
  have hplace : alphabet[n] = symbolChar n := by
    simp only [alphabet_eq, List.getElem_map, List.getElem_range]
  rw [← hplace]
  exact ⟨List.getElem_mem hlt, nodup_alphabet.idxOf_getElem n hlt⟩

/-- Symbols are written back from their numbers. -/
theorem map_symbolChar_idxOf {cs : List Char} (h : ∀ c ∈ cs, c ∈ alphabet) :
    (cs.map alphabet.idxOf).map symbolChar = cs := by
  rw [List.map_map]
  refine (List.map_congr_left fun c hc => ?_).trans (List.map_id _)
  obtain ⟨n, hn, rfl⟩ := exists_symbolChar (h c hc)
  exact congrArg symbolChar (idxOf_symbolChar hn).2

/-- Numbers are read back from their symbols. -/
theorem map_idxOf_symbolChar {ns : List Nat} (h : ∀ n ∈ ns, n < 64) :
    (ns.map symbolChar).map alphabet.idxOf = ns := by
  rw [List.map_map]
  exact (List.map_congr_left fun n hn => (idxOf_symbolChar (h n hn)).2).trans (List.map_id _)

/-- The number of a symbol is a group of six bits. -/
theorem idxOf_lt {c : Char} (h : c ∈ alphabet) : alphabet.idxOf c < 64 := by
  obtain ⟨n, hn, rfl⟩ := exists_symbolChar h
  rw [(idxOf_symbolChar hn).2]
  exact hn

/-! ## Groups of six bits -/

/-- Whether numbers are the groups of six bits into which bytes are cut: as few as hold the bits, and
the bits that are left over are zero. -/
structure Regroups (ns : List Nat) (bytes : Bytes) : Prop where
  lt : ∀ n ∈ ns, n < 64
  enough : 8 * bytes.length ≤ 6 * ns.length
  few : 6 * ns.length < 8 * bytes.length + 6
  value : Nat.ofDigits 64 ns.reverse =
    Bytes.toNat bytes * 2 ^ (6 * ns.length - 8 * bytes.length)

/-- Bytes are regrouped in one way only. -/
theorem Regroups.unique {ns ns' : List Nat} {bytes : Bytes} (h : Regroups ns bytes)
    (h' : Regroups ns' bytes) : ns = ns' := by
  have hlength : ns.length = ns'.length := by
    have henough := h.enough
    have hfew := h.few
    have henough' := h'.enough
    have hfew' := h'.few
    omega
  have hvalue : Nat.ofDigits 64 ns.reverse = Nat.ofDigits 64 ns'.reverse := by
    rw [h.value, h'.value, hlength]
  apply List.reverse_injective
  apply Nat.ofDigits_inj_of_len_eq (by decide : 1 < 64) _ _ _ hvalue
  · rw [List.length_reverse, List.length_reverse, hlength]
  · exact fun n hn => h.lt n (List.mem_reverse.1 hn)
  · exact fun n hn => h'.lt n (List.mem_reverse.1 hn)

/-- Three bytes in front are four groups in front, of the same bits. -/
theorem Regroups.cons {ns : List Nat} {bytes : Bytes} (h : Regroups ns bytes) {w x y z : Nat}
    {a b c : UInt8} (hw : w < 64) (hx : x < 64) (hy : y < 64) (hz : z < 64)
    (hbits : w * 262144 + x * 4096 + y * 64 + z = a.toNat * 65536 + b.toNat * 256 + c.toNat) :
    Regroups (w :: x :: y :: z :: ns) (a :: b :: c :: bytes) := by
  have henough := h.enough
  have hfew := h.few
  refine ⟨?_, ?_, ?_, ?_⟩
  · simp only [List.forall_mem_cons]
    exact ⟨hw, hx, hy, hz, h.lt⟩
  · simp only [List.length_cons]
    omega
  · simp only [List.length_cons]
    omega
  · have hshift : 6 * (w :: x :: y :: z :: ns).length - 8 * (a :: b :: c :: bytes).length =
        6 * ns.length - 8 * bytes.length := by
      simp only [List.length_cons]
      omega
    -- the groups behind take as many bits as the bytes behind and the bits that are left over
    have hpow : 64 ^ ns.length = 256 ^ bytes.length * 2 ^ (6 * ns.length - 8 * bytes.length) := by
      rw [show 64 = 2 ^ 6 by norm_num, show 256 = 2 ^ 8 by norm_num, ← pow_mul, ← pow_mul, ← pow_add]
      congr 1
      omega
    rw [hshift]
    simp only [Nat.ofDigits_reverse_cons, List.length_cons, Bytes.toNat_cons, h.value]
    calc Bytes.toNat bytes * 2 ^ (6 * ns.length - 8 * bytes.length) + 64 ^ ns.length * z +
          64 ^ (ns.length + 1) * y + 64 ^ (ns.length + 1 + 1) * x + 64 ^ (ns.length + 1 + 1 + 1) * w
        = Bytes.toNat bytes * 2 ^ (6 * ns.length - 8 * bytes.length) +
          64 ^ ns.length * (w * 262144 + x * 4096 + y * 64 + z) := by ring
      _ = (a.toNat * 256 ^ (bytes.length + 1 + 1) + (b.toNat * 256 ^ (bytes.length + 1) +
          (c.toNat * 256 ^ bytes.length + Bytes.toNat bytes))) *
          2 ^ (6 * ns.length - 8 * bytes.length) := by
        rw [hbits, hpow]
        ring

/-- The symbols of bytes are the groups into which they are cut. -/
theorem exists_regroups_symbols (bytes : Bytes) :
    ∃ ns, Regroups ns bytes ∧ symbols bytes = ns.map symbol := by
  fun_induction symbols bytes with
  | case1 a b c rest n ih =>
    obtain ⟨ns, hns, hsymbols⟩ := ih
    have ha := a.toNat_lt
    have hb := b.toNat_lt
    have hc := c.toNat_lt
    refine ⟨n / 262144 :: n / 4096 % 64 :: n / 64 % 64 :: n % 64 :: ns,
      hns.cons (by omega) (by omega) (by omega) (by omega) (by omega), ?_⟩
    rw [hsymbols]
    rfl
  | case2 a b n =>
    have ha := a.toNat_lt
    have hb := b.toNat_lt
    refine ⟨[n / 4096, n / 64 % 64, n % 64],
      ⟨?_, (by decide : 8 * 2 ≤ 6 * 3), (by decide : 6 * 3 < 8 * 2 + 6), ?_⟩, rfl⟩
    · simp only [List.forall_mem_cons]
      exact ⟨by omega, by omega, by omega, List.forall_mem_nil _⟩
    · have hvalue : n % 64 + 64 * (n / 64 % 64 + 64 * (n / 4096)) =
          (a.toNat * 256 + b.toNat) * 4 := by omega
      simpa [Nat.ofDigits_cons, Bytes.toNat_cons] using hvalue
  | case3 a n =>
    have ha := a.toNat_lt
    refine ⟨[n / 64, n % 64],
      ⟨?_, (by decide : 8 * 1 ≤ 6 * 2), (by decide : 6 * 2 < 8 * 1 + 6), ?_⟩, rfl⟩
    · simp only [List.forall_mem_cons]
      exact ⟨by omega, by omega, List.forall_mem_nil _⟩
    · have hvalue : n % 64 + 64 * (n / 64) = a.toNat * 16 := by omega
      simpa [Nat.ofDigits_cons] using hvalue
  | case4 => exact ⟨[], ⟨List.forall_mem_nil _, by decide, by decide, rfl⟩, rfl⟩

/-! ## Encodings -/

/-- Whether a text is the base64url form of bytes: it is made of symbols, of as few as hold the bits
of the bytes, and their numbers spell the number of the bytes with zero bits behind it. -/
structure IsEncodingOf (bytes : Bytes) (text : String) : Prop where
  symbols : ∀ c ∈ text.toList, c ∈ alphabet
  enough : 8 * bytes.length ≤ 6 * text.toList.length
  few : 6 * text.toList.length < 8 * bytes.length + 6
  number : Nat.ofDigits 64 (text.toList.map alphabet.idxOf).reverse =
    Bytes.toNat bytes * 2 ^ (6 * text.toList.length - 8 * bytes.length)

/-- Encodings are told by the numbers of their symbols. -/
theorem isEncodingOf_iff_regroups {bytes : Bytes} {text : String} :
    IsEncodingOf bytes text ↔ ∃ ns, Regroups ns bytes ∧ text.toList = ns.map symbolChar := by
  constructor
  · rintro ⟨hsymbols, henough, hfew, hnumber⟩
    refine ⟨text.toList.map alphabet.idxOf, ⟨?_, ?_, ?_, ?_⟩, (map_symbolChar_idxOf hsymbols).symm⟩
    · intro n hn
      obtain ⟨c, hc, rfl⟩ := List.mem_map.1 hn
      exact idxOf_lt (hsymbols c hc)
    · rwa [List.length_map]
    · rwa [List.length_map]
    · rwa [List.length_map]
  · rintro ⟨ns, ⟨hlt, henough, hfew, hvalue⟩, htext⟩
    refine ⟨?_, ?_, ?_, ?_⟩
    · intro c hc
      rw [htext] at hc
      obtain ⟨n, hn, rfl⟩ := List.mem_map.1 hc
      exact (idxOf_symbolChar (hlt n hn)).1
    · rwa [htext, List.length_map]
    · rwa [htext, List.length_map]
    · rwa [htext, map_idxOf_symbolChar hlt, List.length_map]

/-- A text is the encoding of bytes exactly if it spells their number. -/
theorem isEncodingOf_iff {bytes : Bytes} {text : String} :
    IsEncodingOf bytes text ↔ text = encode bytes := by
  obtain ⟨ns, hns, hsymbols⟩ := exists_regroups_symbols bytes
  have hencode : (encode bytes).toList = ns.map symbolChar := by
    rw [encode, String.toList_ofList, hsymbols, List.map_map]
    rfl
  rw [isEncodingOf_iff_regroups, ← String.toList_inj, hencode]
  constructor
  · rintro ⟨ns', hns', htext⟩
    rw [htext, hns'.unique hns]
  · intro htext
    exact ⟨ns, hns, htext⟩

end Base64Url

end WebToken
