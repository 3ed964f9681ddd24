import WebToken.Proofs.ContentCipher
import WebToken.Proofs.Except
import WebToken.Proofs.Numbers

/-!
# The string under the keyed hash

Where blocks are chained, the keyed hash covers the data, the vector and the ciphertext, one right
behind the other, and last the number of bits of the data, which tells where they end. That number
takes eight bytes, so it is kept modulo `2 ^ 64`: data of fewer than `2 ^ 61` bytes have a number of
their own, and longer ones share theirs.

* `ContentEncryption.authenticated_eq_iff` : when two such strings are equal, for parts of whatever
  lengths;
* `ContentEncryption.authenticated_unambiguous` : short data, their vector and their ciphertext are
  told from the string;
* `ContentEncryption.exists_authenticated_eq` : a ciphertext of `2 ^ 61` bytes can be told apart in
  another way;
* `ContentEncryption.eq_or_tagsCollide_of_decrypt` : what opens with one tag is one ciphertext, unless
  the tag belongs to two strings.
-/

namespace WebToken

namespace ContentEncryption

open Crypto

variable {aad iv ciphertext aad' iv' ciphertext' : Bytes}

/-! ## The length behind the parts -/

/-- The number of bits is kept in eight bytes, so lengths are told apart modulo `2 ^ 61`. -/
theorem bitLength_eq_iff {m n : Nat} :
    Bytes.ofNat 8 (8 * m) = Bytes.ofNat 8 (8 * n) ↔ m ≡ n [MOD 2 ^ 61] := by
  rw [Bytes.ofNat_eq_iff, show 256 ^ 8 = 8 * 2 ^ 61 by norm_num]
  exact Nat.ModEq.mul_left_cancel_iff' (by decide)

/-- The string tells its parts joined together, and the length of the data modulo `2 ^ 61`, and
nothing else. -/
theorem authenticated_eq_iff :
    authenticated aad iv ciphertext = authenticated aad' iv' ciphertext' ↔
      aad ++ iv ++ ciphertext = aad' ++ iv' ++ ciphertext' ∧
        aad.length ≡ aad'.length [MOD 2 ^ 61] := by
  rw [authenticated, authenticated, ← bitLength_eq_iff]
  constructor
  · intro h
    exact List.append_inj' h (by rw [Bytes.length_ofNat, Bytes.length_ofNat])
  · rintro ⟨hjoined, hlength⟩
    rw [hjoined, hlength]

/-! ## Taking the string apart -/

/-- Joined parts are cut where the first two of them end. -/
theorem parts_eq_of_joined (hjoined : aad ++ iv ++ ciphertext = aad' ++ iv' ++ ciphertext')
    (haad : aad.length = aad'.length) (hiv : iv.length = iv'.length) :
    aad = aad' ∧ iv = iv' ∧ ciphertext = ciphertext' := by
  have hfront : (aad ++ iv).length = (aad' ++ iv').length := by
    rw [List.length_append, List.length_append, haad, hiv]
  obtain ⟨hfront, hciphertext⟩ := List.append_inj hjoined hfront
  obtain ⟨haad, hiv⟩ := List.append_inj hfront haad
  exact ⟨haad, hiv, hciphertext⟩

/-- The string under the keyed hash is unambiguous: with vectors of 16 bytes and data shorter than
`2 ^ 61` bytes, two of them are equal only if they are made of the same data, the same vector and the
same ciphertext. No byte can be moved from one part to another. -/
theorem authenticated_unambiguous (hiv : iv.length = 16) (hiv' : iv'.length = 16)
    (haad : aad.length < 2 ^ 61) (haad' : aad'.length < 2 ^ 61) :
    authenticated aad iv ciphertext = authenticated aad' iv' ciphertext' ↔
      aad = aad' ∧ iv = iv' ∧ ciphertext = ciphertext' := by
  constructor
  · intro h
    obtain ⟨hjoined, hmod⟩ := authenticated_eq_iff.1 h
    have hlength : aad.length = aad'.length := hmod.eq_of_lt_of_lt haad haad'
    exact parts_eq_of_joined hjoined hlength (hiv.trans hiv'.symm)
  · rintro ⟨rfl, rfl, rfl⟩
    rfl

/-- A zero byte behind the vector is not one in front of it, although the parts joined together are
the same. -/
theorem authenticated_unambiguous_movedByte :
    (List.replicate 16 0 : Bytes).length = 16 ∧
    ([] : Bytes).length < 2 ^ 61 ∧ ([0] : Bytes).length < 2 ^ 61 ∧
    ([] ++ List.replicate 16 0 ++ [0] : Bytes) = [0] ++ List.replicate 16 0 ++ [] ∧
    authenticated [] (List.replicate 16 0) [0] ≠ authenticated [0] (List.replicate 16 0) [] := by
  refine ⟨rfl, by decide, by decide, by decide, fun h => ?_⟩
  obtain ⟨haad, -⟩ := (authenticated_unambiguous rfl rfl (by decide) (by decide)).1 h
  exact List.cons_ne_nil _ _ haad.symm

/-- The bound on the data is sharp: if `2 ^ 61` bytes or more are in the ciphertext, the same string
comes from data that are longer by as many bytes. -/
theorem exists_authenticated_eq (hiv : iv.length = 16) (hlong : 2 ^ 61 ≤ ciphertext.length) :
    ∃ aad' iv' ciphertext', aad'.length = aad.length + 2 ^ 61 ∧ iv'.length = 16 ∧
      authenticated aad' iv' ciphertext' = authenticated aad iv ciphertext := by
  set joined := aad ++ iv ++ ciphertext with hjoined
  have hlength : joined.length = aad.length + 16 + ciphertext.length := by
    rw [hjoined, List.length_append, List.length_append, hiv]
  set n := aad.length + 2 ^ 61 with hn
  have hdata : (joined.take n).length = n := by
    rw [List.length_take, hlength]
    omega
  refine ⟨joined.take n, (joined.drop n).take 16, (joined.drop n).drop 16, hdata, ?_, ?_⟩
  · rw [List.length_take, List.length_drop, hlength]
    omega
  · refine authenticated_eq_iff.2 ⟨?_, ?_⟩
    · rw [List.append_assoc, List.take_append_drop, List.take_append_drop]
    · rw [hdata, hn]
      exact Nat.add_modEq_right

/-! ## What a tag belongs to -/

/-- Whether a tag belongs to two different strings under a content key. -/
def TagsCollide (enc : ContentEncryption) (hash : Hash) (key message message' : Bytes) : Prop :=
  message ≠ message' ∧
    (hash.hmac (macKey key) message).take enc.tagBytes =
      (hash.hmac (macKey key) message').take enc.tagBytes

/-- Two ciphertexts that are opened under one content key with one tag are the same, with the same
data and the same vector, unless the tag belongs to the two strings that are hashed for them. -/
theorem eq_or_tagsCollide_of_decrypt {enc : ContentEncryption} {hash : Hash}
    {key tag text text' : Bytes} (hhash : enc.tagHash? = some hash)
    (haad : aad.length < 2 ^ 61) (haad' : aad'.length < 2 ^ 61)
    (h : enc.decrypt key iv aad ciphertext tag = .ok text)
    (h' : enc.decrypt key iv' aad' ciphertext' tag = .ok text') :
    (aad = aad' ∧ iv = iv' ∧ ciphertext = ciphertext' ∧ text = text') ∨
      enc.TagsCollide hash key (authenticated aad iv ciphertext)
        (authenticated aad' iv' ciphertext') := by
  have htag := tag_eq_tagOf (decrypt_eq_ok_iff.1 h)
  have htag' := tag_eq_tagOf (decrypt_eq_ok_iff.1 h')
  rw [tagOf, hhash] at htag htag'
  by_cases hsame : authenticated aad iv ciphertext = authenticated aad' iv' ciphertext'
  · -- both vectors have the length of the algorithm, since otherwise nothing is opened
    obtain ⟨_, hlengths, -⟩ := bind_eq_ok_iff.1 h
    obtain ⟨_, hlengths', -⟩ := bind_eq_ok_iff.1 h'
    have hiv := (checkLengths_eq_ok_iff.1 hlengths).2
    have hiv' := (checkLengths_eq_ok_iff.1 hlengths').2
    obtain ⟨hjoined, hmod⟩ := authenticated_eq_iff.1 hsame
    obtain ⟨rfl, rfl, rfl⟩ := parts_eq_of_joined hjoined (hmod.eq_of_lt_of_lt haad haad')
      (hiv.trans hiv'.symm)
    exact .inl ⟨rfl, rfl, rfl, Except.ok.inj (h.symm.trans h')⟩
  · exact .inr ⟨hsame, htag.symm.trans htag'⟩

end ContentEncryption

end WebToken
