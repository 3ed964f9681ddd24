import Mathlib
import WebToken.ContentCipher

/-!
# Decrypted contents

Under a content key and a vector of the right lengths every text has one encrypted form, which is
the only one that opens to it. What does not carry the tag of its own ciphertext is not opened.

* `ContentEncryption.opens_exactly_encrypted` : what decryption accepts, and what it refuses.
-/

namespace WebToken

namespace ContentEncryption

open Crypto

/-- The tag that belongs to a ciphertext. -/
def tagOf (enc : ContentEncryption) (key iv aad ciphertext : Bytes) : Bytes :=
  match enc.tagHash? with
  | some hash => enc.hashTag hash key aad iv ciphertext
  | none => Gcm.tag (.ofKey key) iv aad ciphertext

theorem checkLengths_eq_ok {enc : ContentEncryption} {key iv : Bytes}
    (hkey : key.length = enc.keyBytes) (hiv : iv.length = enc.ivBytes) :
    enc.checkLengths key iv = .ok () := by
  unfold checkLengths
  rw [if_neg (fun h => h hkey), if_neg (fun h => h hiv)]

theorem checkLengths_eq_ok_iff {enc : ContentEncryption} {key iv : Bytes} :
    enc.checkLengths key iv = .ok () ↔ key.length = enc.keyBytes ∧ iv.length = enc.ivBytes := by
  constructor
  · intro h
    unfold checkLengths at h
    split at h
    · cases h
    · next hkey =>
      split at h
      · cases h
      · next hiv => exact ⟨Decidable.not_not.1 hkey, Decidable.not_not.1 hiv⟩
  · intro h
    rcases h with ⟨hkey, hiv⟩
    exact checkLengths_eq_ok hkey hiv

/-- Lengths that are right let every text be encrypted. -/
theorem exists_encrypt_eq_ok {enc : ContentEncryption} {key iv : Bytes}
    (hkey : key.length = enc.keyBytes) (hiv : iv.length = enc.ivBytes) (aad text : Bytes) :
    ∃ ciphertext tag, enc.encrypt key iv aad text = .ok (ciphertext, tag) := by
  unfold encrypt
  rw [checkLengths_eq_ok hkey hiv]
  cases enc.tagHash? with
  | some hash => exact ⟨_, _, rfl⟩
  | none => exact ⟨_, _, rfl⟩

/-! ## The tag -/

/-- A hash is at least as long as the tag that is cut from it. -/
theorem tagBytes_le_size {enc : ContentEncryption} {hash : Hash} (h : enc.tagHash? = some hash) :
    enc.tagBytes ≤ hash.size := by
  cases enc <;> cases h <;> decide

/-- A tag has the length that its algorithm gives it. -/
theorem length_tagOf (enc : ContentEncryption) (key iv aad ciphertext : Bytes) :
    (enc.tagOf key iv aad ciphertext).length = enc.tagBytes := by
  unfold tagOf
  cases h : enc.tagHash? with
  | some hash =>
    have hle := tagBytes_le_size h
    show (enc.hashTag hash key aad iv ciphertext).length = enc.tagBytes
    rw [hashTag, List.length_take, Hash.length_hmac]
    omega
  | none =>
    show (Gcm.tag (.ofKey key) iv aad ciphertext).length = enc.tagBytes
    rw [Gcm.length_tag]
    cases enc <;> first | rfl | cases h

/-- Encryption puts the tag that belongs to the ciphertext next to it. -/
theorem tag_eq_tagOf {enc : ContentEncryption} {key iv aad text ciphertext tag : Bytes}
    (h : enc.encrypt key iv aad text = .ok (ciphertext, tag)) :
    tag = enc.tagOf key iv aad ciphertext := by
  unfold encrypt at h
  unfold tagOf
  cases hl : enc.checkLengths key iv with
  | error e =>
    rw [hl] at h
    cases h
  | ok _ =>
    rw [hl] at h
    cases hh : enc.tagHash? with
    | some hash =>
      rw [hh] at h
      cases h
      rfl
    | none =>
      rw [hh] at h
      have h : counterEncrypt key iv aad text = (ciphertext, tag) := Except.ok.inj h
      rw [counterEncrypt_eq, Prod.mk.injEq] at h
      rw [← h.1, ← h.2]

theorem chainDecrypt_of_ne {enc : ContentEncryption} {hash : Hash}
    {key iv aad ciphertext tag : Bytes} (h : enc.hashTag hash key aad iv ciphertext ≠ tag) :
    enc.chainDecrypt hash key iv aad ciphertext tag = .error .authenticationFailed := by
  rw [chainDecrypt, if_neg h]

/-- A tag of whatever length that is not the right one is refused in Galois counter mode: either
it is of the wrong length, or it is cut off again and compared. -/
theorem counterDecrypt_of_ne {key iv aad ciphertext tag : Bytes}
    (h : Gcm.tag (.ofKey key) iv aad ciphertext ≠ tag) :
    counterDecrypt key iv aad ciphertext tag = .error .authenticationFailed := by
  -- there is no other failure, and a success would carry the right tag
  cases hd : counterDecrypt key iv aad ciphertext tag with
  | error e =>
    unfold counterDecrypt at hd
    split at hd
    · exact hd.symm
    · split at hd
      · cases hd
      · exact hd.symm
  | ok text =>
    have he := counterDecrypt_eq_ok_iff.1 hd
    rw [counterEncrypt_eq, Prod.mk.injEq] at he
    obtain ⟨rfl, ht⟩ := he
    exact absurd ht h

/-- Without its tag a ciphertext is not decrypted. -/
theorem decrypt_of_ne_tagOf {enc : ContentEncryption} {key iv aad ciphertext tag : Bytes}
    (hkey : key.length = enc.keyBytes) (hiv : iv.length = enc.ivBytes)
    (h : tag ≠ enc.tagOf key iv aad ciphertext) :
    enc.decrypt key iv aad ciphertext tag = .error .authenticationFailed := by
  unfold tagOf at h
  unfold decrypt
  rw [checkLengths_eq_ok hkey hiv]
  cases hh : enc.tagHash? with
  | some hash =>
    rw [hh] at h
    exact chainDecrypt_of_ne h.symm
  | none =>
    rw [hh] at h
    exact counterDecrypt_of_ne h.symm

/-! ## What is opened -/

/-- Under a key and a vector of the right lengths, exactly the encrypted form of a text opens to
it: every text has such a form, only one, and that carries the tag that belongs to it. With any
other tag, of whatever length, nothing is opened. -/
theorem opens_exactly_encrypted (enc : ContentEncryption) (key iv aad : Bytes)
    (hkey : key.length = enc.keyBytes) (hiv : iv.length = enc.ivBytes) :
    (∀ text ciphertext tag, enc.decrypt key iv aad ciphertext tag = .ok text ↔
      enc.encrypt key iv aad text = .ok (ciphertext, tag)) ∧
    (∀ text, ∃ ciphertext tag, enc.encrypt key iv aad text = .ok (ciphertext, tag) ∧
      tag.length = enc.tagBytes ∧ enc.decrypt key iv aad ciphertext tag = .ok text) ∧
    (∀ text ciphertext tag ciphertext' tag',
      enc.decrypt key iv aad ciphertext tag = .ok text →
      enc.decrypt key iv aad ciphertext' tag' = .ok text →
      ciphertext = ciphertext' ∧ tag = tag') ∧
    (∀ ciphertext tag, tag ≠ enc.tagOf key iv aad ciphertext →
      enc.decrypt key iv aad ciphertext tag = .error .authenticationFailed) := by
  refine ⟨fun text ciphertext tag => decrypt_eq_ok_iff, ?_, ?_, ?_⟩
  · intro text
    obtain ⟨ciphertext, tag, h⟩ := exists_encrypt_eq_ok hkey hiv aad text
    have htag : tag.length = enc.tagBytes := by
      rw [tag_eq_tagOf h, length_tagOf]
    exact ⟨ciphertext, tag, h, htag, decrypt_eq_ok_iff.2 h⟩
  · intro text ciphertext tag ciphertext' tag' h h'
    have he := (decrypt_eq_ok_iff.1 h).symm.trans (decrypt_eq_ok_iff.1 h')
    exact Prod.mk.inj (Except.ok.inj he)
  · intro ciphertext tag h
    exact decrypt_of_ne_tagOf hkey hiv h

/-- The empty text under a key of zeros. -/
theorem opens_exactly_encrypted_empty :
    (List.replicate 32 0 : Bytes).length = a128CbcHs256.keyBytes ∧
    (List.replicate 16 0 : Bytes).length = a128CbcHs256.ivBytes ∧
    ∃ ciphertext tag,
      a128CbcHs256.encrypt (List.replicate 32 0) (List.replicate 16 0) [] [] =
        .ok (ciphertext, tag) ∧
      tag.length = 16 ∧
      a128CbcHs256.decrypt (List.replicate 32 0) (List.replicate 16 0) [] ciphertext tag =
        .ok [] :=
  ⟨rfl, rfl, (opens_exactly_encrypted a128CbcHs256 _ _ _ rfl rfl).2.1 []⟩

end ContentEncryption

end WebToken
