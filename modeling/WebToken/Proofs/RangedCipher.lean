import WebToken.Proofs.Decryption
import WebToken.Proofs.Encryption
import WebToken.Ranged.Encryption

/-!
# Ciphers that look at their ranges

With ranges, a string is cut where it is long enough, a number is taken from one that is not
smaller, an array has its size, and a cipher has a key of its size. Contents and content keys come
out as they do without ranges: whenever an operation is reached, it is in its range, and every
cipher is set up.

* `ContentEncryption.rangedEncrypt_eq` and `ContentEncryption.rangedDecrypt_eq` : contents;
* `KeyManagement.rangedSend_eq` and `KeyManagement.rangedReceive_eq` : content keys.
-/

namespace WebToken

open Crypto

open Ranged (within)

open Aes (Variant)

/-! ## Contents -/

namespace ContentEncryption

variable {enc : ContentEncryption} {hash : Hash} {key iv aad text ciphertext tag : Bytes}
  {v : Variant}

/-! ### Chained blocks -/

/-- A hash is long enough to cut the tag from it. -/
theorem rangedTag_eq (hhash : enc.tagHash? = some hash) (key aad iv ciphertext : Bytes) :
    enc.rangedTag (macKey key) aad iv ciphertext =
      pure (enc.hashTag hash key aad iv ciphertext) := by
  have hmac : enc.macHash = hash := by
    cases enc <;> cases hhash <;> rfl
  unfold rangedTag
  rw [hmac]
  apply Ranged.first_eq
  rw [Hash.length_hmac]
  exact tagBytes_le_size hhash

/-- The second half of a content key is a key of the block cipher. -/
theorem setUpChain_eq (hhash : enc.tagHash? = some hash) (hkey : key.length = enc.keyBytes)
    (hiv : iv.length = enc.ivBytes) : setUpChain (cipherKey key) iv = .ok () := by
  have hvector : enc.ivBytes = Aes.blockBytes := by
    cases enc <;> cases hhash <;> rfl
  have hvariant : ∃ v : Variant, enc.keyBytes - enc.keyBytes / 2 = v.keyBytes := by
    cases enc <;> cases hhash
    · exact ⟨.aes128, rfl⟩
    · exact ⟨.aes192, rfl⟩
    · exact ⟨.aes256, rfl⟩
  obtain ⟨v, hv⟩ := hvariant
  have hlength : (cipherKey key).length = v.keyBytes := by
    rw [cipherKey, List.length_drop, hkey, hv]
  unfold setUpChain
  rw [hlength, Variant.ofKeyBytes?_keyBytes]
  exact if_pos ⟨rfl, hiv.trans hvector⟩

/-- A content key is cut into its halves. -/
theorem splitAt_key (key : Bytes) :
    Ranged.splitAt key (key.length / 2) = pure (macKey key, cipherKey key) :=
  Ranged.splitAt_eq (Nat.div_le_self _ _)

theorem rangedChainEncrypt_eq (hhash : enc.tagHash? = some hash)
    (hkey : key.length = enc.keyBytes) (hiv : iv.length = enc.ivBytes) :
    enc.rangedChainEncrypt key iv aad text =
      within (.ok (enc.chainEncrypt hash key iv aad text)) := by
  unfold rangedChainEncrypt
  simp only [splitAt_key, setUpChain_eq hhash hkey hiv, rangedTag_eq hhash, Ranged.within_ok,
    pure_bind]
  rfl

theorem rangedChainDecrypt_eq (hhash : enc.tagHash? = some hash)
    (hkey : key.length = enc.keyBytes) (hiv : iv.length = enc.ivBytes) :
    enc.rangedChainDecrypt key iv aad ciphertext tag =
      within (enc.chainDecrypt hash key iv aad ciphertext tag) := by
  unfold rangedChainDecrypt chainDecrypt
  simp only [splitAt_key, setUpChain_eq hhash hkey hiv, rangedTag_eq hhash, Ranged.within_ok,
    pure_bind]
  split
  · cases Cbc.decrypt? (cipherKey key) iv ciphertext with
    | some text => rfl
    | none => rfl
  · rfl

/-! ### Galois counter mode -/

theorem rangedCounterEncrypt_eq (hkey : key.length = v.keyBytes) (hiv : iv.length = nonceBytes)
    (hlimit : WithinLimit aad text) :
    rangedCounterEncrypt v key iv aad text = within (.ok (counterEncrypt key iv aad text)) := by
  obtain ⟨nonce, harray, hnonce⟩ := Ranged.array_eq hiv
  have hin : ¬(maxCounterBytes < text.length ∨ maxCounterBytes < aad.length) := by
    unfold WithinLimit at hlimit
    omega
  -- the tag stands behind the text, so there is enough to cut it off
  have hsealed : Gcm.tagBytes ≤ (Gcm.encrypt key iv aad text).length := by
    rw [Gcm.length_encrypt]
    exact Nat.le_add_left _ _
  have hcut : (Gcm.encrypt key iv aad text).length - Gcm.tagBytes ≤
      (Gcm.encrypt key iv aad text).length := Nat.sub_le _ _
  unfold rangedCounterEncrypt setUpCounter counterEncrypt
  simp only [if_pos hkey, harray, hnonce, if_neg hin, Ranged.within_ok, pure_bind,
    Ranged.sub_eq hsealed, Ranged.splitAt_eq hcut, List.splitAt_eq]

/-- Beyond its limit Galois counter mode fails internally. -/
theorem rangedCounterEncrypt_of_not_withinLimit (hkey : key.length = v.keyBytes)
    (hiv : iv.length = nonceBytes) (hlimit : ¬WithinLimit aad text) :
    rangedCounterEncrypt v key iv aad text =
      within (.error (.internal (.note "AES-GCM encryption failed: aead::Error"))) := by
  obtain ⟨nonce, harray, -⟩ := Ranged.array_eq hiv
  have hout : maxCounterBytes < text.length ∨ maxCounterBytes < aad.length := by
    unfold WithinLimit at hlimit
    omega
  unfold rangedCounterEncrypt setUpCounter
  simp only [if_pos hkey, harray, if_pos hout, Ranged.within_ok, pure_bind]
  rfl

theorem rangedCounterDecrypt_eq (hkey : key.length = v.keyBytes) (hiv : iv.length = nonceBytes) :
    rangedCounterDecrypt v key iv aad ciphertext tag =
      within (counterDecrypt key iv aad ciphertext tag) := by
  obtain ⟨nonce, harray, hnonce⟩ := Ranged.array_eq hiv
  unfold rangedCounterDecrypt setUpCounter counterDecrypt
  simp only [if_pos hkey, harray, hnonce, Ranged.within_ok, pure_bind]
  split
  · rfl
  · cases Gcm.decrypt? key iv aad (ciphertext ++ tag) with
    | some text => rfl
    | none => rfl

/-- Galois counter mode has no outcome under a vector of another length, so that must have been looked
at before. -/
theorem rangedCounterDecrypt_eq_out_iff :
    rangedCounterDecrypt v key iv aad ciphertext tag = .out ↔
      tag.length = Gcm.tagBytes ∧ key.length = v.keyBytes ∧ iv.length ≠ nonceBytes := by
  by_cases hin : key.length = v.keyBytes ∧ iv.length = nonceBytes
  · rw [rangedCounterDecrypt_eq hin.1 hin.2]
    exact ⟨fun h => absurd h (Ranged.within_ne_out _), fun h => absurd hin.2 h.2.2⟩
  · unfold rangedCounterDecrypt setUpCounter Ranged.array
    by_cases htag : tag.length = Gcm.tagBytes
    · rw [if_neg (fun h => h htag)]
      by_cases hkey : key.length = v.keyBytes
      · have hiv : iv.length ≠ nonceBytes := fun hiv => hin ⟨hkey, hiv⟩
        rw [if_pos hkey, dif_neg hiv]
        exact ⟨fun _ => ⟨htag, hkey, hiv⟩, fun _ => rfl⟩
      · rw [if_neg hkey]
        exact ⟨fun h => absurd h (Ranged.within_ne_out _), fun h => absurd h.2.1 hkey⟩
    · rw [if_pos htag]
      exact ⟨fun h => absurd h (Ranged.within_ne_out _), fun h => absurd h.1 htag⟩

/-! ### All algorithms -/

/-- Encryption stays in all ranges, whatever the lengths of key and vector, within the limit of
Galois counter mode. -/
theorem rangedEncrypt_eq (hlimit : WithinLimit aad text) :
    enc.rangedEncrypt key iv aad text = within (enc.encrypt key iv aad text) := by
  refine Ranged.within_bind fun _ hlengths => ?_
  obtain ⟨hkey, hiv⟩ := checkLengths_eq_ok_iff.1 hlengths
  cases enc with
  | a128CbcHs256 => exact rangedChainEncrypt_eq rfl hkey hiv
  | a192CbcHs384 => exact rangedChainEncrypt_eq rfl hkey hiv
  | a256CbcHs512 => exact rangedChainEncrypt_eq rfl hkey hiv
  | a128Gcm => exact rangedCounterEncrypt_eq hkey hiv hlimit
  | a192Gcm => exact rangedCounterEncrypt_eq hkey hiv hlimit
  | a256Gcm => exact rangedCounterEncrypt_eq hkey hiv hlimit

/-- Decryption stays in all ranges, whatever the lengths. -/
theorem rangedDecrypt_eq :
    enc.rangedDecrypt key iv aad ciphertext tag =
      within (enc.decrypt key iv aad ciphertext tag) := by
  refine Ranged.within_bind fun _ hlengths => ?_
  obtain ⟨hkey, hiv⟩ := checkLengths_eq_ok_iff.1 hlengths
  cases enc with
  | a128CbcHs256 => exact rangedChainDecrypt_eq rfl hkey hiv
  | a192CbcHs384 => exact rangedChainDecrypt_eq rfl hkey hiv
  | a256CbcHs512 => exact rangedChainDecrypt_eq rfl hkey hiv
  | a128Gcm => exact rangedCounterDecrypt_eq hkey hiv
  | a192Gcm => exact rangedCounterDecrypt_eq hkey hiv
  | a256Gcm => exact rangedCounterDecrypt_eq hkey hiv

end ContentEncryption

/-! ## Wrapped keys -/

namespace Crypto.KeyWrap

variable {kek key wrapped : Bytes} {v : Variant}

theorem rangedWrap_eq (hkek : kek.length = v.keyBytes) (hkey : key.length % halfBytes = 0) :
    rangedWrap kek key = pure (some (wrap kek key)) := by
  obtain ⟨array, harray, hbytes⟩ := Ranged.array_eq hkek
  unfold rangedWrap wrapInto?
  rw [hkek, Variant.ofKeyBytes?_keyBytes]
  simp only [harray, hbytes, pure_bind]
  rw [if_pos ⟨hkey, trivial⟩]

theorem rangedUnwrap_eq (hkek : kek.length = v.keyBytes) (wrapped : Bytes) :
    rangedUnwrap kek wrapped = pure (unwrap? kek wrapped) := by
  obtain ⟨array, harray, hbytes⟩ := Ranged.array_eq hkek
  unfold rangedUnwrap
  by_cases hlength : wrapped.length < 3 * halfBytes ∨ wrapped.length % halfBytes ≠ 0
  · rw [if_pos hlength, unwrap?, if_pos hlength]
  · -- the length was looked at, so there is a half to take away
    have hhalf : halfBytes ≤ wrapped.length := by omega
    have hroom : wrapped.length ≤ wrapped.length - halfBytes + halfBytes := by omega
    rw [if_neg hlength, hkek, Variant.ofKeyBytes?_keyBytes]
    simp only [Ranged.sub_eq hhalf, harray, hbytes, pure_bind, unwrapInto?, if_pos hroom]

end Crypto.KeyWrap

/-! ## Content keys -/

namespace KeyManagement

variable {alg : KeyManagement} {enc : ContentEncryption} {key : Key} {secret : Bytes}

/-- A secret under which content keys are wrapped is a key of the block cipher. -/
theorem exists_variant (h : some secret.length = alg.wrappingKeyBytes?) :
    ∃ v : Variant, secret.length = v.keyBytes := by
  cases alg with
  | rsaOaep256 | rsaOaep | direct => cases h
  | a128Kw => exact ⟨.aes128, Option.some.inj h⟩
  | a192Kw => exact ⟨.aes192, Option.some.inj h⟩
  | a256Kw => exact ⟨.aes256, Option.some.inj h⟩

/-- Sending a content key stays in all ranges. -/
theorem rangedSend_eq (random : Randomness) :
    alg.rangedSend enc key random = within (alg.send enc key random) := by
  cases alg with
  | rsaOaep256 | rsaOaep | direct => rfl
  | a128Kw | a192Kw | a256Kw =>
    refine Ranged.within_bind fun secret _ => ?_
    split
    · next hsecret =>
      -- the content key is made here, of a number of bytes that can be wrapped
      obtain ⟨v, hv⟩ := exists_variant hsecret
      rw [KeyWrap.rangedWrap_eq hv (by rw [random.length_contentKeyBytes]; exact enc.keyBytes_spec.2)]
      rfl
    · rfl

/-- Opening an encrypted key stays in all ranges, whatever its length. -/
theorem rangedOpen_eq (encryptedKey : Bytes) :
    alg.rangedOpen key encryptedKey = within (alg.open? key encryptedKey) := by
  cases alg with
  | rsaOaep256 | rsaOaep | direct => rfl
  | a128Kw | a192Kw | a256Kw =>
    refine Ranged.within_bind fun secret _ => ?_
    split
    · next hsecret =>
      obtain ⟨v, hv⟩ := exists_variant hsecret
      exact KeyWrap.rangedUnwrap_eq hv encryptedKey
    · rfl

/-- Receiving a content key stays in all ranges. -/
theorem rangedReceive_eq (encryptedKey : Bytes) :
    alg.rangedReceive enc key encryptedKey = within (alg.receive enc key encryptedKey) := by
  unfold rangedReceive
  rw [rangedOpen_eq]
  refine Ranged.within_bind fun opened _ => ?_
  cases opened with
  | none => rfl
  | some contentKey =>
    dsimp only
    split
    · rfl
    · rfl

end KeyManagement

end WebToken
