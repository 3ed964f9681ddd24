import WebToken.Crypto.Cbc
import WebToken.Crypto.Gcm
import WebToken.Error

/-!
# Encryption of contents

A content is encrypted together with a tag over it and over additional data. Some algorithms chain
blocks and take a keyed hash of the outcome, with one half of the content key each; the others
work in Galois counter mode. The tag is looked at before anything is decrypted.

* `ContentEncryption.decrypt_eq_ok_iff` : decryption accepts exactly what encryption produces.
-/

namespace WebToken

namespace ContentEncryption

open Crypto

/-- Refuse a key or a vector of the wrong length. -/
def checkLengths (enc : ContentEncryption) (key iv : Bytes) : Except Error Unit :=
  if key.length ≠ enc.keyBytes then
    .error (.invalidParameter (.contentKeyLength enc key.length))
  else if iv.length ≠ enc.ivBytes then
    .error (.malformedToken (.contentIvLength enc iv.length))
  else .ok ()

/-- The half of a content key that is the key of the keyed hash. -/
def macKey (key : Bytes) : Bytes := key.take (key.length / 2)

/-- The half of a content key that is the key of the block cipher. -/
def cipherKey (key : Bytes) : Bytes := key.drop (key.length / 2)

/-- What the keyed hash covers; the bit length of the data stands last, so that the parts can be
told apart. -/
def authenticated (aad iv ciphertext : Bytes) : Bytes :=
  aad ++ iv ++ ciphertext ++ Bytes.ofNat 8 (8 * aad.length)

/-- The keyed hash cut to the length of the tag. -/
def hashTag (enc : ContentEncryption) (hash : Hash) (key aad iv ciphertext : Bytes) : Bytes :=
  (hash.hmac (macKey key) (authenticated aad iv ciphertext)).take enc.tagBytes

/-- The encrypted text and its tag, where blocks are chained. -/
def chainEncrypt (enc : ContentEncryption) (hash : Hash) (key iv aad text : Bytes) :
    Bytes × Bytes :=
  let ciphertext := Cbc.encrypt (cipherKey key) iv text
  (ciphertext, enc.hashTag hash key aad iv ciphertext)

/-- The text that was encrypted by chaining blocks, if the tag is the right one. -/
def chainDecrypt (enc : ContentEncryption) (hash : Hash) (key iv aad ciphertext tag : Bytes) :
    Except Error Bytes :=
  if enc.hashTag hash key aad iv ciphertext = tag then
    match Cbc.decrypt? (cipherKey key) iv ciphertext with
    | some text => .ok text
    | none => .error .paddingError
  else .error .authenticationFailed

/-- The encrypted text and its tag, in Galois counter mode. -/
def counterEncrypt (key iv aad text : Bytes) : Bytes × Bytes :=
  let sealed := Gcm.encrypt key iv aad text
  sealed.splitAt (sealed.length - Gcm.tagBytes)

/-- The text that was encrypted in Galois counter mode, if the tag is the right one. -/
def counterDecrypt (key iv aad ciphertext tag : Bytes) : Except Error Bytes :=
  if tag.length ≠ Gcm.tagBytes then .error .authenticationFailed
  else
    match Gcm.decrypt? key iv aad (ciphertext ++ tag) with
    | some text => .ok text
    | none => .error .authenticationFailed

/-- The encrypted text and its tag. -/
def encrypt (enc : ContentEncryption) (key iv aad text : Bytes) : Except Error (Bytes × Bytes) := do
  enc.checkLengths key iv
  match enc.tagHash? with
  | some hash => return enc.chainEncrypt hash key iv aad text
  | none => return counterEncrypt key iv aad text

/-- The text that was encrypted, if the tag is the right one. -/
def decrypt (enc : ContentEncryption) (key iv aad ciphertext tag : Bytes) : Except Error Bytes := do
  enc.checkLengths key iv
  match enc.tagHash? with
  | some hash => enc.chainDecrypt hash key iv aad ciphertext tag
  | none => counterDecrypt key iv aad ciphertext tag

/-! ## Decryption accepts exactly what encryption produces -/

theorem chainDecrypt_eq_ok_iff {enc : ContentEncryption} {hash : Hash}
    {key iv aad text ciphertext tag : Bytes} :
    enc.chainDecrypt hash key iv aad ciphertext tag = .ok text ↔
      enc.chainEncrypt hash key iv aad text = (ciphertext, tag) := by
  rw [chainEncrypt, Prod.mk.injEq]
  constructor
  · intro h
    unfold chainDecrypt at h
    split at h
    · next ht =>
      split at h
      · next hc =>
        have hc := Cbc.decrypt?_eq_some_iff.1 hc
        cases h
        exact ⟨hc, by rw [hc]; exact ht⟩
      · cases h
    · cases h
  · rintro ⟨hc, ht⟩
    rw [hc] at ht
    rw [chainDecrypt, if_pos ht, Cbc.decrypt?_eq_some_iff.2 hc]

/-- The tag is cut off where it was put on. -/
theorem counterEncrypt_eq (key iv aad text : Bytes) :
    counterEncrypt key iv aad text =
      (Gcm.mask (.ofKey key) iv text,
        Gcm.tag (.ofKey key) iv aad (Gcm.mask (.ofKey key) iv text)) :=
  Gcm.splitAt_encrypt key iv aad text

theorem counterDecrypt_eq_ok_iff {key iv aad text ciphertext tag : Bytes} :
    counterDecrypt key iv aad ciphertext tag = .ok text ↔
      counterEncrypt key iv aad text = (ciphertext, tag) := by
  constructor
  · intro h
    unfold counterDecrypt at h
    split at h
    · cases h
    · next hl =>
      split at h
      · next hg =>
        cases h
        have hcut : (ciphertext ++ tag).length - Gcm.tagBytes = ciphertext.length := by
          rw [List.length_append, ← Decidable.not_not.1 hl, Nat.add_sub_cancel]
        rw [counterEncrypt, Gcm.decrypt?_eq_some_iff.1 hg, hcut, List.splitAt_eq, List.take_left,
          List.drop_left]
      · cases h
  · intro h
    rw [counterEncrypt_eq, Prod.mk.injEq] at h
    obtain ⟨rfl, rfl⟩ := h
    have hl : ¬(Gcm.tag (.ofKey key) iv aad (Gcm.mask (.ofKey key) iv text)).length ≠
        Gcm.tagBytes := by
      rw [Gcm.length_tag]
      exact fun hne => hne rfl
    have hg : Gcm.decrypt? key iv aad (Gcm.mask (.ofKey key) iv text ++
        Gcm.tag (.ofKey key) iv aad (Gcm.mask (.ofKey key) iv text)) = some text :=
      Gcm.decrypt?_eq_some_iff.2 rfl
    rw [counterDecrypt, if_neg hl, hg]

/-- Decryption accepts exactly what encryption produces. -/
theorem decrypt_eq_ok_iff {enc : ContentEncryption} {key iv aad text ciphertext tag : Bytes} :
    enc.decrypt key iv aad ciphertext tag = .ok text ↔
      enc.encrypt key iv aad text = .ok (ciphertext, tag) := by
  unfold decrypt encrypt
  cases enc.checkLengths key iv with
  | error e => simp [bind, Except.bind]
  | ok _ =>
    simp only [bind, Except.bind, pure, Except.pure]
    cases enc.tagHash? with
    | some hash => rw [chainDecrypt_eq_ok_iff, Except.ok.injEq]
    | none => rw [counterDecrypt_eq_ok_iff, Except.ok.injEq]

end ContentEncryption

end WebToken
