import WebToken.Proofs.Encryption
import WebToken.Proofs.Signing

/-!
# The shape of encrypted tokens

How long the parts of an encrypted token are is settled by its header, by the size of the key and by
the length of the payload. Neither the bytes of these nor the random bytes show in it.

* `Base64Url.length_encode` : how many symbols bytes take;
* `EncryptedToken.shape_of_encrypt` : the shape of a token is the one that its header announces;
* `EncryptedToken.encrypts_to_shape` : the lengths part by part, in the token and in its text, and
  that nothing else shows in them.
-/

namespace WebToken

open Crypto

/-! ## Segments -/

namespace Base64Url

/-- Three bytes are four symbols, and the symbols of a shorter rest are rounded up. -/
theorem length_symbols (bytes : Bytes) : (symbols bytes).length = 4 * bytes.length ⌈/⌉ 3 := by
  rw [Nat.ceilDiv_eq_add_pred_div]
  fun_induction symbols bytes with
  | case1 a b c rest n ih =>
    simp only [List.length_cons, ih]
    omega
  | case2 | case3 | case4 => simp

/-- Every symbol is one character. -/
theorem length_encode (bytes : Bytes) : (encode bytes).length = 4 * bytes.length ⌈/⌉ 3 := by
  rw [encode, String.length_ofList, List.length_map, length_symbols]

end Base64Url

/-! ## Contents -/

namespace ContentEncryption

/-- Bytes in the ciphertext of a text: blocks that are chained are filled up, and a text of whole
blocks gets a block more. -/
def ciphertextBytes (enc : ContentEncryption) (n : Nat) : Nat :=
  if enc.isCbcHmac then 16 * (n / 16 + 1) else n

variable {enc : ContentEncryption} {key iv aad text ciphertext tag : Bytes}

theorem length_tag_of_encrypt (h : enc.encrypt key iv aad text = .ok (ciphertext, tag)) :
    tag.length = enc.tagBytes := by
  rw [tag_eq_tagOf h, length_tagOf]

theorem length_ciphertext_of_encrypt (h : enc.encrypt key iv aad text = .ok (ciphertext, tag)) :
    ciphertext.length = enc.ciphertextBytes text.length := by
  obtain ⟨_, -, h⟩ := bind_eq_ok_iff.1 h
  unfold ciphertextBytes isCbcHmac
  cases hhash : enc.tagHash? with
  | some hash =>
    rw [hhash] at h
    cases h
    exact Cbc.length_encrypt _ _ _
  | none =>
    rw [hhash] at h
    have hparts : counterEncrypt key iv aad text = (ciphertext, tag) := Except.ok.inj h
    rw [counterEncrypt_eq, Prod.mk.injEq] at hparts
    rw [← hparts.1]
    exact Gcm.length_mask _ _ _

end ContentEncryption

/-! ## Encrypted keys -/

/-- An RSA key has the size of its modulus. -/
theorem Key.size_of_rsaPublic? {key : Key} {k : Rsa.PublicKey} (h : key.rsaPublic? = some k) :
    k.size = (key.bits + 7) / 8 :=
  Key.rsaPublic?_cases h (fun _ _ _ => rfl) fun _ _ _ => rfl

namespace KeyManagement

/-- Bytes in the form in which a content key is sent to a key of `bits` bits. -/
def encryptedKeyBytes (alg : KeyManagement) (enc : ContentEncryption) (bits : Nat) : Nat :=
  match alg with
  | .rsaOaep256 | .rsaOaep => (bits + 7) / 8
  | .a128Kw | .a192Kw | .a256Kw => enc.keyBytes + 8
  | .direct => 0

theorem encryptedKeyBytes_of_isRsa {alg : KeyManagement} (h : alg.isRsa = true)
    (enc : ContentEncryption) (bits : Nat) : alg.encryptedKeyBytes enc bits = (bits + 7) / 8 := by
  cases alg with
  | rsaOaep256 | rsaOaep => rfl
  | a128Kw | a192Kw | a256Kw | direct => cases h

theorem encryptedKeyBytes_of_wraps {alg : KeyManagement} (h : alg.wrappingKeyBytes?.isSome = true)
    (enc : ContentEncryption) (bits : Nat) :
    alg.encryptedKeyBytes enc bits = enc.keyBytes + 8 := by
  cases alg with
  | rsaOaep256 | rsaOaep | direct => cases h
  | a128Kw | a192Kw | a256Kw => rfl

theorem length_encryptedKey_of_send {alg : KeyManagement} {enc : ContentEncryption} {key : Key}
    {random : Randomness} {sent : SentKey} (h : alg.send enc key random = .ok sent) :
    sent.encryptedKey.length = alg.encryptedKeyBytes enc key.bits := by
  unfold send at h
  cases alg with
  | rsaOaep256 | rsaOaep =>
    simp only at h
    split at h
    · cases h
    · next k hk =>
      split at h
      · next encryptedKey hencrypt =>
        cases h
        unfold Rsa.PublicKey.encrypt? at hencrypt
        split at hencrypt
        · cases hencrypt
        · cases hencrypt
          exact (Bytes.length_ofNat _ _).trans (Key.size_of_rsaPublic? hk)
      · cases h
  | a128Kw | a192Kw | a256Kw =>
    obtain ⟨secret, -, h⟩ := bind_eq_ok_iff.1 h
    split at h
    · cases h
      have hwhole : (random.contentKeyBytes enc.keyBytes).length % KeyWrap.halfBytes = 0 := by
        rw [random.length_contentKeyBytes]
        exact enc.keyBytes_spec.2
      rw [KeyWrap.length_wrap _ hwhole, random.length_contentKeyBytes]
      exact Nat.add_comm _ _
    · cases h
  | direct =>
    obtain ⟨secret, -, h⟩ := bind_eq_ok_iff.1 h
    split at h
    · cases h
      rfl
    · cases h

/-- A content key is sent by RSA only to an RSA key. -/
theorem exists_rsaPublic?_of_send {alg : KeyManagement} {enc : ContentEncryption} {key : Key}
    {random : Randomness} {sent : SentKey} (h : alg.send enc key random = .ok sent)
    (hrsa : alg.isRsa = true) : ∃ k, key.rsaPublic? = some k := by
  unfold send at h
  cases alg with
  | rsaOaep256 | rsaOaep =>
    simp only at h
    split at h
    · cases h
    · next k hk => exact ⟨k, hk⟩
  | a128Kw | a192Kw | a256Kw | direct => cases hrsa

end KeyManagement

/-! ## Tokens -/

namespace EncryptedToken

/-- What an observer sees of a token without reading its parts: the segment of its header, and how
many bytes the other parts have. -/
structure Shape where
  segment : String
  encryptedKey : Nat
  iv : Nat
  ciphertext : Nat
  tag : Nat
  deriving Repr, DecidableEq

/-- The shape of a token. -/
def shape (t : EncryptedToken) : Shape :=
  ⟨t.segment, t.encryptedKey.length, t.iv.length, t.ciphertext.length, t.tag.length⟩

/-- The characters of the five segments of the compact text of a token. -/
def Shape.segmentLengths (s : Shape) : List Nat :=
  s.segment.length :: [s.encryptedKey, s.iv, s.ciphertext, s.tag].map (4 * · ⌈/⌉ 3)

end EncryptedToken

/-- The shape of the tokens that are encrypted under a header for a key of `bits` bits and carry a
payload of `n` bytes. -/
def Header.tokenShape (h : Header) (bits n : Nat) : Except Error EncryptedToken.Shape := do
  let (alg, enc) ← h.encryption
  return ⟨h.encode, alg.encryptedKeyBytes enc bits, enc.ivBytes, enc.ciphertextBytes n,
    enc.tagBytes⟩

namespace EncryptedToken

variable {payload : Bytes} {key : Key} {header : Header} {random : Randomness} {t : EncryptedToken}

/-- The shape of a token is the one that its header announces. -/
theorem shape_of_encrypt (h : encrypt payload key header random = .ok t) :
    header.tokenShape key.bits payload.length = .ok t.shape := by
  obtain ⟨alg, enc, henc, -, sent, hsent, ciphertext, tag, hcontent, rfl⟩ := encrypt_eq_ok_iff.1 h
  refine bind_eq_ok_iff.2 ⟨(alg, enc), henc, congrArg Except.ok ?_⟩
  rw [shape, KeyManagement.length_encryptedKey_of_send hsent, random.length_ivBytes,
    ContentEncryption.length_ciphertext_of_encrypt hcontent,
    ContentEncryption.length_tag_of_encrypt hcontent]

/-- Keys of one size and payloads of one length give tokens of one shape. -/
theorem shape_eq_of_encrypt {payload' : Bytes} {key' : Key} {random' : Randomness}
    {t' : EncryptedToken} (h : encrypt payload key header random = .ok t)
    (h' : encrypt payload' key' header random' = .ok t') (hbits : key'.bits = key.bits)
    (hlength : payload'.length = payload.length) : t'.shape = t.shape := by
  have hshape := shape_of_encrypt h'
  rw [hbits, hlength, shape_of_encrypt h] at hshape
  exact (Except.ok.inj hshape).symm

/-- A token just encrypted has a compact text, whose segments spell its parts. -/
theorem exists_compact_of_encrypt (h : encrypt payload key header random = .ok t) :
    ∃ text, t.compact = .ok text ∧
      segments text = t.segment ::
        [t.encryptedKey, t.iv, t.ciphertext, t.tag].map Base64Url.encode := by
  obtain ⟨alg, enc, -, -, sent, -, ciphertext, tag, -, rfl⟩ := encrypt_eq_ok_iff.1 h
  exact ⟨_, rfl, @segments_compactText [Bytes.ofString header.json, _, _, _, _]
    (List.cons_ne_nil _ _)⟩

/-- The segments of the compact text are as long as the shape of the token says. -/
theorem length_segments_of_encrypt {text : String}
    (h : encrypt payload key header random = .ok t) (htext : t.compact = .ok text) :
    (segments text).map String.length = t.shape.segmentLengths := by
  obtain ⟨text', htext', hsegments⟩ := exists_compact_of_encrypt h
  obtain rfl : text' = text := Except.ok.inj (htext'.symm.trans htext)
  rw [hsegments, List.map_cons, List.map_map]
  simp only [shape, Shape.segmentLengths, List.map_cons, List.map_nil, Function.comp_apply,
    Base64Url.length_encode]

/-- A token that is encrypted has the vector and the tag of its content encryption, a ciphertext of
whole blocks or one as long as the payload, and an encrypted key that is empty, half a block longer
than the content key, or as long as the modulus. Its first segment spells the text of its header,
and each further segment of its compact text has four characters for three bytes, rounded up. With
another payload of the same length, another key of the same size and other random bytes, the header
leads to the same first segment and to parts and segments of the same lengths. -/
theorem encrypts_to_shape (h : encrypt payload key header random = .ok t) :
    (∃ alg enc, header.encryption = .ok (alg, enc) ∧
      t.iv.length = enc.ivBytes ∧
      t.tag.length = enc.tagBytes ∧
      t.ciphertext.length =
        (if enc.isCbcHmac then 16 * (payload.length / 16 + 1) else payload.length) ∧
      (alg = .direct → t.encryptedKey.length = 0) ∧
      (alg.wrappingKeyBytes?.isSome → t.encryptedKey.length = enc.keyBytes + 8) ∧
      (alg.isRsa → ∃ k, key.rsaPublic? = some k ∧
        t.encryptedKey.length = Bytes.byteLength k.modulus)) ∧
    t.segment = Base64Url.encode (Bytes.ofString header.json) ∧
    (∃ text, t.compact = .ok text ∧
      segments text = t.segment ::
        [t.encryptedKey, t.iv, t.ciphertext, t.tag].map Base64Url.encode ∧
      (segments text).tail.map String.length =
        [t.encryptedKey, t.iv, t.ciphertext, t.tag].map (4 * ·.length ⌈/⌉ 3)) ∧
    ∀ payload' key' random' t', encrypt payload' key' header random' = .ok t' →
      key'.bits = key.bits → payload'.length = payload.length →
      t'.shape = t.shape ∧
      ∀ text text', t.compact = .ok text → t'.compact = .ok text' →
        (segments text').map String.length = (segments text).map String.length := by
  refine ⟨?_, ?_, ?_, ?_⟩
  · obtain ⟨alg, enc, henc, -, sent, hsent, -⟩ := encrypt_eq_ok_iff.1 h
    have hshape := shape_of_encrypt h
    rw [Header.tokenShape, henc] at hshape
    have hshape : t.shape = ⟨header.encode, alg.encryptedKeyBytes enc key.bits, enc.ivBytes,
        enc.ciphertextBytes payload.length, enc.tagBytes⟩ := (Except.ok.inj hshape).symm
    have hkey : t.encryptedKey.length = alg.encryptedKeyBytes enc key.bits :=
      congrArg Shape.encryptedKey hshape
    refine ⟨alg, enc, henc, congrArg Shape.iv hshape, congrArg Shape.tag hshape,
      congrArg Shape.ciphertext hshape, ?_, ?_, ?_⟩
    · rintro rfl
      exact hkey
    · exact fun hwraps => hkey.trans (KeyManagement.encryptedKeyBytes_of_wraps hwraps _ _)
    · intro hrsa
      obtain ⟨k, hk⟩ := KeyManagement.exists_rsaPublic?_of_send hsent hrsa
      have hsize : Bytes.byteLength k.modulus = (key.bits + 7) / 8 := Key.size_of_rsaPublic? hk
      have hbytes := hkey.trans (KeyManagement.encryptedKeyBytes_of_isRsa hrsa _ _)
      exact ⟨k, hk, hbytes.trans hsize.symm⟩
  · obtain ⟨-, -, -, -, -, -, -, -, -, rfl⟩ := encrypt_eq_ok_iff.1 h
    rfl
  · obtain ⟨text, htext, hsegments⟩ := exists_compact_of_encrypt h
    refine ⟨text, htext, hsegments, ?_⟩
    rw [hsegments, List.tail_cons, List.map_map]
    exact List.map_congr_left fun part _ => Base64Url.length_encode part
  · intro payload' key' random' t' h' hbits hlength
    have hshape := shape_eq_of_encrypt h h' hbits hlength
    refine ⟨hshape, fun text text' htext htext' => ?_⟩
    rw [length_segments_of_encrypt h' htext', length_segments_of_encrypt h htext, hshape]

/-- A whole block of zeros, encrypted under a content key that is wrapped under zeros, takes two
blocks. -/
theorem encrypts_to_shape_ofZeros :
    ∃ t, encrypt (List.replicate 16 0) (.ofZeros 16 (by decide)) (.encrypted .a128Kw .a128CbcHs256)
        noRandomness = .ok t ∧
      t.ciphertext.length = 32 ∧ t.encryptedKey.length = 40 := by
  obtain ⟨sent, hsent⟩ : ∃ sent, KeyManagement.a128Kw.send .a128CbcHs256
      (.ofZeros 16 (by decide)) noRandomness = .ok sent :=
    KeyManagement.exists_send_of_wrappingKeyBytes? rfl rfl _ _
  obtain ⟨ciphertext, tag, hcontent⟩ := ContentEncryption.exists_encrypt_eq_ok
    (KeyManagement.length_of_send hsent) (noRandomness.length_ivBytes _)
    (Bytes.ofString (Header.encrypted .a128Kw .a128CbcHs256).encode) (List.replicate 16 0)
  have ht := encrypt_eq_ok_iff.2 ⟨.a128Kw, .a128CbcHs256, rfl, Key.permits_of_params rfl _ _ _,
    sent, hsent, ciphertext, tag, hcontent, rfl⟩
  obtain ⟨⟨alg, enc, henc, -, -, hciphertext, -, hwrapped, -⟩, -⟩ := encrypts_to_shape ht
  cases henc
  exact ⟨_, ht, hciphertext, hwrapped rfl⟩

end EncryptedToken

end WebToken
