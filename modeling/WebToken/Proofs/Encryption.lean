import WebToken.Proofs.ContentCipher
import WebToken.Proofs.RoundTrip
import WebToken.Proofs.Rsa

/-!
# Encrypted tokens decrypt

The sender chooses a content key and puts it into a form that the recipient can open; the content is
encrypted under it, with the text of the header. The recipient finds the same content key and the
same text, so it decrypts what was encrypted, in whatever form the token was transmitted.

* `KeyManagement.receive_of_send` : the content key that was sent is received;
* `EncryptedToken.encrypt_eq_ok_iff` and `EncryptedToken.decrypt_eq_ok_iff` : the steps of both
  sides;
* `EncryptedToken.encrypts_and_decrypts` : what is encrypted is decrypted.
-/

namespace WebToken

open Crypto

/-! ## The algorithms of a header -/

namespace Header

/-- Both algorithms of an encrypted token are named, and nothing stands in the header that is not
understood. -/
theorem encryption_eq_ok_iff {h : Header} {alg : KeyManagement} {enc : ContentEncryption} :
    h.encryption = .ok (alg, enc) ↔
      h.contains "crit" = false ∧ h.get? "zip" = none ∧ h.alg? = some alg.name ∧
        h.enc? = some enc.name := by
  unfold encryption
  rw [bind_eq_ok_iff, ← keyManagement_eq_ok_iff, ← contentEncryption_eq_ok_iff,
    ← refuseCritical_eq_ok_iff]
  cases h.get? "zip" with
  | some v => simp
  | none =>
    simp only [bind_eq_ok_iff, true_and]
    constructor
    · rintro ⟨_, hcrit, a, ha, e, he, hpair⟩
      cases hpair
      exact ⟨hcrit, ha, he⟩
    · rintro ⟨hcrit, ha, he⟩
      exact ⟨(), hcrit, alg, ha, enc, he, rfl⟩

/-- The algorithms that a header names are those that its text names. -/
theorem encryption_reread {h : Header} {alg : KeyManagement} {enc : ContentEncryption}
    (hencryption : h.encryption = .ok (alg, enc)) : h.reread.encryption = .ok (alg, enc) := by
  obtain ⟨hcrit, hzip, halg, henc⟩ := encryption_eq_ok_iff.1 hencryption
  refine encryption_eq_ok_iff.2 ⟨?_, ?_, ?_, ?_⟩
  · rw [contains_reread]
    exact hcrit
  · show Json.Object.get? h.parameters.reread "zip" = none
    rw [Json.Object.get?_reread, show Json.Object.get? h.parameters "zip" = none from hzip]
    rfl
  · exact (text?_reread h "alg").trans halg
  · exact (text?_reread h "enc").trans henc

end Header

/-! ## Content keys -/

/-- Whether one key receives what is sent to another: both are the same shared secret, or the first
holds the private half of the second. -/
def Key.Receives (key' key : Key) : Prop :=
  (∃ secret, key'.secret? = some secret ∧ key.secret? = some secret) ∨
  (∃ k, key'.rsaPrivate? = some k ∧ key.rsaPublic? = some k.toPublicKey)

/-- A shared secret is received by itself, and so is an RSA key with its private half. -/
theorem Key.receives_self {key : Key} (h : key.hasPrivate = true) : key.Receives key := by
  obtain ⟨material, params⟩ := key
  cases material with
  | symmetric s => exact .inl ⟨s.bytes, rfl, rfl⟩
  | rsaPublic k large => cases h
  | rsaPrivate k large => exact .inr ⟨k, rfl, rfl⟩

/-- A shared secret is no RSA key. -/
theorem Key.rsaPublic?_of_secret? {key : Key} {secret : Bytes} (h : key.secret? = some secret) :
    key.rsaPublic? = none := by
  obtain ⟨material, params⟩ := key
  cases material with
  | symmetric s => rfl
  | rsaPublic k large => cases h
  | rsaPrivate k large => cases h

/-- Secrets that one key is to receive from another are shared by both. -/
theorem Key.Receives.secret? {key key' : Key} {secret : Bytes} (h : key'.Receives key)
    (hsecret : key.secret? = some secret) : key'.secret? = some secret := by
  rcases h with ⟨_, hsecret', hshared⟩ | ⟨k, -, hk⟩
  · rw [hsecret] at hshared
    cases hshared
    exact hsecret'
  · rw [Key.rsaPublic?_of_secret? hsecret] at hk
    cases hk

theorem ContentEncryption.keyBytes_spec (enc : ContentEncryption) :
    2 * KeyWrap.halfBytes ≤ enc.keyBytes ∧ enc.keyBytes % KeyWrap.halfBytes = 0 := by
  cases enc <;> decide

namespace KeyManagement

variable {alg : KeyManagement} {enc : ContentEncryption} {key key' : Key} {random : Randomness}
  {sent : SentKey}

theorem sharedSecret_eq_ok_iff {secret : Bytes} :
    alg.sharedSecret key = .ok secret ↔ key.secret? = some secret := by
  unfold sharedSecret
  cases key.secret? <;> simp

/-- A content key that is sent has the length that the content requires. -/
theorem length_of_send (hsend : alg.send enc key random = .ok sent) :
    sent.contentKey.length = enc.keyBytes := by
  unfold send at hsend
  cases alg with
  | rsaOaep256 | rsaOaep =>
    simp only at hsend
    split at hsend
    · cases hsend
    · split at hsend
      · cases hsend
        exact random.length_contentKeyBytes _
      · cases hsend
  | a128Kw | a192Kw | a256Kw =>
    obtain ⟨secret, -, hsend⟩ := bind_eq_ok_iff.1 hsend
    split at hsend
    · cases hsend
      exact random.length_contentKeyBytes _
    · cases hsend
  | direct =>
    obtain ⟨secret, -, hsend⟩ := bind_eq_ok_iff.1 hsend
    split at hsend
    · next hlength =>
      cases hsend
      exact hlength
    · cases hsend

/-- The form in which a content key is sent is opened by the recipient. -/
theorem open?_of_send (hsend : alg.send enc key random = .ok sent) (hkey : key'.Receives key)
    (hrsa : ∀ k, key'.rsaPrivate? = some k → k.Opens) :
    alg.open? key' sent.encryptedKey = .ok (some sent.contentKey) := by
  unfold send at hsend
  unfold open?
  cases alg with
  | rsaOaep256 | rsaOaep =>
    simp only at hsend ⊢
    split at hsend
    · cases hsend
    · next k hk =>
      split at hsend
      · next encryptedKey hencrypt =>
        cases hsend
        rcases hkey with ⟨secret, -, hsecret⟩ | ⟨k', hk', hpublic⟩
        · rw [Key.rsaPublic?_of_secret? hsecret] at hk
          cases hk
        · rw [hpublic] at hk
          cases hk
          rw [hk']
          have hopen := hrsa k' hk' _ _ _ _ (random.length_seedBytes _) hencrypt
          exact congrArg Except.ok hopen
      · cases hsend
  | a128Kw | a192Kw | a256Kw =>
    obtain ⟨secret, hsecret, hsend⟩ := bind_eq_ok_iff.1 hsend
    split at hsend
    · next hlength =>
      cases hsend
      have hshared := hkey.secret? (sharedSecret_eq_ok_iff.1 hsecret)
      refine bind_eq_ok_iff.2 ⟨secret, sharedSecret_eq_ok_iff.2 hshared, ?_⟩
      -- content keys are long enough to be wrapped, and have whole halves
      obtain ⟨hlong, hwhole⟩ := enc.keyBytes_spec
      rw [if_pos hlength]
      refine congrArg Except.ok (KeyWrap.unwrap?_eq_some_iff.2 ⟨?_, ?_, rfl⟩)
      · rw [random.length_contentKeyBytes]
        exact hlong
      · rw [random.length_contentKeyBytes]
        exact hwhole
    · cases hsend
  | direct =>
    obtain ⟨secret, hsecret, hsend⟩ := bind_eq_ok_iff.1 hsend
    split at hsend
    · cases hsend
      have hshared := hkey.secret? (sharedSecret_eq_ok_iff.1 hsecret)
      exact bind_eq_ok_iff.2 ⟨secret, sharedSecret_eq_ok_iff.2 hshared, rfl⟩
    · cases hsend

/-- The content key that was sent is received. -/
theorem receive_of_send (hsend : alg.send enc key random = .ok sent) (hkey : key'.Receives key)
    (hrsa : ∀ k, key'.rsaPrivate? = some k → k.Opens) :
    alg.receive enc key' sent.encryptedKey = .ok sent.contentKey := by
  refine bind_eq_ok_iff.2 ⟨_, open?_of_send hsend hkey hrsa, ?_⟩
  exact if_pos (length_of_send hsend)

/-- A content key of every length fits into a block of an RSA key. -/
theorem exists_send {k : Rsa.PublicKey} (hk : key.rsaPublic? = some k)
    (halg : alg = .rsaOaep256 ∨ alg = .rsaOaep) (enc : ContentEncryption) (random : Randomness) :
    ∃ sent, alg.send enc key random = .ok sent := by
  have hsize := Key.le_size hk
  have hfits : enc.keyBytes + 2 * alg.hash.size + 2 ≤ 256 := by
    rcases halg with rfl | rfl <;> cases enc <;> decide
  have hencrypt : ∃ encryptedKey,
      k.encrypt? alg.hash (random.seedBytes alg.hash.size) (random.contentKeyBytes enc.keyBytes) =
        some encryptedKey := by
    rw [Rsa.PublicKey.encrypt?, random.length_contentKeyBytes, if_neg (by omega)]
    exact ⟨_, rfl⟩
  obtain ⟨encryptedKey, hencrypt⟩ := hencrypt
  unfold send
  rcases halg with rfl | rfl <;> simp only [hk, hencrypt] <;> exact ⟨_, rfl⟩

/-- A content key of every length is wrapped under a secret of the right length. -/
theorem exists_send_of_wrappingKeyBytes? {secret : Bytes} (hsecret : key.secret? = some secret)
    (hlength : alg.wrappingKeyBytes? = some secret.length) (enc : ContentEncryption)
    (random : Randomness) : ∃ sent, alg.send enc key random = .ok sent := by
  unfold send
  cases alg with
  | rsaOaep256 | rsaOaep | direct => cases hlength
  | a128Kw | a192Kw | a256Kw =>
    rw [sharedSecret_eq_ok_iff.2 hsecret]
    exact ⟨_, if_pos hlength.symm⟩

end KeyManagement

/-! ## Contents -/

namespace EncryptedToken

variable {payload : Bytes} {key key' : Key} {header : Header} {random : Randomness}
  {t : EncryptedToken}

/-- A token just encrypted, part by part. -/
theorem encrypt_eq_ok_iff :
    encrypt payload key header random = .ok t ↔
      ∃ alg enc, header.encryption = .ok (alg, enc) ∧
        key.Permits alg.name .encryption alg.sendOperations ∧
        ∃ sent, alg.send enc key random = .ok sent ∧
          ∃ ciphertext tag,
            enc.encrypt sent.contentKey (random.ivBytes enc.ivBytes)
              (Bytes.ofString header.encode) payload = .ok (ciphertext, tag) ∧
            t = ⟨header, header.encode, none, sent.encryptedKey, random.ivBytes enc.ivBytes,
              ciphertext, tag⟩ := by
  simp only [encrypt, bind_eq_ok_iff, ofParts_eq_ok_iff, Prod.exists]
  constructor
  · rintro ⟨alg, enc, henc, _, hpermits, sent, hsent, ciphertext, tag, hcontent, rfl, -⟩
    exact ⟨alg, enc, henc, Key.permits_iff.1 hpermits, sent, hsent, ciphertext, tag, hcontent, rfl⟩
  · rintro ⟨alg, enc, henc, hpermits, sent, hsent, ciphertext, tag, hcontent, rfl⟩
    obtain ⟨-, -, halg, hname⟩ := Header.encryption_eq_ok_iff.1 henc
    refine ⟨alg, enc, henc, (), Key.permits_iff.2 hpermits, sent, hsent, ciphertext, tag, hcontent,
      rfl, ?_, ?_, ?_⟩
    · exact Option.isSome_iff_exists.2 ⟨_, halg⟩
    · exact Option.isSome_iff_exists.2 ⟨_, hname⟩
    · intro u hu
      cases hu

/-- A token is decrypted exactly if its content was encrypted under the content key that the key
receives. -/
theorem decrypt_eq_ok_iff :
    t.decrypt key = .ok payload ↔
      ∃ alg enc, t.header.encryption = .ok (alg, enc) ∧
        key.Permits alg.name .encryption alg.receiveOperations ∧ t.iv.length = enc.ivBytes ∧
        ∃ contentKey, alg.receive enc key t.encryptedKey = .ok contentKey ∧
          enc.encrypt contentKey t.iv (Bytes.ofString t.segment) payload =
            .ok (t.ciphertext, t.tag) := by
  simp only [decrypt, bind_eq_ok_iff, Prod.exists]
  constructor
  · rintro ⟨alg, enc, henc, _, hpermits, h⟩
    split at h
    · cases h
    · next hiv =>
      obtain ⟨contentKey, hreceive, hcontent⟩ := bind_eq_ok_iff.1 h
      exact ⟨alg, enc, henc, Key.permits_iff.1 hpermits, Decidable.not_not.1 hiv, contentKey,
        hreceive, ContentEncryption.decrypt_eq_ok_iff.1 hcontent⟩
  · rintro ⟨alg, enc, henc, hpermits, hiv, contentKey, hreceive, hcontent⟩
    refine ⟨alg, enc, henc, (), Key.permits_iff.2 hpermits, ?_⟩
    rw [if_neg fun hne => hne hiv]
    exact bind_eq_ok_iff.2
      ⟨contentKey, hreceive, ContentEncryption.decrypt_eq_ok_iff.2 hcontent⟩

/-- A token just encrypted is decrypted, whatever else its header holds. -/
theorem decrypt_of_encrypt (h : encrypt payload key header random = .ok t)
    (hkey : key'.Receives key)
    (hpermits : ∀ alg, header.alg? = some (KeyManagement.name alg) →
      key'.Permits alg.name .encryption alg.receiveOperations)
    (hrsa : ∀ k, key'.rsaPrivate? = some k → k.Opens) (h' : Header)
    (hheader : ∀ alg enc, header.encryption = .ok (alg, enc) → h'.encryption = .ok (alg, enc)) :
    ({ t with header := h' } : EncryptedToken).decrypt key' = .ok payload := by
  obtain ⟨alg, enc, henc, -, sent, hsent, ciphertext, tag, hcontent, rfl⟩ := encrypt_eq_ok_iff.1 h
  obtain ⟨-, -, halg, -⟩ := Header.encryption_eq_ok_iff.1 henc
  exact decrypt_eq_ok_iff.2 ⟨alg, enc, hheader alg enc henc, hpermits alg halg,
    random.length_ivBytes _, sent.contentKey, KeyManagement.receive_of_send hsent hkey hrsa,
    hcontent⟩

/-- A text is decrypted exactly if it is read as an encrypted token that is decrypted. -/
theorem decryptText_eq_ok_iff {text : String} :
    decryptText text key = .ok payload ↔
      ∃ t, Token.ofText text = .ok (.encrypted t) ∧ t.decrypt key = .ok payload := by
  rw [decryptText, bind_eq_ok_iff]
  constructor
  · rintro ⟨t, ht, h⟩
    cases t with
    | signed t => cases h
    | encrypted t => exact ⟨t, ht, mapError_eq_ok_iff.1 h⟩
  · rintro ⟨t, ht, h⟩
    exact ⟨.encrypted t, ht, mapError_eq_ok_iff.2 h⟩

/-- What is decrypted is decrypted from a text that is read as the token. -/
theorem decryptText_of_ofText {text : String} (hof : Token.ofText text = .ok (.encrypted t))
    (h : t.decrypt key = .ok payload) : decryptText text key = .ok payload :=
  decryptText_eq_ok_iff.2 ⟨t, hof, h⟩

/-- A token just encrypted is written in every form, and read with the header that the text of its
header denotes. -/
theorem ofText_of_encrypt (h : encrypt payload key header random = .ok t)
    (hheader : header.Denotable) (form : Form) :
    ∃ text, t.text form = .ok text ∧
      Token.ofText text = .ok (.encrypted { t with header := header.reread }) := by
  obtain ⟨alg, enc, henc, -, sent, -, ciphertext, tag, -, rfl⟩ := encrypt_eq_ok_iff.1 h
  obtain ⟨-, -, halg, hname⟩ := Header.encryption_eq_ok_iff.1 (Header.encryption_reread henc)
  obtain ⟨hcrit, -⟩ := Header.encryption_eq_ok_iff.1 henc
  exact Token.ofText_reread
    (t := .encrypted ⟨header, header.encode, none, sent.encryptedKey, random.ivBytes enc.ivBytes,
      ciphertext, tag⟩)
    ⟨Option.isSome_iff_exists.2 ⟨_, halg⟩, Option.isSome_iff_exists.2 ⟨_, hname⟩, nofun⟩ rfl
    (Header.decode_encode_reread hheader hcrit) form

/-- The texts of a token just encrypted are decrypted. -/
theorem decryptText_of_encrypt (h : encrypt payload key header random = .ok t)
    (hkey : key'.Receives key)
    (hpermits : ∀ alg, header.alg? = some (KeyManagement.name alg) →
      key'.Permits alg.name .encryption alg.receiveOperations)
    (hrsa : ∀ k, key'.rsaPrivate? = some k → k.Opens) (hheader : header.Denotable) (form : Form) :
    ∃ text, t.text form = .ok text ∧ decryptText text key' = .ok payload := by
  have hread := decrypt_of_encrypt h hkey hpermits hrsa header.reread fun _ _ =>
    Header.encryption_reread
  obtain ⟨text, htext, hof⟩ := ofText_of_encrypt h hheader form
  exact ⟨text, htext, decryptText_of_ofText hof hread⟩

/-- What is encrypted for a key is decrypted by every key that receives what is sent to it, unless
that key is restricted otherwise; an RSA key is one that decrypts what is encrypted for it. Neither
the algorithms nor the random bytes matter. This holds of the token, and of its text in every form
if a reader can read its header. -/
theorem encrypts_and_decrypts (h : encrypt payload key header random = .ok t)
    (hkey : key'.Receives key)
    (hpermits : ∀ alg, header.alg? = some (KeyManagement.name alg) →
      key'.Permits alg.name .encryption alg.receiveOperations)
    (hrsa : ∀ k, key'.rsaPrivate? = some k → k.Opens) :
    t.decrypt key' = .ok payload ∧
      (header.Denotable → ∀ form, ∃ text, t.text form = .ok text ∧
        decryptText text key' = .ok payload) := by
  constructor
  · have hheader : t.header = header := by
      obtain ⟨-, -, -, -, -, -, -, -, -, rfl⟩ := encrypt_eq_ok_iff.1 h
      rfl
    have hdecrypted := decrypt_of_encrypt h hkey hpermits hrsa header fun _ _ h => h
    rw [← hheader] at hdecrypted
    exact hdecrypted
  · exact fun hheader form => decryptText_of_encrypt h hkey hpermits hrsa hheader form

/-- Random bytes that are all zero. -/
def noRandomness : Randomness :=
  ⟨fun n => .replicate n 0, fun n => .replicate n 0, fun n => .replicate n 0⟩

/-- An empty payload is encrypted for the public half of the key of two primes, and the key decrypts
the texts of the token. -/
theorem encrypts_and_decrypts_ofMersenne :
    ∃ key t, Key.ofMersenne.toPublic = .ok key ∧
      encrypt [] key (.encrypted .rsaOaep256 .a128Gcm) noRandomness = .ok t ∧
      t.decrypt .ofMersenne = .ok [] ∧
      ∀ form, ∃ text, t.text form = .ok text ∧ decryptText text .ofMersenne = .ok [] := by
  have hheader : (Header.encrypted .rsaOaep256 .a128Gcm).Denotable :=
    ⟨⟨(by decide : ["alg", "enc"].Nodup), trivial, trivial, trivial⟩,
      ⟨nofun, nofun, nofun, trivial⟩, by decide⟩
  let key : Key := ⟨.rsaPublic Rsa.PrivateKey.ofMersenne.toPublicKey (by decide +kernel), .none⟩
  have hpublic : key.rsaPublic? = some Rsa.PrivateKey.ofMersenne.toPublicKey := rfl
  obtain ⟨sent, hsent⟩ := KeyManagement.exists_send hpublic (.inl rfl) .a128Gcm noRandomness
  obtain ⟨ciphertext, tag, hcontent⟩ := ContentEncryption.exists_encrypt_eq_ok
    (KeyManagement.length_of_send hsent) (noRandomness.length_ivBytes _)
    (Bytes.ofString (Header.encrypted .rsaOaep256 .a128Gcm).encode) []
  have ht := encrypt_eq_ok_iff.2 ⟨.rsaOaep256, .a128Gcm, rfl, Key.permits_of_params rfl _ _ _,
    sent, hsent, ciphertext, tag, hcontent, rfl⟩
  obtain ⟨hdecrypt, htexts⟩ := encrypts_and_decrypts ht (.inr ⟨_, rfl, rfl⟩)
    (fun _ _ => Key.permits_of_params rfl _ _ _) fun k hk => (Key.sound_ofMersenne hk).opens
  exact ⟨key, _, rfl, ht, hdecrypt, htexts hheader⟩

end EncryptedToken

end WebToken
