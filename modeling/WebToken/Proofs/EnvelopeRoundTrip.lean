import WebToken.Proofs.Authentication

/-!
# Envelopes give their values back

A value is written as JSON, signed, written as a flattened token, encrypted and written as a
flattened token again. Whoever reads the envelope undoes these steps from the last to the first: the
outer text is read as the encrypted token, the recipient finds the inner text, it is read as the
signed token, the sender is found to have signed it, and its payload denotes the value.

* `Envelope.write_eq_ok_iff` : the two tokens of an envelope;
* `Envelope.value_round_trip` : writing an envelope and reading it.
-/

namespace WebToken

namespace Envelope

variable {profile : Profile} {value : Json.Value} {sender recipient : Key} {senderId : String}
  {random : Randomness} {text : String}

/-! ## Headers -/

/-- The header of the token inside an envelope. -/
def signedHeader (profile : Profile) (sender : Key) (senderId : String) : Header :=
  (Header.signed (profile.signingAlgorithm sender.isSymmetric)).withKid senderId

/-- The header of an envelope. -/
def encryptedHeader (profile : Profile) (alg : KeyManagement) (senderId : String) : Header :=
  ((Header.encrypted alg profile.contentEncryption).withCty contentType).withKid senderId

theorem isPlain_signedHeader : (signedHeader profile sender senderId).IsPlain :=
  (Header.isPlain_signed _).insert _ _

theorem isPlain_encryptedHeader {alg : KeyManagement} :
    (encryptedHeader profile alg senderId).IsPlain :=
  ((Header.isPlain_encrypted _ _).insert _ _).insert _ _

/-- The algorithm for a shared secret wraps under keys of its length. -/
theorem wrappingKeyBytes?_of_keyManagementFor {alg : KeyManagement} {secret : Bytes}
    (hsecret : recipient.secret? = some secret) (h : keyManagementFor profile recipient = .ok alg) :
    alg.wrappingKeyBytes? = some secret.length := by
  unfold keyManagementFor KeyManagement.forSharedKey at h
  rw [hsecret] at h
  simp only at h
  split at h
  · next alg' halg =>
    cases h
    exact KeyManagement.wrappingKeyBytes?_of_ofKeyBytes? halg
  · cases h

/-! ## Writing and reading -/

/-- An envelope is the text of a token in which the text of another one is encrypted. -/
theorem write_eq_ok_iff :
    write profile value sender recipient senderId random = .ok text ↔
      ∃ signed alg encrypted,
        SignedToken.sign value.encode sender (signedHeader profile sender senderId) = .ok signed ∧
        keyManagementFor profile recipient = .ok alg ∧
        EncryptedToken.encrypt (Bytes.ofString signed.flattened.text) recipient
          (encryptedHeader profile alg senderId) random = .ok encrypted ∧
        encrypted.flattened.text = text := by
  simp only [write, bind_eq_ok_iff]
  constructor
  · rintro ⟨signed, hsign, alg, halg, encrypted, hencrypt, htext⟩
    exact ⟨signed, alg, encrypted, hsign, halg, hencrypt, Except.ok.inj htext⟩
  · rintro ⟨signed, alg, encrypted, hsign, halg, hencrypt, htext⟩
    exact ⟨signed, hsign, alg, halg, encrypted, hencrypt, congrArg Except.ok htext⟩

/-- The text of a signed token in an envelope is read as the token. -/
theorem ofText_signed {payload : Bytes} {signed : SignedToken}
    (h : SignedToken.sign payload sender (signedHeader profile sender senderId) = .ok signed) :
    Token.ofText signed.flattened.text =
      .ok (.signed { signed with header := signedHeader profile sender senderId }) := by
  obtain ⟨text, htext, hof⟩ := SignedToken.ofText_of_sign h isPlain_signedHeader.denotable
    .flattened
  rw [isPlain_signedHeader.reread] at hof
  rw [Except.ok.inj htext]
  exact hof

/-- The text of an envelope is read as the encrypted token. -/
theorem ofText_encrypted {payload : Bytes} {alg : KeyManagement} {encrypted : EncryptedToken}
    (h : EncryptedToken.encrypt payload recipient (encryptedHeader profile alg senderId) random =
      .ok encrypted) :
    Token.ofText encrypted.flattened.text =
      .ok (.encrypted { encrypted with header := encryptedHeader profile alg senderId }) := by
  obtain ⟨text, htext, hof⟩ := EncryptedToken.ofText_of_encrypt h isPlain_encryptedHeader.denotable
    .flattened
  rw [isPlain_encryptedHeader.reread] at hof
  rw [Except.ok.inj htext]
  exact hof

/-- An envelope is written by a sender with a secret, if the content key can be sent. -/
theorem exists_write {alg : KeyManagement} {secret : Bytes} {sent : SentKey}
    (hsender : sender.IsSecretFor (profile.signingAlgorithm sender.isSymmetric) .sign secret)
    (halg : keyManagementFor profile recipient = .ok alg)
    (hpermits : recipient.Permits alg.name .encryption alg.sendOperations)
    (hsend : alg.send profile.contentEncryption recipient random = .ok sent) :
    ∃ text, write profile value sender recipient senderId random = .ok text := by
  have hsign : SignedToken.sign value.encode sender (signedHeader profile sender senderId) =
      .ok _ := SignedToken.sign_of_secret rfl rfl hsender
  have hencryption : (encryptedHeader profile alg senderId).encryption =
      .ok (alg, profile.contentEncryption) :=
    Header.encryption_eq_ok_iff.2 ⟨rfl, rfl, rfl, rfl⟩
  obtain ⟨ciphertext, tag, hcontent⟩ := ContentEncryption.exists_encrypt_eq_ok
    (KeyManagement.length_of_send hsend) (random.length_ivBytes _)
    (Bytes.ofString (encryptedHeader profile alg senderId).encode) _
  exact ⟨_, write_eq_ok_iff.2 ⟨_, alg, _, hsign, halg, EncryptedToken.encrypt_eq_ok_iff.2
    ⟨alg, profile.contentEncryption, hencryption, hpermits, sent, hsend, ciphertext, tag, hcontent,
      rfl⟩, rfl⟩⟩

/-- What is written in an envelope is read from it by every recipient who receives what is sent to
the one it was written for, with every key that verifies for the sender, unless one of the two is
restricted otherwise; a private RSA key is one that opens what is encrypted for it. The value holds
no double and is nested no deeper than a reader goes. The envelope is an encrypted token whose header
names the type of the content and the sender and, for a shared secret, the algorithm that wraps under
keys of its length. -/
theorem value_round_trip (hw : value.WellFormed) (hf : value.FloatFree)
    (hd : value.depth ≤ Json.Document.maxDepth)
    (h : write profile value sender recipient senderId random = .ok text) :
    (∀ recipient' sender' : Key,
      recipient'.Receives recipient → (∀ k, recipient'.rsaPrivate? = some k → k.Opens) →
      (∀ alg, keyManagementFor profile recipient = .ok alg →
        recipient'.Permits alg.name .encryption alg.receiveOperations) →
      sender'.VerifiesFor sender →
      sender'.Permits (profile.signingAlgorithm sender.isSymmetric).name .signature [.verify] →
      read text recipient' sender' = .ok value) ∧
    ∃ t, Token.ofText text = .ok (.encrypted t) ∧
      t.header.get? "cty" = some (.string "JOSE+JSON") ∧
      t.header.get? "kid" = some (.string senderId) ∧
      ∀ secret, recipient.secret? = some secret →
        ∃ alg : KeyManagement, t.header.get? "alg" = some (.string alg.name) ∧
          alg.wrappingKeyBytes? = some secret.length := by
  obtain ⟨signed, alg, encrypted, hsign, halg, hencrypt, rfl⟩ := write_eq_ok_iff.1 h
  have houter := ofText_encrypted hencrypt
  constructor
  · -- the layers are undone from the outer token to the payload of the inner one
    intro recipient' sender' hreceives hrsa hpermits hverifies hpermits'
    have hdecrypt := EncryptedToken.decrypt_of_encrypt hencrypt hreceives
      (fun alg' halg' => by
        obtain rfl := KeyManagement.name_injective (Option.some.inj halg')
        exact hpermits alg halg) hrsa (encryptedHeader profile alg senderId) fun _ _ h => h
    have hverify := SignedToken.verify_of_verifiesFor hsign hverifies
      (fun alg' halg' => by
        rw [← Option.some.inj halg']
        exact hpermits') (signedHeader profile sender senderId) rfl
    exact read_eq_ok_iff.2 ⟨_, _, _, _, _, houter, rfl, hdecrypt, Bytes.toString?_ofString _,
      ofText_signed hsign, hverify, Json.parse_encode hw hf hd⟩
  · exact ⟨_, houter, rfl, rfl, fun secret hsecret =>
      ⟨alg, rfl, wrappingKeyBytes?_of_keyManagementFor hsecret halg⟩⟩

/-- A value with characters that are escaped or not of one byte. -/
def sampleValue : Json.Value := .object [("\"", .integer (-1)), ("é", .array [.null, .bool true])]

/-- The value comes back from an envelope for a shared secret, under which the content key is
wrapped, and from one for the public half of the key of two primes. -/
theorem value_round_trip_sample :
    (∃ text t, write .standard sampleValue (.ofZeros 32 (by decide)) EncryptedToken.zeroKey "é\n"
        EncryptedToken.noRandomness = .ok text ∧
      read text EncryptedToken.zeroKey (.ofZeros 32 (by decide)) = .ok sampleValue ∧
      Token.ofText text = .ok (.encrypted t) ∧
      t.header.get? "alg" = some (.string KeyManagement.a128Kw.name)) ∧
    ∃ recipient text, Key.ofMersenne.toPublic = .ok recipient ∧
      write .standard sampleValue (.ofZeros 32 (by decide)) recipient "é\n"
        EncryptedToken.noRandomness = .ok text ∧
      read text .ofMersenne (.ofZeros 32 (by decide)) = .ok sampleValue := by
  have hw : sampleValue.WellFormed :=
    ⟨(by decide : ["\"", "é"].Nodup), ⟨by decide, by decide⟩, ⟨trivial, trivial, trivial, trivial⟩,
      trivial⟩
  have hf : sampleValue.FloatFree := ⟨nofun, nofun, ⟨nofun, nofun, nofun, trivial⟩, trivial⟩
  have hsender (operation : KeyOperation) : (Key.ofZeros 32 (by decide)).IsSecretFor
      (Profile.standard.signingAlgorithm (Key.ofZeros 32 (by decide)).isSymmetric) operation
      (List.replicate 32 0) :=
    Key.isSecretFor_ofZeros .hs256 32 (by decide) rfl (by decide) operation
  have hverifies := (Key.ofZeros 32 (by decide)).verifiesFor_self
  have hpermits (key : Key) (hparams : key.params = .none) (alg : KeyManagement)
      (operations : List KeyOperation) : key.Permits alg.name .encryption operations :=
    Key.permits_of_params hparams _ _ _
  constructor
  · have hsecret : EncryptedToken.zeroKey.secret? = some (List.replicate 16 0) := rfl
    have halg : keyManagementFor .standard EncryptedToken.zeroKey = .ok .a128Kw := rfl
    have hsent : ∃ sent, KeyManagement.a128Kw.send Profile.standard.contentEncryption
        EncryptedToken.zeroKey EncryptedToken.noRandomness = .ok sent :=
      KeyManagement.exists_send_of_wrappingKeyBytes? hsecret rfl _ _
    obtain ⟨sent, hsend⟩ := hsent
    have hwritten : ∃ text, write .standard sampleValue (.ofZeros 32 (by decide))
        EncryptedToken.zeroKey "é\n" EncryptedToken.noRandomness = .ok text :=
      exists_write (hsender .sign) halg (hpermits _ rfl _ _) hsend
    obtain ⟨text, hwrite⟩ := hwritten
    obtain ⟨hread, t, hof, -, -, hwraps⟩ := value_round_trip hw hf (by decide) hwrite
    obtain ⟨alg, hname, hbytes⟩ := hwraps _ hsecret
    have hwrapping : alg = .a128Kw := by
      cases alg <;> first | rfl | cases hbytes
    rw [hwrapping] at hname
    exact ⟨text, t, hwrite, hread _ _ (Key.receives_self rfl) nofun
      (fun _ _ => hpermits _ rfl _ _) hverifies (hsender .verify).permits, hof, hname⟩
  · let recipient : Key :=
      ⟨.rsaPublic Crypto.Rsa.PrivateKey.ofMersenne.toPublicKey (by decide +kernel), .none⟩
    have hpublic : recipient.rsaPublic? = some Crypto.Rsa.PrivateKey.ofMersenne.toPublicKey := rfl
    have halg : keyManagementFor .standard recipient = .ok .rsaOaep256 := rfl
    have hsent : ∃ sent, KeyManagement.rsaOaep256.send Profile.standard.contentEncryption
        recipient EncryptedToken.noRandomness = .ok sent :=
      KeyManagement.exists_send hpublic (.inl rfl) _ _
    obtain ⟨sent, hsend⟩ := hsent
    have hwritten : ∃ text, write .standard sampleValue (.ofZeros 32 (by decide)) recipient
        "é\n" EncryptedToken.noRandomness = .ok text :=
      exists_write (hsender .sign) halg (hpermits _ rfl _ _) hsend
    obtain ⟨text, hwrite⟩ := hwritten
    have hread := (value_round_trip hw hf (by decide) hwrite).1
    exact ⟨recipient, text, rfl, hwrite, hread _ _ (.inr ⟨_, rfl, hpublic⟩)
      (fun k hk => (Key.sound_ofMersenne hk).opens) (fun _ _ => hpermits _ rfl _ _)
      hverifies (hsender .verify).permits⟩

end Envelope

end WebToken
