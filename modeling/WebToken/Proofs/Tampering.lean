import WebToken.Proofs.CanonicalText
import WebToken.Proofs.Decryption
import WebToken.Proofs.Encryption
import WebToken.Proofs.Signing

/-!
# Replaced signatures and tags

The last segment of a compact text is the signature of a signed token or the tag of an encrypted
one. Under one key, what stands before it has one signature if the key is a shared secret, and one
tag in any case; and a segment is the one spelling of its bytes. So nothing else can stand there.

* `SignedToken.verify_of_ne_signature` and `EncryptedToken.decrypt_of_ne_tag` : a token that is
  accepted is refused with another signature or tag;
* `Token.replaced_authenticator_refused` : so is its text with another last segment, of whatever
  characters.
-/

namespace WebToken

/-! ## Tokens -/

/-- A token that a shared secret verifies is refused with another signature. -/
theorem SignedToken.verify_of_ne_signature {t : SignedToken} {key : Key} {payload : Bytes}
    (hkey : key.isSymmetric = true) (h : t.verify key = .ok payload) {signature : Bytes}
    (hne : signature ≠ t.signature) :
    ({ t with signature := signature } : SignedToken).verify key = .error .signatureMismatch := by
  obtain ⟨-, alg, halg, hpermits, hsigned⟩ := verify_eq_ok_iff.1 h
  have hhmac := hsigned.isHmac_eq.trans hkey
  rcases hsigned with ⟨-, secret, hsecret, hlong, haccepted⟩ | ⟨hrsa, -⟩
  · -- the signature is compared with the keyed hash, and there is only one
    have hkey' : key.IsSecretFor alg .verify secret := ⟨hhmac, hsecret, hlong, hpermits⟩
    refine (verify_of_secret (t := { t with signature := signature }) halg hkey').trans
      (if_neg fun hequal => ?_)
    exact hne (hequal.symm.trans haccepted.symm)
  · rw [hhmac] at hrsa
    cases hrsa

/-- A token that is decrypted is refused with another tag. -/
theorem EncryptedToken.decrypt_of_ne_tag {t : EncryptedToken} {key : Key} {content : Bytes}
    (h : t.decrypt key = .ok content) {tag : Bytes} (hne : tag ≠ t.tag) :
    ({ t with tag := tag } : EncryptedToken).decrypt key = .error .authenticationFailed := by
  obtain ⟨alg, enc, henc, hpermits, hiv, contentKey, hreceive, hcontent⟩ := decrypt_eq_ok_iff.1 h
  -- the tag belongs to the ciphertext, which is that of the token
  have htag := ContentEncryption.tag_eq_tagOf hcontent
  have hrefused : enc.decrypt contentKey t.iv (Bytes.ofString t.segment) t.ciphertext tag =
      .error .authenticationFailed :=
    ContentEncryption.decrypt_of_ne_tagOf (KeyManagement.length_of_receive_eq_ok hreceive) hiv
      (htag ▸ hne)
  simp only [decrypt, bind_eq_error_iff, Prod.exists]
  refine .inr ⟨alg, enc, henc, .inr ⟨(), Key.permits_iff.2 hpermits, ?_⟩⟩
  rw [if_neg fun hne => hne hiv]
  exact bind_eq_error_iff.2 (.inr ⟨contentKey, hreceive, hrefused⟩)

/-! ## Texts -/

/-- A last segment with which a text is read in as many segments as before is canonical. -/
theorem Token.isCanonical_of_replaced (front : List String) {last last' : String} {u : Token}
    (hparts : segments (".".intercalate (front ++ [last])) = front ++ [last])
    (h : ofCompact (".".intercalate (front ++ [last'])) = .ok u)
    (hlength : (segments (".".intercalate (front ++ [last']))).length = front.length + 1) :
    Base64Url.IsCanonical last' := by
  have hcompact := isCompact_segments h
  rw [segments_replaced front hparts] at hcompact hlength
  rw [List.length_append, Nat.add_left_cancel_iff] at hlength
  obtain ⟨s, hs⟩ := List.length_eq_one_iff.1 hlength
  rw [← eq_of_segments_eq_singleton hs]
  refine hcompact.isCanonical s ?_
  rw [hs]
  exact List.mem_append_right _ (List.mem_singleton_self s)

/-- A text in the compact form that is not read as a signed token is malformed. -/
theorem SignedToken.verifyText_of_not_signed {text : String} (hform : InCompactForm text)
    (h : ∀ t, Token.ofCompact text ≠ .ok (.signed t)) (key : Key) :
    ∃ fault, verifyText text key = .error (.malformedToken fault) := by
  unfold verifyText
  rw [hform.ofText_eq]
  cases hof : Token.ofCompact text with
  | error e =>
    obtain ⟨fault, rfl⟩ := Token.ofCompact_failsOnly _ e hof
    exact ⟨fault, rfl⟩
  | ok t =>
    cases t with
    | signed t => exact absurd hof (h t)
    | encrypted t => exact ⟨_, rfl⟩

/-- A text in the compact form that is not read as an encrypted token is malformed. -/
theorem EncryptedToken.decryptText_of_not_encrypted {text : String} (hform : InCompactForm text)
    (h : ∀ t, Token.ofCompact text ≠ .ok (.encrypted t)) (key : Key) :
    ∃ fault, decryptText text key = .error (.malformedToken fault) := by
  unfold decryptText
  rw [hform.ofText_eq]
  cases hof : Token.ofCompact text with
  | error e =>
    obtain ⟨fault, rfl⟩ := Token.ofCompact_failsOnly _ e hof
    exact ⟨fault, rfl⟩
  | ok t =>
    cases t with
    | signed t => exact ⟨_, rfl⟩
    | encrypted t => exact absurd hof (h t)

/-- The text of a signed token that a shared secret verifies is refused with another last
segment. -/
theorem SignedToken.verifyText_of_ne_last {key : Key} {a b c c' : String} {payload : Bytes}
    (hkey : key.isSymmetric = true) (hform : InCompactForm (".".intercalate [a, b, c]))
    (h : verifyText (".".intercalate [a, b, c]) key = .ok payload) (hne : c' ≠ c)
    (hblank : ∀ x ∈ c'.toList.getLast?, Text.isBlank x = false) :
    (Base64Url.IsCanonical c' →
      verifyText (".".intercalate [a, b, c']) key = .error .signatureMismatch) ∧
    (¬Base64Url.IsCanonical c' → ∃ fault,
      verifyText (".".intercalate [a, b, c']) key = .error (.malformedToken fault)) := by
  obtain ⟨t, ht, hverify⟩ := verifyText_eq_ok_iff.1 h
  rw [hform.ofText_eq] at ht
  obtain ⟨hs, hdecode, hnone, hconsistent⟩ := Token.ofCompact_eq_ok_signed_iff.1 ht
  have hparts : segments (".".intercalate [a, b, c]) = [a, b, c] :=
    segments_of_length (List.cons_ne_nil _ _) (by rw [hs]; rfl)
  have hform' : InCompactForm (".".intercalate [a, b, c']) :=
    hform.replace [a, b] (List.cons_ne_nil _ _) hblank
  constructor
  · intro hcanonical
    obtain ⟨signature, rfl⟩ := Base64Url.isCanonical_iff.1 hcanonical
    simp only [hparts, List.cons.injEq, and_true] at hs
    obtain ⟨ha, hb, hc⟩ := hs
    have ht' : Token.ofCompact (".".intercalate [a, b, Base64Url.encode signature]) =
        .ok (.signed { t with signature := signature }) := by
      refine Token.ofCompact_eq_ok_signed_iff.2 ⟨?_, hdecode, hnone, hconsistent⟩
      refine (segments_replaced [a, b] hparts _).trans ?_
      rw [segments_of_isCanonical hcanonical, ha, hb]
      rfl
    rw [verifyText_of_ofText (hform'.ofText_eq.trans ht')]
    refine verify_of_ne_signature hkey hverify ?_
    rintro rfl
    exact hne hc.symm
  · intro hnot
    refine verifyText_of_not_signed hform' (fun u hu => hnot ?_) key
    -- a signed token again has three segments
    have hlength := congrArg List.length (Token.ofCompact_eq_ok_signed_iff.1 hu).1
    exact Token.isCanonical_of_replaced [a, b] hparts hu hlength

/-- The text of an encrypted token that is decrypted is refused with another last segment. -/
theorem EncryptedToken.decryptText_of_ne_last {key : Key} {h e i c t t' : String} {content : Bytes}
    (hform : InCompactForm (".".intercalate [h, e, i, c, t]))
    (hok : decryptText (".".intercalate [h, e, i, c, t]) key = .ok content) (hne : t' ≠ t)
    (hblank : ∀ x ∈ t'.toList.getLast?, Text.isBlank x = false) :
    (Base64Url.IsCanonical t' →
      decryptText (".".intercalate [h, e, i, c, t']) key = .error .decryptionFailed) ∧
    (¬Base64Url.IsCanonical t' → ∃ fault,
      decryptText (".".intercalate [h, e, i, c, t']) key = .error (.malformedToken fault)) := by
  obtain ⟨u, hu, hdecrypt⟩ := decryptText_eq_ok_iff.1 hok
  rw [hform.ofText_eq] at hu
  obtain ⟨hs, hdecode, hnone, hconsistent⟩ := Token.ofCompact_eq_ok_encrypted_iff.1 hu
  have hparts : segments (".".intercalate [h, e, i, c, t]) = [h, e, i, c, t] :=
    segments_of_length (List.cons_ne_nil _ _) (by rw [hs]; rfl)
  have hform' : InCompactForm (".".intercalate [h, e, i, c, t']) :=
    hform.replace [h, e, i, c] (List.cons_ne_nil _ _) hblank
  constructor
  · intro hcanonical
    obtain ⟨tag, rfl⟩ := Base64Url.isCanonical_iff.1 hcanonical
    simp only [hparts, List.cons.injEq, and_true] at hs
    obtain ⟨hh, he, hi, hc, ht⟩ := hs
    have hu' : Token.ofCompact (".".intercalate [h, e, i, c, Base64Url.encode tag]) =
        .ok (.encrypted { u with tag := tag }) := by
      refine Token.ofCompact_eq_ok_encrypted_iff.2 ⟨?_, hdecode, hnone, hconsistent⟩
      refine (segments_replaced [h, e, i, c] hparts _).trans ?_
      rw [segments_of_isCanonical hcanonical, hh, he, hi, hc]
      rfl
    refine decryptText_of_decrypt_eq_error (decrypt_of_ne_tag hdecrypt ?_)
      (hform'.ofText_eq.trans hu')
    rintro rfl
    exact hne ht.symm
  · intro hnot
    refine decryptText_of_not_encrypted hform' (fun u' hu' => hnot ?_) key
    -- an encrypted token again has five segments
    have hlength := congrArg List.length (Token.ofCompact_eq_ok_encrypted_iff.1 hu').1
    exact Token.isCanonical_of_replaced [h, e, i, c] hparts hu' hlength

namespace Token

/-- The last segment of a compact text cannot be replaced. Let a text stand in the compact form, and
let a shared secret verify it, or any key decrypt it. With another last segment, of whatever
characters, it is refused: if the segment is canonical, because the signature or the tag is not the
right one, and otherwise as malformed. A segment that ends in blanks is left out, since blanks at
the end of a text do not count. -/
theorem replaced_authenticator_refused (key : Key) :
    (∀ a b c c' payload, key.isSymmetric = true → InCompactForm (".".intercalate [a, b, c]) →
      verifyText (".".intercalate [a, b, c]) key = .ok payload → c' ≠ c →
      (∀ x ∈ c'.toList.getLast?, Text.isBlank x = false) →
      (Base64Url.IsCanonical c' →
        verifyText (".".intercalate [a, b, c']) key = .error .signatureMismatch) ∧
      (¬Base64Url.IsCanonical c' → ∃ fault,
        verifyText (".".intercalate [a, b, c']) key = .error (.malformedToken fault))) ∧
    (∀ h e i c t t' content, InCompactForm (".".intercalate [h, e, i, c, t]) →
      decryptText (".".intercalate [h, e, i, c, t]) key = .ok content → t' ≠ t →
      (∀ x ∈ t'.toList.getLast?, Text.isBlank x = false) →
      (Base64Url.IsCanonical t' →
        decryptText (".".intercalate [h, e, i, c, t']) key = .error .decryptionFailed) ∧
      (¬Base64Url.IsCanonical t' → ∃ fault,
        decryptText (".".intercalate [h, e, i, c, t']) key = .error (.malformedToken fault))) := by
  constructor
  · intro a b c c' payload hkey hform h hne hblank
    exact SignedToken.verifyText_of_ne_last hkey hform h hne hblank
  · intro h e i c t t' content hform hok hne hblank
    exact EncryptedToken.decryptText_of_ne_last hform hok hne hblank

/-- An empty payload is signed with one secret of zeros and encrypted under another. The texts are
refused without their last segments, and with padding in place of them. -/
theorem replaced_authenticator_refused_empty :
    (∃ a b c, verifyText (".".intercalate [a, b, c]) (.ofZeros 32 (by decide)) = .ok [] ∧
      verifyText (".".intercalate [a, b, ""]) (.ofZeros 32 (by decide)) =
        .error .signatureMismatch ∧
      ∃ fault, verifyText (".".intercalate [a, b, "="]) (.ofZeros 32 (by decide)) =
        .error (.malformedToken fault)) ∧
    ∃ h e i c t, decryptText (".".intercalate [h, e, i, c, t]) EncryptedToken.zeroKey = .ok [] ∧
      decryptText (".".intercalate [h, e, i, c, ""]) EncryptedToken.zeroKey =
        .error .decryptionFailed ∧
      ∃ fault, decryptText (".".intercalate [h, e, i, c, "="]) EncryptedToken.zeroKey =
        .error (.malformedToken fault) := by
  have hempty : Base64Url.IsCanonical "" := Base64Url.isCanonical_encode []
  have hblank : ∀ x ∈ "".toList.getLast?, Text.isBlank x = false := nofun
  have hblank' : ∀ x ∈ "=".toList.getLast?, Text.isBlank x = false := by
    rintro _ ⟨⟩
    decide
  have hpad : ∀ bytes, "=" ≠ Base64Url.encode bytes := fun bytes h =>
    Base64Url.not_isCanonical_pad (Base64Url.isCanonical_iff.2 ⟨bytes, h⟩)
  constructor
  · obtain ⟨hrefused, -⟩ := replaced_authenticator_refused (.ofZeros 32 (by decide))
    have hverify := SignedToken.verifyText_of_secret [] (Header.denotable_signed .hs256) rfl rfl
      (Key.isSecretFor_ofZeros .hs256 32 (by decide) rfl (by decide))
    have hform : ∀ signature, InCompactForm (".".intercalate
        [(Header.signed .hs256).encode, Base64Url.encode [], Base64Url.encode signature]) :=
      fun signature => inCompactForm_compactText [Bytes.ofString (Header.signed .hs256).json, [],
        signature]
    have hne : ∀ secret message,
        "" ≠ Base64Url.encode (SignatureAlgorithm.hs256.hash.hmac secret message) := by
      intro secret message
      refine (Base64Url.encode_ne_empty ?_).symm
      rw [Crypto.Hash.length_hmac]
      decide
    exact ⟨_, _, _, hverify,
      (hrefused _ _ _ "" [] rfl (hform _) hverify (hne _ _) hblank).1 hempty,
      (hrefused _ _ _ "=" [] rfl (hform _) hverify (hpad _) hblank').2
        Base64Url.not_isCanonical_pad⟩
  · obtain ⟨-, hrefused⟩ := replaced_authenticator_refused EncryptedToken.zeroKey
    obtain ⟨ciphertext, tag, hcontent⟩ : ∃ ciphertext tag,
        ContentEncryption.encrypt .a128Gcm (List.replicate 16 0)
          (EncryptedToken.noRandomness.ivBytes 12)
          (Bytes.ofString (Header.encrypted .direct .a128Gcm).encode) [] = .ok (ciphertext, tag) :=
      ContentEncryption.exists_encrypt_eq_ok rfl rfl _ _
    have ht : EncryptedToken.encrypt [] EncryptedToken.zeroKey (.encrypted .direct .a128Gcm)
        EncryptedToken.noRandomness = .ok _ :=
      EncryptedToken.encrypt_eq_ok_iff.2 ⟨.direct, .a128Gcm, rfl, Key.permits_of_params rfl _ _ _,
        ⟨List.replicate 16 0, []⟩, rfl, ciphertext, tag, hcontent, rfl⟩
    obtain ⟨text, htext, hdecrypt⟩ := EncryptedToken.decryptText_of_encrypt ht
      (Key.receives_self rfl) (fun _ _ => Key.permits_of_params rfl _ _ _) nofun
      (Header.denotable_encrypted .direct .a128Gcm) .compact
    cases htext
    have hform := inCompactForm_compactText [Bytes.ofString (Header.encrypted .direct .a128Gcm).json,
      [], EncryptedToken.noRandomness.ivBytes 12, ciphertext, tag]
    have hlength : tag.length ≠ 0 := by
      rw [ContentEncryption.tag_eq_tagOf hcontent, ContentEncryption.length_tagOf]
      decide
    have hne := (Base64Url.encode_ne_empty hlength).symm
    exact ⟨_, _, _, _, _, hdecrypt,
      (hrefused _ _ _ _ _ "" [] hform hdecrypt hne hblank).1 hempty,
      (hrefused _ _ _ _ _ "=" [] hform hdecrypt (hpad _) hblank').2
        Base64Url.not_isCanonical_pad⟩

end Token

end WebToken
