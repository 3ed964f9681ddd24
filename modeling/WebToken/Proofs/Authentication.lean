import WebToken.Proofs.Failures
import WebToken.Proofs.Jwt

/-!
# Nothing is looked at before it is authenticated

The claims of a web token, and the value in an envelope, are looked at only after every token that
they stand in was verified or decrypted. So what is given back was authenticated, and what is wrong
with a content that was not never shows.

* `Jwt.claims_after_authentication` : verifying and decrypting web tokens;
* `Envelope.read_eq_ok_iff` : what stands in an envelope that is read;
* `Envelope.read_authentic_or_hidden` : reading envelopes, and what is shown when it fails.
-/

namespace WebToken

/-! ## Web tokens -/

namespace JwtKind

theorem ofText_failsOnly (text : String) : FailsOnly Error.IsMalformedToken (ofText text) := by
  unfold ofText
  split
  · exact .ok _
  · exact .ok _
  · exact .error ⟨_, rfl⟩

end JwtKind

namespace Jwt

variable {text : String} {key : Key} {v : Validation} {now : Int64} {c : Claims}

/-- Whether a text is a signed token, and has the points of one. -/
def IsSigned (text : String) : Prop :=
  JwtKind.ofText text = .ok .signed ∧ ∃ t, Token.ofText text = .ok (.signed t)

/-- Whether a text is an encrypted token, and has the points of one. -/
def IsEncrypted (text : String) : Prop :=
  JwtKind.ofText text = .ok .encrypted ∧ ∃ t, Token.ofText text = .ok (.encrypted t)

theorem accept_eq_ok_iff {content : Bytes} :
    accept content v now = .ok c ↔ Claims.ofBytes content = .ok c ∧ v.validateAt c now = .ok () := by
  simp only [accept, bind_eq_ok_iff]
  constructor
  · rintro ⟨c', hclaims, _, hvalid, h⟩
    cases h
    exact ⟨hclaims, hvalid⟩
  · rintro ⟨hclaims, hvalid⟩
    exact ⟨c, hclaims, (), hvalid, rfl⟩

/-- A signed token is verified as a text is, and then its claims are looked at. -/
theorem verify_of_isSigned (h : IsSigned text) :
    verify text key v now = verifyText text key >>= fun payload => accept payload v now := by
  obtain ⟨hkind, t, ht⟩ := h
  unfold verify verifyText
  rw [hkind, ht]
  rfl

/-- An encrypted token is decrypted as a text is, and then its claims are looked at. -/
theorem decrypt_of_isEncrypted (h : IsEncrypted text) :
    decrypt text key v now = decryptText text key >>= fun content => accept content v now := by
  obtain ⟨hkind, t, ht⟩ := h
  unfold decrypt decryptText
  rw [hkind, ht]
  rfl

/-- Any other text is malformed. -/
theorem exists_fault_of_not_isSigned (h : ¬IsSigned text) :
    ∃ fault, verify text key v now = .error (.malformedToken fault) := by
  refine exists_fault_bind (JwtKind.ofText_failsOnly text) fun kind hkind => ?_
  cases kind with
  | encrypted => exact ⟨_, rfl⟩
  | signed =>
    refine exists_fault_bind (Token.ofText_failsOnly text) fun t ht => ?_
    cases t with
    | signed t => exact absurd ⟨hkind, t, ht⟩ h
    | encrypted t => exact ⟨_, rfl⟩

theorem exists_fault_of_not_isEncrypted (h : ¬IsEncrypted text) :
    ∃ fault, decrypt text key v now = .error (.malformedToken fault) := by
  refine exists_fault_bind (JwtKind.ofText_failsOnly text) fun kind hkind => ?_
  cases kind with
  | signed => exact ⟨_, rfl⟩
  | encrypted =>
    refine exists_fault_bind (Token.ofText_failsOnly text) fun t ht => ?_
    cases t with
    | signed t => exact ⟨_, rfl⟩
    | encrypted t => exact absurd ⟨hkind, t, ht⟩ h

/-- Whether the claims of a text are looked at only after it was opened, that is, verified or
decrypted. -/
structure OpensFirst (ofKind : Prop) (opened : Except Error Bytes)
    (accepts : Validation → Int64 → Except Error Claims) : Prop where
  /-- Claims that are accepted stand in what was opened. -/
  accepted : ∀ v now c, accepts v now = .ok c →
    ∃ content, opened = .ok content ∧ Claims.ofBytes content = .ok c ∧ v.validateAt c now = .ok ()
  /-- Claims are refused only if they stand in what was opened. -/
  refused : ∀ v now fault, accepts v now = .error (.invalidClaims fault) →
    ∃ content, opened = .ok content ∧ accept content v now = .error (.invalidClaims fault)
  /-- A text of the right kind that is not opened fails as it does when it is opened, whatever is
  asked of its claims. -/
  unopened : ofKind → ∀ e, opened = .error e → ∀ v now, accepts v now = .error e

/-- Claims are looked at last if a text of the right kind is opened first, any other is malformed,
and opening does not fail as claims do. -/
theorem OpensFirst.of_steps {ofKind : Prop} {opened : Except Error Bytes}
    {accepts : Validation → Int64 → Except Error Claims}
    (hkind : ofKind → ∀ v now, accepts v now = opened >>= fun content => accept content v now)
    (hother : ¬ofKind → ∀ v now, ∃ fault, accepts v now = .error (.malformedToken fault))
    (hopened : ∀ fault, opened ≠ .error (.invalidClaims fault)) :
    OpensFirst ofKind opened accepts where
  accepted := by
    intro v now c h
    by_cases hof : ofKind
    · rw [hkind hof, bind_eq_ok_iff] at h
      obtain ⟨content, hcontent, haccept⟩ := h
      exact ⟨content, hcontent, accept_eq_ok_iff.1 haccept⟩
    · obtain ⟨fault, hfault⟩ := hother hof v now
      rw [hfault] at h
      cases h
  refused := by
    intro v now fault h
    by_cases hof : ofKind
    · rw [hkind hof, bind_eq_error_iff] at h
      exact h.resolve_left (hopened fault)
    · obtain ⟨fault', hfault⟩ := hother hof v now
      rw [hfault] at h
      cases h
  unopened := by
    intro hof e h v now
    rw [hkind hof, h]
    rfl

theorem verify_opensFirst (text : String) (key : Key) :
    OpensFirst (IsSigned text) (verifyText text key) (verify text key) := by
  refine .of_steps (fun h _ _ => verify_of_isSigned h)
    (fun h _ _ => exists_fault_of_not_isSigned h) fun fault h => ?_
  rcases verifyText_failsOnly text key _ h with hrefusal | hmismatch
  · cases hrefusal
  · cases hmismatch

theorem decrypt_opensFirst (text : String) (key : Key) :
    OpensFirst (IsEncrypted text) (decryptText text key) (decrypt text key) := by
  refine .of_steps (fun h _ _ => decrypt_of_isEncrypted h)
    (fun h _ _ => exists_fault_of_not_isEncrypted h) fun fault h => ?_
  rcases decryptText_failsOnly text key _ h with hrefusal | hfailed
  · cases hrefusal
  · cases hfailed

/-- What is wrong with the claims of a content are invalid claims. -/
theorem accept_failsOnly (content : Bytes) (v : Validation) (now : Int64) :
    FailsOnly (fun e => ∃ fault, e = .invalidClaims fault) (accept content v now) := by
  refine .bind (.mapError (fun _ => ⟨_, rfl⟩) _) fun c => .bind ?_ fun _ => .ok _
  unfold Validation.validateAt
  split
  · exact .error ⟨_, rfl⟩
  · exact .ok _

/-- No step of decryption is told from the others. -/
theorem decrypt_failsOnly : FailsOnly (fun e => ¬e.IsDecryptionStep) (decrypt text key v now) := by
  refine .bind ((JwtKind.ofText_failsOnly text).mono fun _ h => h.isRefusal.not_isDecryptionStep)
    fun kind => ?_
  cases kind with
  | signed => exact .error nofun
  | encrypted =>
    refine .bind ((Token.ofText_failsOnly text).mono fun _ h => h.isRefusal.not_isDecryptionStep)
      fun t => ?_
    cases t with
    | signed t => exact .error nofun
    | encrypted t =>
      refine .bind ((t.decryptHidden_failsOnly key).mono ?_) fun content =>
        (accept_failsOnly content v now).mono ?_
      · rintro e (hrefusal | rfl)
        · exact hrefusal.not_isDecryptionStep
        · exact nofun
      · rintro _ ⟨fault, rfl⟩
        exact nofun

/-- The claims of a web token are looked at only after it was verified or decrypted: accepted claims
were authenticated, claims are refused only if they were authenticated, and a token of the right
kind that was not fails as its text does, whatever is asked of its claims. A step of decryption that
fails is shown as a failure to decrypt, and in no other way. -/
theorem claims_after_authentication (text : String) (key : Key) :
    OpensFirst (IsSigned text) (verifyText text key) (verify text key) ∧
    OpensFirst (IsEncrypted text) (decryptText text key) (decrypt text key) ∧
    (∀ t e, Token.ofText text = .ok (.encrypted t) → t.decrypt key = .error e →
      e.IsDecryptionStep → decryptText text key = .error .decryptionFailed) ∧
    (∀ e : Error, e.IsDecryptionStep →
      decryptText text key ≠ .error e ∧ ∀ v now, decrypt text key v now ≠ .error e) := by
  refine ⟨verify_opensFirst text key, decrypt_opensFirst text key, ?_, ?_⟩
  · intro t e ht hdecrypt hstep
    rw [EncryptedToken.decryptText_of_decrypt_eq_error hdecrypt ht, hstep.hidden]
  · intro e hstep
    refine ⟨fun h => ?_, fun v now h => decrypt_failsOnly e h hstep⟩
    rcases decryptText_failsOnly text key e h with hrefusal | rfl
    · exact hrefusal.not_isDecryptionStep hstep
    · cases hstep

/-- A token without a signature, with claims that expired in 1970. -/
def forgedToken : SignedToken :=
  ⟨.signed .hs256, "eyJhbGciOiJIUzI1NiJ9", none, Bytes.ofString "\x7b\"exp\":0\x7d", []⟩

/-- The token in its compact form. -/
def forgedText : String := "eyJhbGciOiJIUzI1NiJ9.eyJleHAiOjB9."

theorem ofText_forgedText : Token.ofText forgedText = .ok (.signed forgedToken) := by cbv

/-- A keyed hash is never empty. -/
theorem verify_forgedToken :
    forgedToken.verify (.ofZeros 32 (by decide)) = .error .signatureMismatch := by
  have hkey := Key.isSecretFor_ofZeros .hs256 32 (by decide) rfl (by decide) .verify
  refine (SignedToken.verify_of_secret rfl hkey).trans (if_neg fun h => ?_)
  have hlength := congrArg List.length h
  rw [Crypto.Hash.length_hmac] at hlength
  cases hlength

/-- The compact form of an encrypted token without a tag. -/
def untaggedText : String := "eyJhbGciOiJkaXIiLCJlbmMiOiJBMTI4R0NNIn0..AAAAAAAAAAAAAAAA.."

theorem ofText_untaggedText :
    Token.ofText untaggedText = .ok (.encrypted (.directToken [] [])) := by cbv

/-- A forged token whose claims expired is refused for its signature, and a token without a tag for a
failure to decrypt, whatever is asked of the claims. -/
theorem claims_after_authentication_forged :
    (∀ v now, verify forgedText (.ofZeros 32 (by decide)) v now = .error .signatureMismatch) ∧
    ∀ v now, decrypt untaggedText EncryptedToken.zeroKey v now = .error .decryptionFailed := by
  constructor
  · have hkind : JwtKind.ofText forgedText = .ok .signed := by cbv
    have hopened := (SignedToken.verifyText_of_ofText ofText_forgedText _).trans verify_forgedToken
    obtain ⟨hopens, -⟩ := claims_after_authentication forgedText (.ofZeros 32 (by decide))
    exact hopens.unopened ⟨hkind, _, ofText_forgedText⟩ _ hopened
  · have hkind : JwtKind.ofText untaggedText = .ok .encrypted := by cbv
    obtain ⟨-, hopens, hstep, -⟩ := claims_after_authentication untaggedText EncryptedToken.zeroKey
    have hopened := hstep _ .authenticationFailed ofText_untaggedText rfl .authenticationFailed
    exact hopens.unopened ⟨hkind, _, ofText_untaggedText⟩ _ hopened

end Jwt

/-! ## Envelopes -/

namespace Envelope

variable {text : String} {recipient sender : Key} {content : Bytes} {value : Json.Value}

/-- The value in a content that is the text of a token signed by a sender. -/
def openContent (content : Bytes) (sender : Key) : Except Error Json.Value := do
  match Bytes.toString? content with
  | none => .error (.malformedToken .envelopeNotText)
  | some inner =>
    match ← Token.ofText inner with
    | .encrypted _ => .error (.malformedToken .envelopeNotSigned)
    | .signed t =>
      let payload ← (t.verify sender).mapError hideSignature
      (Json.parse payload).mapError fun fault => .malformedToken (.envelopePayload fault)

/-- An envelope is decrypted before its content is looked at. -/
theorem read_of_ofText {outer : EncryptedToken} (hof : Token.ofText text = .ok (.encrypted outer))
    (hcty : outer.header.cty? = some contentType) :
    read text recipient sender =
      outer.decryptHidden recipient >>= fun content => openContent content sender := by
  unfold read
  rw [hof]
  exact if_neg fun hne => hne hcty

/-- Any other text is malformed. -/
theorem exists_fault_of_not_envelope
    (h : ¬∃ outer, Token.ofText text = .ok (.encrypted outer) ∧
      outer.header.cty? = some contentType) :
    ∃ fault, read text recipient sender = .error (.malformedToken fault) := by
  refine exists_fault_bind (Token.ofText_failsOnly text) fun t hof => ?_
  cases t with
  | signed t => exact ⟨_, rfl⟩
  | encrypted outer => exact ⟨_, if_pos fun hcty => h ⟨outer, hof, hcty⟩⟩

/-! ### Contents -/

theorem openContent_eq_ok_iff :
    openContent content sender = .ok value ↔
      ∃ inner t payload, Bytes.toString? content = some inner ∧
        Token.ofText inner = .ok (.signed t) ∧ t.verify sender = .ok payload ∧
        Json.parse payload = .ok value := by
  unfold openContent
  cases Bytes.toString? content with
  | none => exact ⟨nofun, nofun⟩
  | some inner =>
    show (Token.ofText inner >>= _) = .ok value ↔ _
    rw [bind_eq_ok_iff]
    constructor
    · rintro ⟨t, hof, h⟩
      cases t with
      | encrypted t => cases h
      | signed t =>
        obtain ⟨payload, hverify, hparse⟩ := bind_eq_ok_iff.1 h
        exact ⟨inner, t, payload, rfl, hof, mapError_eq_ok_iff.1 hverify,
          mapError_eq_ok_iff.1 hparse⟩
    · rintro ⟨_, t, payload, hinner, hof, hverify, hparse⟩
      cases hinner
      exact ⟨.signed t, hof, bind_eq_ok_iff.2
        ⟨payload, mapError_eq_ok_iff.2 hverify, mapError_eq_ok_iff.2 hparse⟩⟩

theorem hideSignature_of_isRefusal {e : Error} (h : e.IsRefusal) : hideSignature e = e := by
  cases h <;> rfl

/-- A token in a content is refused, or shown as a decryption that failed. -/
theorem openContent_failsOnly (content : Bytes) (sender : Key) :
    FailsOnly (fun e => e.IsRefusal ∨ e = .decryptionFailed) (openContent content sender) := by
  unfold openContent
  split
  · exact .error (.inl (.malformedToken _))
  · refine .bind ((Token.ofText_failsOnly _).mono fun _ h => .inl h.isRefusal) fun t => ?_
    cases t with
    | encrypted t => exact .error (.inl (.malformedToken _))
    | signed t =>
      refine .bind ((t.verify_failsOnly sender).mapError_of ?_) fun payload =>
        .mapError (fun _ => .inl (.malformedToken _)) _
      rintro e (hrefusal | rfl)
      · rw [hideSignature_of_isRefusal hrefusal]
        exact .inl hrefusal
      · exact .inr rfl

/-- A content is shown as a decryption that failed exactly if it is a token with a wrong
signature. -/
theorem openContent_eq_decryptionFailed_iff :
    openContent content sender = .error .decryptionFailed ↔
      ∃ inner t, Bytes.toString? content = some inner ∧ Token.ofText inner = .ok (.signed t) ∧
        t.verify sender = .error .signatureMismatch := by
  unfold openContent
  cases Bytes.toString? content with
  | none => exact ⟨nofun, nofun⟩
  | some inner =>
    show (Token.ofText inner >>= _) = .error .decryptionFailed ↔ _
    rw [bind_eq_error_iff]
    constructor
    · rintro (hof | ⟨t, hof, h⟩)
      · cases (Token.ofText_failsOnly inner _ hof).isRefusal
      · cases t with
        | encrypted t => cases h
        | signed t =>
          rcases bind_eq_error_iff.1 h with h | ⟨payload, -, h⟩
          · obtain ⟨e, hverify, hhidden⟩ := mapError_eq_error_iff.1 h
            rcases t.verify_failsOnly sender e hverify with hrefusal | rfl
            · -- a refusal is shown as it is
              rw [hideSignature_of_isRefusal hrefusal] at hhidden
              rw [hhidden] at hrefusal
              cases hrefusal
            · exact ⟨inner, t, rfl, hof, hverify⟩
          · obtain ⟨fault, -, hfault⟩ := mapError_eq_error_iff.1 h
            cases hfault
    · rintro ⟨_, t, hinner, hof, hverify⟩
      cases hinner
      exact .inr ⟨.signed t, hof, bind_eq_error_iff.2
        (.inl (mapError_eq_error_iff.2 ⟨_, hverify, rfl⟩))⟩

/-! ### Whole envelopes -/

/-- An envelope is read exactly if it is an encrypted token of the right content type, and its
content, decrypted for the recipient, is the text of a token signed by the sender that holds the
value. -/
theorem read_eq_ok_iff :
    read text recipient sender = .ok value ↔
      ∃ outer content inner t payload,
        Token.ofText text = .ok (.encrypted outer) ∧ outer.header.cty? = some contentType ∧
        outer.decrypt recipient = .ok content ∧ Bytes.toString? content = some inner ∧
        Token.ofText inner = .ok (.signed t) ∧ t.verify sender = .ok payload ∧
        Json.parse payload = .ok value := by
  constructor
  · intro h
    by_cases henvelope : ∃ outer, Token.ofText text = .ok (.encrypted outer) ∧
        outer.header.cty? = some contentType
    · obtain ⟨outer, hof, hcty⟩ := henvelope
      rw [read_of_ofText hof hcty, bind_eq_ok_iff] at h
      obtain ⟨content, hdecrypt, hopen⟩ := h
      obtain ⟨inner, t, payload, hinner⟩ := openContent_eq_ok_iff.1 hopen
      exact ⟨outer, content, inner, t, payload, hof, hcty, mapError_eq_ok_iff.1 hdecrypt, hinner⟩
    · obtain ⟨fault, hfault⟩ := exists_fault_of_not_envelope henvelope
      rw [hfault] at h
      cases h
  · rintro ⟨outer, content, inner, t, payload, hof, hcty, hdecrypt, hinner⟩
    rw [read_of_ofText hof hcty, bind_eq_ok_iff]
    exact ⟨content, mapError_eq_ok_iff.2 hdecrypt,
      openContent_eq_ok_iff.2 ⟨inner, t, payload, hinner⟩⟩

/-- An envelope is refused, or shown as a decryption that failed. -/
theorem read_failsOnly (text : String) (recipient sender : Key) :
    FailsOnly (fun e => e.IsRefusal ∨ e = .decryptionFailed) (read text recipient sender) := by
  intro e h
  by_cases henvelope : ∃ outer, Token.ofText text = .ok (.encrypted outer) ∧
      outer.header.cty? = some contentType
  · obtain ⟨outer, hof, hcty⟩ := henvelope
    rw [read_of_ofText hof hcty] at h
    exact (outer.decryptHidden_failsOnly recipient).bind (openContent_failsOnly · sender) e h
  · obtain ⟨fault, hfault⟩ := exists_fault_of_not_envelope henvelope
    rw [hfault, Except.error.injEq] at h
    exact .inl (h ▸ .malformedToken fault)

/-- An envelope is shown as a decryption that failed exactly if a step of the decryption fails, or
the signature of the token inside is a wrong one. -/
theorem read_eq_decryptionFailed_iff :
    read text recipient sender = .error .decryptionFailed ↔
      ∃ outer, Token.ofText text = .ok (.encrypted outer) ∧
        outer.header.cty? = some contentType ∧
        ((∃ e, outer.decrypt recipient = .error e ∧ e.IsDecryptionStep) ∨
          ∃ content inner t, outer.decrypt recipient = .ok content ∧
            Bytes.toString? content = some inner ∧ Token.ofText inner = .ok (.signed t) ∧
            t.verify sender = .error .signatureMismatch) := by
  constructor
  · intro h
    by_cases henvelope : ∃ outer, Token.ofText text = .ok (.encrypted outer) ∧
        outer.header.cty? = some contentType
    · obtain ⟨outer, hof, hcty⟩ := henvelope
      rw [read_of_ofText hof hcty, bind_eq_error_iff] at h
      refine ⟨outer, hof, hcty, ?_⟩
      rcases h with h | ⟨content, hdecrypt, h⟩
      · exact .inl (EncryptedToken.decryptHidden_eq_decryptionFailed_iff.1 h)
      · obtain ⟨inner, t, hinner⟩ := openContent_eq_decryptionFailed_iff.1 h
        exact .inr ⟨content, inner, t, mapError_eq_ok_iff.1 hdecrypt, hinner⟩
    · obtain ⟨fault, hfault⟩ := exists_fault_of_not_envelope henvelope
      rw [hfault] at h
      cases h
  · rintro ⟨outer, hof, hcty, h⟩
    rw [read_of_ofText hof hcty, bind_eq_error_iff]
    rcases h with h | ⟨content, inner, t, hdecrypt, hinner⟩
    · exact .inl (EncryptedToken.decryptHidden_eq_decryptionFailed_iff.2 h)
    · exact .inr ⟨content, mapError_eq_ok_iff.2 hdecrypt,
        openContent_eq_decryptionFailed_iff.2 ⟨inner, t, hinner⟩⟩

/-- Reading an envelope gives a value only if the envelope is an encrypted token of the right content
type, the recipient's key decrypts it to the text of a signed token, and the sender's key verifies
that token, whose payload holds the value. Which cryptographic check fails is never shown: the steps
of the decryption and the comparison of the signature, and nothing else, are shown as one failure to
decrypt. -/
theorem read_authentic_or_hidden (text : String) (recipient sender : Key) :
    (∀ value, read text recipient sender = .ok value ↔
      ∃ outer content inner t payload,
        Token.ofText text = .ok (.encrypted outer) ∧ outer.header.cty? = some "JOSE+JSON" ∧
        outer.decrypt recipient = .ok content ∧ Bytes.toString? content = some inner ∧
        Token.ofText inner = .ok (.signed t) ∧ t.verify sender = .ok payload ∧
        Json.parse payload = .ok value) ∧
    (∀ e, read text recipient sender = .error e → ¬e.IsDecryptionStep ∧ e ≠ .signatureMismatch) ∧
    (read text recipient sender = .error .decryptionFailed ↔
      ∃ outer, Token.ofText text = .ok (.encrypted outer) ∧
        outer.header.cty? = some "JOSE+JSON" ∧
        ((∃ e, outer.decrypt recipient = .error e ∧ e.IsDecryptionStep) ∨
          ∃ content inner t, outer.decrypt recipient = .ok content ∧
            Bytes.toString? content = some inner ∧ Token.ofText inner = .ok (.signed t) ∧
            t.verify sender = .error .signatureMismatch)) := by
  refine ⟨fun value => read_eq_ok_iff, fun e h => ?_, read_eq_decryptionFailed_iff⟩
  rcases read_failsOnly text recipient sender e h with hrefusal | rfl
  · refine ⟨hrefusal.not_isDecryptionStep, ?_⟩
    rintro rfl
    cases hrefusal
  · exact ⟨nofun, nofun⟩

/-- A secret of zeros that is the content key encrypts whatever it is to. -/
theorem exists_encrypt_zeroKey {header : Header}
    (h : header.encryption = .ok (.direct, .a128Gcm)) (payload : Bytes) :
    ∃ t, EncryptedToken.encrypt payload EncryptedToken.zeroKey header
      EncryptedToken.noRandomness = .ok t := by
  obtain ⟨ciphertext, tag, hcontent⟩ : ∃ ciphertext tag,
      ContentEncryption.encrypt .a128Gcm (List.replicate 16 0)
        (EncryptedToken.noRandomness.ivBytes 12) (Bytes.ofString header.encode) payload =
          .ok (ciphertext, tag) :=
    ContentEncryption.exists_encrypt_eq_ok rfl rfl _ _
  exact ⟨_, EncryptedToken.encrypt_eq_ok_iff.2 ⟨.direct, .a128Gcm, h,
    Key.permits_of_params rfl _ _ _, ⟨List.replicate 16 0, []⟩, rfl, ciphertext, tag, hcontent,
    rfl⟩⟩

/-- The compact form of an envelope without a tag. -/
def untaggedEnvelope : String :=
  "eyJhbGciOiJkaXIiLCJlbmMiOiJBMTI4R0NNIiwiY3R5IjoiSk9TRStKU09OIn0..AAAAAAAAAAAAAAAA.."

theorem ofText_untaggedEnvelope : Token.ofText untaggedEnvelope =
    .ok (.encrypted (.directToken [("cty", .string "JOSE+JSON")] [])) := by cbv

/-- The header of an envelope for a shared secret that is the content key. -/
def directHeader : Header := (Header.encrypted .direct .a128Gcm).withCty contentType

/-- An envelope without a tag fails like one in which the token is not signed by the sender, and a
text that is no envelope is not read. -/
theorem read_authentic_or_hidden_forged :
    (∃ text outer, Token.ofText text = .ok (.encrypted outer) ∧
      outer.decrypt EncryptedToken.zeroKey = .error .authenticationFailed ∧
      read text EncryptedToken.zeroKey (.ofZeros 32 (by decide)) = .error .decryptionFailed) ∧
    (∃ text outer, Token.ofText text = .ok (.encrypted outer) ∧
      outer.decrypt EncryptedToken.zeroKey = .ok (Bytes.ofString Jwt.forgedText) ∧
      read text EncryptedToken.zeroKey (.ofZeros 32 (by decide)) = .error .decryptionFailed) ∧
    ∀ sender value, read Jwt.untaggedText EncryptedToken.zeroKey sender ≠ .ok value := by
  refine ⟨?_, ?_, ?_⟩
  · have htag : EncryptedToken.decrypt (.directToken [("cty", .string "JOSE+JSON")] [])
        EncryptedToken.zeroKey = .error .authenticationFailed := rfl
    exact ⟨_, _, ofText_untaggedEnvelope, htag, (read_authentic_or_hidden _ _ _).2.2.2
      ⟨_, ofText_untaggedEnvelope, rfl, .inl ⟨_, htag, .authenticationFailed⟩⟩⟩
  · obtain ⟨t, hencrypt⟩ := exists_encrypt_zeroKey (show directHeader.encryption = _ from rfl)
      (Bytes.ofString Jwt.forgedText)
    have hplain : directHeader.IsPlain := (Header.isPlain_encrypted _ _).insert _ _
    obtain ⟨text, -, hof⟩ :=
      EncryptedToken.ofText_of_encrypt hencrypt hplain.denotable .compact
    have hdecrypt := EncryptedToken.decrypt_of_encrypt hencrypt (Key.receives_self rfl)
      (fun _ _ => Key.permits_of_params rfl _ _ _) nofun directHeader.reread
      fun _ _ => Header.encryption_reread
    exact ⟨text, _, hof, hdecrypt, (read_authentic_or_hidden _ _ _).2.2.2
      ⟨_, hof, Header.text?_reread directHeader "cty", .inr ⟨_, _, _, hdecrypt,
        Bytes.toString?_ofString _, Jwt.ofText_forgedText, Jwt.verify_forgedToken⟩⟩⟩
  · intro sender value h
    obtain ⟨outer, -, -, -, -, hof, hcty, -⟩ := (read_authentic_or_hidden _ _ _).1 value |>.1 h
    rw [Jwt.ofText_untaggedText] at hof
    cases hof
    cases hcty

end Envelope

end WebToken
