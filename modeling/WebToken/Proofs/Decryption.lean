import WebToken.EncryptedToken
import WebToken.Envelope
import WebToken.Jwt
import WebToken.Proofs.ContentCipher
import WebToken.Proofs.Except
import WebToken.Proofs.Json.Same

/-!
# Failures of decryption

Before the encrypted parts of a token are looked at, its header, the length of its vector and the
key decide whether they will be (`EncryptedToken.admission`). Whatever goes wrong afterwards is
shown in one way.

* `EncryptedToken.hidden_of_decrypt_eq_error` : the shown failure is the one of the admission, or
  says only that decryption failed;
* `EncryptedToken.failures_look_alike` : two tokens with equal headers fail alike.
-/

namespace WebToken

/-! ## Admission -/

/-- Refuse a key of a kind that receives no content keys of an algorithm. -/
def KeyManagement.requireKind (alg : KeyManagement) (key : Key) : Except Error Unit :=
  match alg with
  | rsaOaep256 | rsaOaep =>
    match key.rsaPrivate? with
    | some _ => .ok ()
    | none => .error (key.mismatch alg.name "RSA private")
  | a128Kw | a192Kw | a256Kw | direct =>
    match key.secret? with
    | some _ => .ok ()
    | none => .error (key.mismatch alg.name "symmetric")

/-- What is settled before the encrypted parts of a token are looked at. -/
def EncryptedToken.admission (header : Header) (ivLength : Nat) (key : Key) :
    Except Error (KeyManagement × ContentEncryption) := do
  let (alg, enc) ← header.encryption
  key.require alg.name .encryption alg.receiveOperations
  if ivLength ≠ enc.ivBytes then .error (.malformedToken (.ivLength enc))
  else
    alg.requireKind key
    return (alg, enc)

/-- How a decryption that fails is shown, as far as the admission tells. -/
def EncryptedToken.failure (header : Header) (ivLength : Nat) (key : Key) : Error :=
  match admission header ivLength key with
  | .error e => e.hidden
  | .ok _ => .decryptionFailed

/-! ## Content keys -/

namespace KeyManagement

/-- An encrypted key is looked at exactly if the key is of the right kind, whatever the encrypted
key is. -/
theorem open?_eq_or (alg : KeyManagement) (key : Key) (encryptedKey : Bytes) :
    (∃ e, alg.requireKind key = .error e ∧ alg.open? key encryptedKey = .error e) ∨
      (alg.requireKind key = .ok () ∧ ∃ o, alg.open? key encryptedKey = .ok o) := by
  unfold requireKind open? sharedSecret
  cases alg with
  | rsaOaep256 | rsaOaep =>
    cases key.rsaPrivate? with
    | none => exact .inl ⟨_, rfl, rfl⟩
    | some k => exact .inr ⟨rfl, _, rfl⟩
  | a128Kw | a192Kw | a256Kw =>
    cases key.secret? with
    | none => exact .inl ⟨_, rfl, rfl⟩
    | some secret =>
      refine .inr ⟨rfl, ?_⟩
      simp only [bind, Except.bind, pure, Except.pure]
      split
      · exact ⟨_, rfl⟩
      · exact ⟨_, rfl⟩
  | direct =>
    cases key.secret? with
    | none => exact .inl ⟨_, rfl, rfl⟩
    | some secret =>
      refine .inr ⟨rfl, ?_⟩
      simp only [bind, Except.bind, pure, Except.pure]
      split
      · exact ⟨_, rfl⟩
      · exact ⟨_, rfl⟩

/-- A content key that is received has the length that its algorithm asks for. -/
theorem length_of_receive_eq_ok {alg : KeyManagement} {enc : ContentEncryption} {key : Key}
    {encryptedKey contentKey : Bytes} (h : alg.receive enc key encryptedKey = .ok contentKey) :
    contentKey.length = enc.keyBytes := by
  obtain ⟨o, -, h⟩ := bind_eq_ok_iff.1 h
  split at h
  · split at h
    · next hl =>
      cases h
      exact hl
    · cases h
  · cases h

/-- Receiving a content key fails because of the kind of the key, or in one way only. -/
theorem receive_eq_error {alg : KeyManagement} {enc : ContentEncryption} {key : Key}
    {encryptedKey : Bytes} {e : Error} (h : alg.receive enc key encryptedKey = .error e) :
    alg.requireKind key = .error e ∨
      (alg.requireKind key = .ok () ∧ e = .keyUnwrapFailed) := by
  -- what is refused besides the kind of the key is refused in one way
  obtain ⟨d, hkind, hopen⟩ | ⟨hkind, o, hopen⟩ := open?_eq_or alg key encryptedKey
  · rcases bind_eq_error_iff.1 h with h | ⟨_, h, -⟩
    · rw [hopen] at h
      exact .inl (Except.error.inj h ▸ hkind)
    · rw [hopen] at h
      cases h
  · rcases bind_eq_error_iff.1 h with h | ⟨_, -, h⟩
    · rw [hopen] at h
      cases h
    · refine .inr ⟨hkind, ?_⟩
      split at h
      · split at h
        · cases h
        · exact (Except.error.inj h).symm
      · exact (Except.error.inj h).symm

theorem requireKind_of_receive_eq_ok {alg : KeyManagement} {enc : ContentEncryption} {key : Key}
    {encryptedKey contentKey : Bytes} (h : alg.receive enc key encryptedKey = .ok contentKey) :
    alg.requireKind key = .ok () := by
  obtain ⟨d, -, hopen⟩ | ⟨hkind, -⟩ := open?_eq_or alg key encryptedKey
  · obtain ⟨o, ho, -⟩ := bind_eq_ok_iff.1 h
    rw [hopen] at ho
    cases ho
  · exact hkind

end KeyManagement

/-! ## Contents -/

/-- With a key and a vector of the right lengths, opening a content fails in the tag or in the
filling. -/
theorem ContentEncryption.hidden_of_decrypt_eq_error {enc : ContentEncryption}
    {key iv aad ciphertext tag : Bytes} (hkey : key.length = enc.keyBytes)
    (hiv : iv.length = enc.ivBytes) {e : Error}
    (h : enc.decrypt key iv aad ciphertext tag = .error e) : e.hidden = .decryptionFailed := by
  unfold decrypt at h
  rw [checkLengths_eq_ok hkey hiv] at h
  -- only the lengths are refused in another way, and they are right
  cases hh : enc.tagHash? with
  | some hash =>
    rw [hh] at h
    have h : enc.chainDecrypt hash key iv aad ciphertext tag = .error e := h
    unfold chainDecrypt at h
    split at h
    · split at h
      · cases h
      · cases h
        rfl
    · cases h
      rfl
  | none =>
    rw [hh] at h
    have h : counterDecrypt key iv aad ciphertext tag = .error e := h
    unfold counterDecrypt at h
    split at h
    · cases h
      rfl
    · split at h
      · cases h
      · cases h
        rfl

/-! ## Tokens -/

namespace EncryptedToken

/-- A decryption that fails was not admitted, or fails in one of the ways that are shown alike. -/
theorem admission_of_decrypt_eq_error {t : EncryptedToken} {key : Key} {e : Error}
    (h : t.decrypt key = .error e) :
    admission t.header t.iv.length key = .error e ∨
      (∃ a, admission t.header t.iv.length key = .ok a) ∧ e.hidden = .decryptionFailed := by
  unfold decrypt at h
  unfold admission
  -- both go through the same steps, up to the one that looks at the encrypted key
  cases hheader : t.header.encryption with
  | error d =>
    rw [hheader] at h
    cases h
    exact .inl rfl
  | ok algs =>
    obtain ⟨alg, enc⟩ := algs
    rw [hheader] at h
    simp only [bind, Except.bind] at h ⊢
    cases hreq : key.require alg.name .encryption alg.receiveOperations with
    | error d =>
      rw [hreq] at h
      cases h
      exact .inl rfl
    | ok _ =>
      rw [hreq] at h
      simp only at h ⊢
      by_cases hiv : t.iv.length = enc.ivBytes
      · rw [if_neg (fun hne => hne hiv)] at h ⊢
        cases hkey : alg.receive enc key t.encryptedKey with
        | error d =>
          rw [hkey] at h
          cases h
          -- either the kind of the key is refused, or the encrypted key
          rcases KeyManagement.receive_eq_error hkey with hkind | ⟨hkind, rfl⟩
          · rw [hkind]
            exact .inl rfl
          · rw [hkind]
            exact .inr ⟨⟨_, rfl⟩, rfl⟩
        | ok contentKey =>
          rw [hkey] at h
          rw [KeyManagement.requireKind_of_receive_eq_ok hkey]
          have hlen := KeyManagement.length_of_receive_eq_ok hkey
          exact .inr ⟨⟨_, rfl⟩, ContentEncryption.hidden_of_decrypt_eq_error hlen hiv h⟩
      · rw [if_pos hiv] at h ⊢
        cases h
        exact .inl rfl

/-- A decryption that fails is shown as the admission says: nothing is added by the encrypted key,
the bytes of the vector, the ciphertext, the tag or the text of the header. -/
theorem hidden_of_decrypt_eq_error {t : EncryptedToken} {key : Key} {e : Error}
    (h : t.decrypt key = .error e) : e.hidden = failure t.header t.iv.length key := by
  unfold failure
  rcases admission_of_decrypt_eq_error h with hadm | ⟨⟨a, hadm⟩, hhidden⟩
  · rw [hadm]
  · rw [hadm]
    exact hhidden

theorem decryptHidden_of_decrypt_eq_error {t : EncryptedToken} {key : Key} {e : Error}
    (h : t.decrypt key = .error e) : t.decryptHidden key = .error e.hidden := by
  rw [decryptHidden, h]
  rfl

end EncryptedToken

/-! ## Equal headers -/

namespace Header

variable {h k : Header}

/-- Headers with the same parameters name the same algorithms, if the values of a parameter that
is refused are also written alike. -/
theorem encryption_of_same (hn : h.names.Nodup) (hsame : h.same k = true)
    (hzip : (h.get? "zip").map Json.Value.text = (k.get? "zip").map Json.Value.text) :
    h.encryption = k.encryption := by
  have hcrit : h.contains "crit" = k.contains "crit" := Json.Object.contains_of_same hn hsame _
  have halg : h.alg? = k.alg? := Json.Object.text?_of_same hn hsame _
  have henc : h.enc? = k.enc? := Json.Object.text?_of_same hn hsame _
  unfold encryption refuseCritical keyManagement contentEncryption
  rw [hcrit, halg, henc]
  -- a text is equal in both headers; another value is only written in the refusal
  cases hv : h.get? "zip" with
  | none =>
    rw [hv] at hzip
    rw [Option.map_eq_none_iff.1 hzip.symm]
  | some v =>
    rw [hv] at hzip
    obtain ⟨w, hw, htext⟩ := Option.map_eq_some_iff.1 hzip.symm
    rw [hw]
    simp only [htext]

end Header

namespace EncryptedToken

/-- The failure that is shown depends on the parameters of the header and on the length of the
vector only. -/
theorem failure_of_same {h k : Header} (hn : h.names.Nodup) (hsame : h.same k = true)
    (hzip : (h.get? "zip").map Json.Value.text = (k.get? "zip").map Json.Value.text)
    (ivLength : Nat) (key : Key) : failure h ivLength key = failure k ivLength key := by
  unfold failure admission
  rw [Header.encryption_of_same hn hsame hzip]

/-! ## Texts -/

/-- A text of a token whose decryption fails is refused with the failure that is shown. -/
theorem decryptText_of_decrypt_eq_error {t : EncryptedToken} {key : Key} {e : Error}
    (h : t.decrypt key = .error e) {text : String}
    (htext : Token.ofText text = .ok (.encrypted t)) : decryptText text key = .error e.hidden := by
  unfold decryptText
  rw [htext]
  exact decryptHidden_of_decrypt_eq_error h

/-- A text of a token whose decryption fails is no encrypted web token: either its points do not
say so, or the failure is shown. -/
theorem jwtDecrypt_of_decrypt_eq_error {t : EncryptedToken} {key : Key} {e : Error}
    (h : t.decrypt key = .error e) {text : String} (htext : Token.ofText text = .ok (.encrypted t))
    (v : Validation) (now : Int64) :
    Jwt.decrypt text key v now =
      match JwtKind.ofText text with
      | .ok .encrypted => .error e.hidden
      | .ok .signed => .error (.malformedToken .notEncryptedWebToken)
      | .error d => .error d := by
  unfold Jwt.decrypt
  rw [htext]
  cases JwtKind.ofText text with
  | error d => rfl
  | ok kind =>
    cases kind with
    | signed => rfl
    | encrypted =>
      show (t.decryptHidden key >>= fun content => Jwt.accept content v now) = _
      rw [decryptHidden_of_decrypt_eq_error h]
      rfl

/-- A text of a token whose decryption fails is no envelope: either its header does not say so, or
the failure is shown. -/
theorem envelopeRead_of_decrypt_eq_error {t : EncryptedToken} {key : Key} {e : Error}
    (h : t.decrypt key = .error e) {text : String} (htext : Token.ofText text = .ok (.encrypted t))
    (sender : Key) :
    Envelope.read text key sender =
      if t.header.cty? ≠ some Envelope.contentType then
        .error (.malformedToken .envelopeContentType)
      else .error e.hidden := by
  unfold Envelope.read
  rw [htext]
  show (if t.header.cty? ≠ some Envelope.contentType then
      .error (.malformedToken .envelopeContentType) else t.decryptHidden key >>= _) = _
  rw [decryptHidden_of_decrypt_eq_error h]
  rfl

/-- Two tokens with the same header parameters and vectors of the same length fail alike, whatever
else they hold: as tokens, as texts, as web tokens and as envelopes. The values of a parameter
`zip`, which is refused, must be written alike, since the refusal shows them. -/
theorem failures_look_alike {t u : EncryptedToken} {key : Key} {e f : Error}
    (hn : t.header.names.Nodup) (hsame : t.header.same u.header = true)
    (hzip : (t.header.get? "zip").map Json.Value.text = (u.header.get? "zip").map Json.Value.text)
    (hiv : t.iv.length = u.iv.length) (ht : t.decrypt key = .error e)
    (hu : u.decrypt key = .error f) :
    e.hidden = f.hidden ∧
    ∀ s s', Token.ofText s = .ok (.encrypted t) → Token.ofText s' = .ok (.encrypted u) →
      decryptText s key = .error e.hidden ∧ decryptText s' key = .error e.hidden ∧
      (∀ v now, JwtKind.ofText s = JwtKind.ofText s' →
        Jwt.decrypt s key v now = Jwt.decrypt s' key v now) ∧
      (∀ sender, Envelope.read s key sender = Envelope.read s' key sender) := by
  have hshown : e.hidden = f.hidden := by
    rw [hidden_of_decrypt_eq_error ht, hidden_of_decrypt_eq_error hu, hiv,
      failure_of_same hn hsame hzip]
  have hcty : t.header.cty? = u.header.cty? := Json.Object.text?_of_same hn hsame _
  refine ⟨hshown, fun s s' hs hs' => ⟨?_, ?_, ?_, ?_⟩⟩
  · exact decryptText_of_decrypt_eq_error ht hs
  · rw [decryptText_of_decrypt_eq_error hu hs', hshown]
  · intro v now hkind
    rw [jwtDecrypt_of_decrypt_eq_error ht hs, jwtDecrypt_of_decrypt_eq_error hu hs', hkind, hshown]
  · intro sender
    rw [envelopeRead_of_decrypt_eq_error ht hs, envelopeRead_of_decrypt_eq_error hu hs', hcty,
      hshown]

/-- A token of a shared secret that is the content key, with an empty ciphertext and no tag. -/
def directToken (extra : Json.Object) (encryptedKey : Bytes) : EncryptedToken :=
  let header : Header := ⟨(Header.encrypted .direct .a128Gcm).parameters ++ extra⟩
  ⟨header, header.encode, none, encryptedKey, List.replicate 12 0, [], []⟩

/-- A secret of zeros. -/
def zeroKey : Key := ⟨.symmetric ⟨List.replicate 16 0, by decide⟩, .none⟩

/-- An encrypted key where there should be none is not told from a missing tag. -/
theorem failures_look_alike_direct :
    (directToken [] [1]).decrypt zeroKey = .error .keyUnwrapFailed ∧
    (directToken [] []).decrypt zeroKey = .error .authenticationFailed ∧
    Error.hidden .keyUnwrapFailed = Error.hidden .authenticationFailed :=
  have hkey : (directToken [] [1]).decrypt zeroKey = .error .keyUnwrapFailed := rfl
  have htag : (directToken [] []).decrypt zeroKey = .error .authenticationFailed := rfl
  ⟨hkey, htag, (failures_look_alike (t := directToken [] [1]) (u := directToken [] []) (by decide)
    rfl rfl rfl hkey htag).1⟩

/-- A refused parameter `zip` with two members. -/
def zipMembers : Json.Object := [("a", .integer 1), ("b", .integer 2)]

/-- The refusal of a parameter `zip` shows the order of its members, which does not count when
headers are compared. -/
theorem refused_zip_shows_order :
    ¬ ∀ (key : Key) (t u : EncryptedToken) (e f : Error),
      t.header.names.Nodup → u.header.names.Nodup → t.header.same u.header = true →
      t.iv.length = u.iv.length → t.decrypt key = .error e → u.decrypt key = .error f →
      e.hidden = f.hidden := by
  intro h
  have hshown : Error.unsupportedAlgorithm "zip=\x7b\"a\":1,\"b\":2\x7d" =
      .unsupportedAlgorithm "zip=\x7b\"b\":2,\"a\":1\x7d" :=
    h zeroKey (directToken [("zip", .object zipMembers)] [])
      (directToken [("zip", .object zipMembers.reverse)] []) _ _
      (by decide) (by decide) rfl rfl rfl rfl
  revert hshown
  decide

end EncryptedToken

end WebToken
