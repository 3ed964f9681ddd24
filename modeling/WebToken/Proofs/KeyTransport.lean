import WebToken.Proofs.Decryption
import WebToken.Proofs.Encryption

/-!
# Content keys under a shared secret

A shared secret either wraps a random content key, or is the content key itself and nothing is sent.
Either way the form in which a content key is sent is determined by it (`KeyManagement.IsForm`), and
determines it. So what is received is exactly what can have been sent, no two encrypted keys hold
the same content key, and everything else fails in one way.

* `Crypto.KeyWrap.unwrap?_inj` : a key has one wrapped form;
* `KeyManagement.receive_eq_ok_iff` and `KeyManagement.exists_send_eq_iff` : which encrypted keys
  are received, and which can have been sent;
* `KeyManagement.received_exactly_as_sent` : both are the same.
-/

namespace WebToken

open Crypto

/-! ## Wrapped keys -/

namespace Crypto.KeyWrap

variable {kek wrapped wrapped' key : Bytes}

/-- A key has one wrapped form. -/
theorem unwrap?_inj (h : unwrap? kek wrapped = some key) (h' : unwrap? kek wrapped' = some key) :
    wrapped = wrapped' := by
  obtain ⟨-, -, hwrap⟩ := unwrap?_eq_some_iff.1 h
  obtain ⟨-, -, hwrap'⟩ := unwrap?_eq_some_iff.1 h'
  rw [← hwrap, ← hwrap']

end Crypto.KeyWrap

/-! ## Random content keys -/

/-- A source of randomness that chooses a content key. -/
def Randomness.ofContentKey (contentKey : Bytes) : Randomness where
  contentKey _ := Vector.ofFn fun i => contentKey.getD i 0
  seed n := Vector.replicate n 0
  iv n := Vector.replicate n 0

/-- Every content key may be chosen. -/
theorem Randomness.contentKeyBytes_ofContentKey {contentKey : Bytes} {n : Nat}
    (h : contentKey.length = n) : (ofContentKey contentKey).contentKeyBytes n = contentKey := by
  subst h
  apply List.ext_getElem
  · rw [length_contentKeyBytes]
  · intro i hi hi'
    simp [contentKeyBytes, ofContentKey]

namespace KeyManagement

variable {alg : KeyManagement} {enc : ContentEncryption} {key : Key} {secret contentKey : Bytes}
  {encryptedKey encryptedKey' : Bytes}

/-! ## Secrets and forms -/

/-- Whether a shared secret has the length that is asked for: that of the keys under which the
algorithm wraps, or that of the content key if it is used directly. -/
def Admits (alg : KeyManagement) (enc : ContentEncryption) (secret : Bytes) : Prop :=
  match alg with
  | a128Kw | a192Kw | a256Kw => alg.wrappingKeyBytes? = some secret.length
  | direct => secret.length = enc.keyBytes
  | rsaOaep256 | rsaOaep => False

/-- Whether an encrypted key is the form in which a content key is sent under a shared secret: the
wrapped key, or nothing if the secret is the content key. -/
def IsForm (alg : KeyManagement) (secret contentKey encryptedKey : Bytes) : Prop :=
  match alg with
  | a128Kw | a192Kw | a256Kw => encryptedKey = KeyWrap.wrap secret contentKey
  | direct => contentKey = secret ∧ encryptedKey = []
  | rsaOaep256 | rsaOaep => False

/-- A content key is sent in one form. -/
theorem IsForm.unique (h : alg.IsForm secret contentKey encryptedKey)
    (h' : alg.IsForm secret contentKey encryptedKey') : encryptedKey = encryptedKey' := by
  cases alg with
  | a128Kw | a192Kw | a256Kw => exact Eq.trans h (Eq.symm h')
  | direct => exact h.2.trans h'.2.symm
  | rsaOaep256 | rsaOaep => exact h.elim

/-- A wrapped content key is eight bytes longer than the content key, and nothing is sent of a
secret that is used directly. -/
theorem IsForm.length_eq (h : alg.IsForm secret contentKey encryptedKey)
    (hlength : contentKey.length = enc.keyBytes) :
    encryptedKey.length = if alg = .direct then 0 else KeyWrap.halfBytes + enc.keyBytes := by
  have hwhole : contentKey.length % KeyWrap.halfBytes = 0 := by
    rw [hlength]
    exact enc.keyBytes_spec.2
  cases alg with
  | a128Kw | a192Kw | a256Kw =>
    rw [show encryptedKey = KeyWrap.wrap secret contentKey from h,
      KeyWrap.length_wrap secret hwhole, hlength]
    rfl
  | direct =>
    rw [h.2]
    rfl
  | rsaOaep256 | rsaOaep => exact h.elim

/-! ## What is received, and what can have been sent -/

/-- A secret under which keys are wrapped unwraps whatever is sent. -/
theorem open?_of_wrappingKeyBytes? (hsecret : key.secret? = some secret)
    (hlength : alg.wrappingKeyBytes? = some secret.length) (encryptedKey : Bytes) :
    alg.open? key encryptedKey = .ok (KeyWrap.unwrap? secret encryptedKey) := by
  have hshared : alg.sharedSecret key = .ok secret := sharedSecret_eq_ok_iff.2 hsecret
  cases alg with
  | a128Kw | a192Kw | a256Kw =>
    rw [open?, hshared]
    exact if_pos hlength.symm
  | direct | rsaOaep256 | rsaOaep => cases hlength

/-- A secret that is used directly is what nothing stands for. -/
theorem open?_direct (hsecret : key.secret? = some secret) (encryptedKey : Bytes) :
    direct.open? key encryptedKey = .ok (if encryptedKey = [] then some secret else none) := by
  have hshared : direct.sharedSecret key = .ok secret := sharedSecret_eq_ok_iff.2 hsecret
  rw [open?, hshared]
  by_cases hempty : encryptedKey = []
  · rw [if_pos hempty]
    exact if_pos hempty
  · rw [if_neg hempty]
    exact if_neg hempty

/-- What an encrypted key holds under a shared secret of the right length is what it is the form
of. -/
theorem open?_eq_ok_some_iff (hsecret : key.secret? = some secret) (hadmits : alg.Admits enc secret)
    (hlength : contentKey.length = enc.keyBytes) :
    alg.open? key encryptedKey = .ok (some contentKey) ↔
      alg.IsForm secret contentKey encryptedKey := by
  cases alg with
  | a128Kw | a192Kw | a256Kw =>
    obtain ⟨hlong, hwhole⟩ := enc.keyBytes_spec
    rw [← hlength] at hlong hwhole
    rw [open?_of_wrappingKeyBytes? hsecret hadmits, Except.ok.injEq, KeyWrap.unwrap?_eq_some_iff]
    constructor
    · rintro ⟨-, -, hwrap⟩
      exact hwrap.symm
    · intro hform
      exact ⟨hlong, hwhole, Eq.symm hform⟩
  | direct =>
    rw [open?_direct hsecret, Except.ok.injEq]
    by_cases hempty : encryptedKey = []
    · rw [if_pos hempty, Option.some.injEq]
      exact ⟨fun heq => ⟨heq.symm, hempty⟩, fun hform => hform.1.symm⟩
    · rw [if_neg hempty]
      exact ⟨nofun, fun hform => absurd hform.2 hempty⟩
  | rsaOaep256 | rsaOaep => exact hadmits.elim

/-- A content key is received exactly from its form, if it has the length that the content asks
for. -/
theorem receive_eq_ok_iff (hsecret : key.secret? = some secret) (hadmits : alg.Admits enc secret) :
    alg.receive enc key encryptedKey = .ok contentKey ↔
      contentKey.length = enc.keyBytes ∧ alg.IsForm secret contentKey encryptedKey := by
  constructor
  · intro h
    have hlength := length_of_receive_eq_ok h
    obtain ⟨o, hopen, h⟩ := bind_eq_ok_iff.1 h
    refine ⟨hlength, (open?_eq_ok_some_iff hsecret hadmits hlength).1 ?_⟩
    split at h
    · split at h
      · cases h
        exact hopen
      · cases h
    · cases h
  · rintro ⟨hlength, hform⟩
    have hopen := (open?_eq_ok_some_iff hsecret hadmits hlength).2 hform
    exact bind_eq_ok_iff.2 ⟨_, hopen, if_pos hlength⟩

/-- With a shared secret of the right length, a content key is always sent, in its form. -/
theorem exists_send_isForm (hsecret : key.secret? = some secret) (hadmits : alg.Admits enc secret)
    (random : Randomness) :
    ∃ sent, alg.send enc key random = .ok sent ∧
      alg.IsForm secret sent.contentKey sent.encryptedKey ∧
      sent.contentKey = if alg = .direct then secret else random.contentKeyBytes enc.keyBytes := by
  have hshared : alg.sharedSecret key = .ok secret := sharedSecret_eq_ok_iff.2 hsecret
  cases alg with
  | a128Kw | a192Kw | a256Kw =>
    refine ⟨⟨_, KeyWrap.wrap secret (random.contentKeyBytes enc.keyBytes)⟩, ?_, rfl, rfl⟩
    rw [send, hshared]
    exact if_pos (Eq.symm hadmits)
  | direct =>
    refine ⟨⟨secret, []⟩, ?_, ⟨rfl, rfl⟩, rfl⟩
    rw [send, hshared]
    exact if_pos hadmits
  | rsaOaep256 | rsaOaep => exact hadmits.elim

/-- A content key of the right length can have been sent exactly in its form. -/
theorem exists_send_eq_iff (hsecret : key.secret? = some secret) (hadmits : alg.Admits enc secret) :
    (∃ random, alg.send enc key random = .ok ⟨contentKey, encryptedKey⟩) ↔
      contentKey.length = enc.keyBytes ∧ alg.IsForm secret contentKey encryptedKey := by
  constructor
  · rintro ⟨random, hsend⟩
    obtain ⟨sent, hsent, hform, -⟩ := exists_send_isForm hsecret hadmits random
    rw [hsend] at hsent
    cases hsent
    exact ⟨length_of_send hsend, hform⟩
  · rintro ⟨hlength, hform⟩
    -- the content key is chosen, or it is the secret
    obtain ⟨sent, hsent, hsentForm, hchosen⟩ :=
      exists_send_isForm hsecret hadmits (.ofContentKey contentKey)
    have hkey : sent.contentKey = contentKey := by
      rw [hchosen]
      split
      · next hdirect =>
        subst hdirect
        exact hform.1.symm
      · exact Randomness.contentKeyBytes_ofContentKey hlength
    have hencrypted : sent.encryptedKey = encryptedKey := by
      rw [hkey] at hsentForm
      exact hsentForm.unique hform
    refine ⟨.ofContentKey contentKey, ?_⟩
    rw [hsent, ← hkey, ← hencrypted]

/-- With a shared secret, receiving fails in one way only. -/
theorem receive_eq_keyUnwrapFailed (hsecret : key.secret? = some secret)
    (hadmits : alg.Admits enc secret)
    (h : ∀ contentKey, alg.receive enc key encryptedKey ≠ .ok contentKey) :
    alg.receive enc key encryptedKey = .error .keyUnwrapFailed := by
  have hkind : alg.requireKind key = .ok () := by
    cases alg with
    | a128Kw | a192Kw | a256Kw | direct => rw [requireKind, hsecret]
    | rsaOaep256 | rsaOaep => exact hadmits.elim
  cases hreceive : alg.receive enc key encryptedKey with
  | ok contentKey => exact absurd hreceive (h contentKey)
  | error e =>
    rcases receive_eq_error hreceive with herror | ⟨-, rfl⟩
    · rw [hkind] at herror
      cases herror
    · rfl

/-- Under a shared secret of the length that is asked for, exactly what can have been sent is
received.

Whatever content key is chosen, it is sent and received again. Whatever encrypted key is received,
of whatever length, holds a content key of the right length, is the form of that key, and can have
been sent; so two encrypted keys never hold the same content key. Every other encrypted key fails in
the same way. -/
theorem received_exactly_as_sent (hsecret : key.secret? = some secret)
    (hadmits : alg.Admits enc secret) :
    (∀ random, ∃ sent, alg.send enc key random = .ok sent ∧
      alg.receive enc key sent.encryptedKey = .ok sent.contentKey) ∧
    (∀ encryptedKey contentKey, alg.receive enc key encryptedKey = .ok contentKey ↔
      ∃ random, alg.send enc key random = .ok ⟨contentKey, encryptedKey⟩) ∧
    (∀ encryptedKey contentKey, alg.receive enc key encryptedKey = .ok contentKey ↔
      contentKey.length = enc.keyBytes ∧ alg.IsForm secret contentKey encryptedKey) ∧
    (∀ encryptedKey encryptedKey' contentKey, alg.receive enc key encryptedKey = .ok contentKey →
      alg.receive enc key encryptedKey' = .ok contentKey → encryptedKey = encryptedKey') ∧
    ∀ encryptedKey, (¬∃ contentKey, contentKey.length = enc.keyBytes ∧
        alg.IsForm secret contentKey encryptedKey) →
      alg.receive enc key encryptedKey = .error .keyUnwrapFailed := by
  refine ⟨fun random => ?_, fun encryptedKey contentKey => ?_, fun encryptedKey contentKey => ?_,
    fun encryptedKey encryptedKey' contentKey h h' => ?_, fun encryptedKey hnone => ?_⟩
  · obtain ⟨sent, hsent, hform, -⟩ := exists_send_isForm hsecret hadmits random
    exact ⟨sent, hsent, (receive_eq_ok_iff hsecret hadmits).2 ⟨length_of_send hsent, hform⟩⟩
  · rw [receive_eq_ok_iff hsecret hadmits, exists_send_eq_iff hsecret hadmits]
  · exact receive_eq_ok_iff hsecret hadmits
  · exact ((receive_eq_ok_iff hsecret hadmits).1 h).2.unique
      ((receive_eq_ok_iff hsecret hadmits).1 h').2
  · refine receive_eq_keyUnwrapFailed hsecret hadmits fun contentKey h => hnone ⟨contentKey, ?_⟩
    exact (receive_eq_ok_iff hsecret hadmits).1 h

/-- Under a secret of zeros a content key of zeros is received from its wrapped form, and nothing is
received from an encrypted key that is too short to hold one. -/
theorem received_exactly_as_sent_zeros :
    EncryptedToken.zeroKey.secret? = some (List.replicate 16 0) ∧
    Admits .a128Kw .a128CbcHs256 (List.replicate 16 0) ∧
    receive .a128Kw .a128CbcHs256 EncryptedToken.zeroKey
        (KeyWrap.wrap (List.replicate 16 0) (List.replicate 32 0)) = .ok (List.replicate 32 0) ∧
    receive .a128Kw .a128CbcHs256 EncryptedToken.zeroKey (List.replicate 24 0) =
      .error .keyUnwrapFailed := by
  have hsecret : EncryptedToken.zeroKey.secret? = some (List.replicate 16 0) := rfl
  have hadmits : Admits .a128Kw .a128CbcHs256 (List.replicate 16 0) := rfl
  obtain ⟨-, -, hreceived, -, hfailed⟩ := received_exactly_as_sent hsecret hadmits
  refine ⟨hsecret, hadmits, ?_, ?_⟩
  · exact (hreceived _ _).2 ⟨rfl, rfl⟩
  · refine hfailed _ ?_
    rintro ⟨contentKey, hlength, hform⟩
    have hshort := hform.length_eq hlength
    revert hshort
    decide

end KeyManagement

end WebToken
