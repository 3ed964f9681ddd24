import WebToken.Key.Description
import WebToken.Key.Thumbprint
import WebToken.Proofs.Encryption
import WebToken.Proofs.Failures
import WebToken.Proofs.Signing

/-!
# Secrets do not show

Two runs that differ in the secret only, or in the private half of a key, are compared step by step.
Which step fails, and how, is settled by the parameters of a key, by its kind and by its size; the
bytes of a secret only decide whether a signature is accepted and whether a content is opened, and
these refusals have one wording. What a private half adds to an RSA key shows in one place: a
refusal for the wrong kind of key names the kind of the key that was given.

* `RunsAlike` and `FailAlike` : how two runs are compared, step by step;
* `Key.secrets_do_not_show` : descriptions, failures and public halves do not show secrets;
* `Key.not_forall_verify_eq` : the refusal that shows whether there is a private half.
-/

namespace WebToken

open Crypto

/-! ## Two runs -/

section Runs

variable {ε α β γ δ : Type}

/-- Whether two runs fail with one error, or come to outcomes that are related. -/
inductive RunsAlike (r : α → β → Prop) : Except ε α → Except ε β → Prop
  | error (e : ε) : RunsAlike r (.error e) (.error e)
  | ok {a : α} {b : β} (h : r a b) : RunsAlike r (.ok a) (.ok b)

/-- A run is like itself. -/
theorem RunsAlike.refl (x : Except ε α) : RunsAlike Eq x x := by
  cases x with
  | error e => exact .error e
  | ok a => exact .ok rfl

/-- Runs are alike if their first steps are and the rest is, after outcomes that are related. -/
theorem RunsAlike.bind {r : α → β → Prop} {s : γ → δ → Prop} {x : Except ε α} {y : Except ε β}
    {f : α → Except ε γ} {g : β → Except ε δ} (hx : RunsAlike r x y)
    (hf : ∀ a b, r a b → RunsAlike s (f a) (g b)) : RunsAlike s (x >>= f) (y >>= g) := by
  cases hx with
  | error e => exact .error e
  | ok h => exact hf _ _ h

/-- Runs are alike if they share their first step and the rest is. -/
theorem RunsAlike.after {s : γ → δ → Prop} (x : Except ε α) {f : α → Except ε γ}
    {g : α → Except ε δ} (hf : ∀ a, RunsAlike s (f a) (g a)) : RunsAlike s (x >>= f) (x >>= g) := by
  refine .bind (.refl x) ?_
  rintro a _ rfl
  exact hf a

/-- Outcomes that are related are those of the runs. -/
theorem RunsAlike.outcomes {r : α → β → Prop} {x : Except ε α} {y : Except ε β}
    (h : RunsAlike r x y) : RunsAlike (fun a b => x = .ok a ∧ y = .ok b) x y := by
  cases h with
  | error e => exact .error e
  | ok h => exact .ok ⟨rfl, rfl⟩

/-- Whether two runs that both fail are shown alike. -/
def FailAlike (x : Except Error α) (y : Except Error β) : Prop :=
  ∀ e f, x = .error e → y = .error f → e.hidden = f.hidden

namespace FailAlike

theorem refl (x : Except Error α) : FailAlike x x := by
  rintro e f rfl ⟨⟩
  rfl

theorem of_runsAlike {r : α → β → Prop} {x : Except Error α} {y : Except Error β}
    (h : RunsAlike r x y) : FailAlike x y := by
  rintro e f hx hy
  cases h with
  | error d =>
    cases hx
    cases hy
    rfl
  | ok _ => cases hx

/-- What can only fail in one way fails alike. -/
theorem of_failsOnly {x : Except Error α} {y : Except Error β} (d : Error)
    (hx : FailsOnly (· = d) x) (hy : FailsOnly (· = d) y) : FailAlike x y := by
  intro e f he hf
  rw [hx e he, hy f hf]

theorem bind {r : α → β → Prop} {x : Except Error α} {y : Except Error β}
    {f : α → Except Error γ} {g : β → Except Error δ} (hx : RunsAlike r x y)
    (hf : ∀ a b, r a b → FailAlike (f a) (g b)) : FailAlike (x >>= f) (y >>= g) := by
  cases hx with
  | error e =>
    rintro d d' ⟨⟩ ⟨⟩
    rfl
  | ok h => exact hf _ _ h

theorem after (x : Except Error α) {f : α → Except Error γ} {g : α → Except Error δ}
    (hf : ∀ a, FailAlike (f a) (g a)) : FailAlike (x >>= f) (x >>= g) := by
  refine .bind (.refl x) ?_
  rintro a _ rfl
  exact hf a

/-- What is shown of failures that are shown alike is alike. -/
theorem mapError_hidden {x : Except Error α} {y : Except Error β} (h : FailAlike x y) :
    FailAlike (x.mapError Error.hidden) (y.mapError Error.hidden) := by
  intro e f he hf
  obtain ⟨d, hd, rfl⟩ := mapError_eq_error_iff.1 he
  obtain ⟨d', hd', rfl⟩ := mapError_eq_error_iff.1 hf
  rw [h d d' hd hd']

end FailAlike

end Runs

/-! ## Shared secrets -/

/-- Nothing but the parameters of a key is looked at when a use of it is refused. -/
theorem Key.require_congr {key key' : Key} (h : key.params = key'.params) (alg : String)
    (use : KeyUse) (operations : List KeyOperation) :
    key.require alg use operations = key'.require alg use operations := by
  unfold require requireAlg requireUse requireAnyOf
  rw [h]

/-- Whether two keys are shared secrets of one length with the same parameters. -/
inductive Key.SecretsAlike : Key → Key → Prop
  | intro {secret secret' : Secret} (length : secret.bytes.length = secret'.bytes.length)
      (params : KeyParams) : SecretsAlike ⟨.symmetric secret, params⟩ ⟨.symmetric secret', params⟩

/-- Whether two signers are keyed hashes of one algorithm. -/
inductive Signer.BothKeyed : Signer → Signer → Prop
  | intro (alg : SignatureAlgorithm) (secret secret' : Bytes) :
      BothKeyed (.hmac alg secret) (.hmac alg secret')

/-- Secrets of one length are bound to an algorithm, or refused alike. -/
theorem Signer.ofSecret_alike (alg : SignatureAlgorithm) {secret secret' : Bytes}
    (hlength : secret.length = secret'.length) :
    RunsAlike BothKeyed (ofSecret alg secret) (ofSecret alg secret') := by
  unfold ofSecret
  rw [hlength]
  split
  · exact .error _
  · split
    · exact .error _
    · exact .ok ⟨alg, secret, secret'⟩

namespace Key.SecretsAlike

variable {key key' : Key}

theorem require (h : key.SecretsAlike key') (alg : String) (use : KeyUse)
    (operations : List KeyOperation) :
    RunsAlike Eq (key.require alg use operations) (key'.require alg use operations) := by
  cases h with
  | intro length params => exact .refl _

/-- The description of a secret shows its length only. -/
theorem describeInner_eq (h : key.SecretsAlike key') : key.describeInner = key'.describeInner := by
  cases h with
  | @intro secret secret' length params =>
    have hbits : secret.bits = secret'.bits := congrArg (8 * ·) length
    show describeSecret secret.bits params = describeSecret secret'.bits params
    rw [hbits]

theorem describe_eq (h : key.SecretsAlike key') : key.describe = key'.describe := by
  have hinner := h.describeInner_eq
  cases h with
  | intro length params =>
    unfold describe
    rw [hinner]
    rfl

/-! ### Signatures -/

theorem forSigning (h : key.SecretsAlike key') (alg : SignatureAlgorithm) :
    RunsAlike Signer.BothKeyed (Signer.forSigning alg key) (Signer.forSigning alg key') := by
  cases h with
  | intro length params =>
    unfold Signer.forSigning
    cases alg.isHmac with
    | true => exact Signer.ofSecret_alike alg length
    | false => exact .error _

theorem forVerification (h : key.SecretsAlike key') (alg : SignatureAlgorithm) :
    RunsAlike Signer.BothKeyed (Signer.forVerification alg key)
      (Signer.forVerification alg key') := by
  cases h with
  | intro length params =>
    unfold Signer.forVerification
    cases alg.isHmac with
    | true => exact Signer.ofSecret_alike alg length
    | false => exact .error _

/-- Whether a payload is signed does not depend on the bytes of a secret. -/
theorem sign (h : key.SecretsAlike key') (payload : Bytes) (header : Header) :
    RunsAlike (fun _ _ => True) (SignedToken.sign payload key header)
      (SignedToken.sign payload key' header) := by
  refine .after _ fun _ => .after _ fun alg => ?_
  refine .bind (h.require _ _ _) fun _ _ _ => .bind (h.forSigning alg) ?_
  rintro _ _ ⟨alg, secret, secret'⟩
  -- the parts of a token are looked at, but not its signature
  show RunsAlike _ (SignedToken.ofParts ..) (SignedToken.ofParts ..)
  unfold SignedToken.ofParts
  split
  · exact .error _
  · exact .after _ fun _ => .ok trivial

/-- The bytes of a secret decide only whether a signature is the right one. -/
theorem verify (h : key.SecretsAlike key') (t : SignedToken) :
    FailAlike (t.verify key) (t.verify key') := by
  have hverify : ∀ (s : Signer) (message signature : Bytes),
      FailsOnly (· = Error.signatureMismatch) (s.verify message signature) := by
    intro s message signature
    unfold Signer.verify
    split
    · exact .ok _
    · exact .error rfl
  refine .after _ fun alg => .bind (h.require _ _ _) fun _ _ _ => .bind (h.forVerification alg) ?_
  intro s s' _
  exact .of_failsOnly .signatureMismatch (.bind (hverify _ _ _) fun _ => .ok _)
    (.bind (hverify _ _ _) fun _ => .ok _)

/-! ### Encryption -/

/-- Whether a content key is sent does not depend on the bytes of a secret. -/
theorem send (h : key.SecretsAlike key') (alg : KeyManagement) (enc : ContentEncryption)
    (random random' : Randomness) :
    RunsAlike (fun _ _ => True) (alg.send enc key random) (alg.send enc key' random') := by
  cases h with
  | @intro secret secret' length params =>
    unfold KeyManagement.send
    cases alg with
    | rsaOaep256 | rsaOaep => exact .error _
    | a128Kw | a192Kw | a256Kw =>
      show RunsAlike _ (if some secret.bytes.length = _ then _ else _)
        (if some secret'.bytes.length = _ then _ else _)
      rw [length]
      split
      · exact .ok trivial
      · exact .error _
    | direct =>
      show RunsAlike _ (if secret.bytes.length = _ then _ else _)
        (if secret'.bytes.length = _ then _ else _)
      rw [length]
      split
      · exact .ok trivial
      · exact .error _

/-- Whether a payload is encrypted depends on neither the bytes of a secret nor the random bytes. -/
theorem encrypt (h : key.SecretsAlike key') (payload : Bytes) (header : Header)
    (random random' : Randomness) :
    RunsAlike (fun _ _ => True) (EncryptedToken.encrypt payload key header random)
      (EncryptedToken.encrypt payload key' header random') := by
  refine .after _ fun (alg, enc) => .bind (h.require _ _ _) fun _ _ _ => ?_
  refine .bind (h.send alg enc random random').outcomes ?_
  rintro sent sent' ⟨hsent, hsent'⟩
  -- content keys that are sent have the right length, so every content is encrypted
  have hcontent : ∀ (r : Randomness) {contentKey : Bytes}, contentKey.length = enc.keyBytes →
      ∃ ciphertext tag, enc.encrypt contentKey (r.ivBytes enc.ivBytes)
        (Bytes.ofString header.encode) payload = .ok (ciphertext, tag) :=
    fun r _ hlength =>
      ContentEncryption.exists_encrypt_eq_ok hlength (r.length_ivBytes _) _ payload
  obtain ⟨ciphertext, tag, hok⟩ := hcontent random (KeyManagement.length_of_send hsent)
  obtain ⟨ciphertext', tag', hok'⟩ := hcontent random' (KeyManagement.length_of_send hsent')
  simp only [hok, hok']
  show RunsAlike _ (EncryptedToken.ofParts ..) (EncryptedToken.ofParts ..)
  unfold EncryptedToken.ofParts
  split
  · exact .error _
  · exact .after _ fun _ => .ok trivial

/-- Whether a secret is admitted to the encrypted parts of a token does not depend on its bytes. -/
theorem failure_eq (h : key.SecretsAlike key') (header : Header) (ivLength : Nat) :
    EncryptedToken.failure header ivLength key = EncryptedToken.failure header ivLength key' := by
  cases h with
  | @intro secret secret' length params =>
    have hkind : ∀ alg : KeyManagement,
        alg.requireKind ⟨.symmetric secret, params⟩ =
          alg.requireKind ⟨.symmetric secret', params⟩ := by
      intro alg
      cases alg <;> rfl
    unfold EncryptedToken.failure EncryptedToken.admission
    simp only [hkind]
    rfl

/-- A decryption that fails is shown without the bytes of the secret. -/
theorem decrypt (h : key.SecretsAlike key') (t : EncryptedToken) :
    FailAlike (t.decrypt key) (t.decrypt key') := by
  intro e f he hf
  rw [EncryptedToken.hidden_of_decrypt_eq_error he, EncryptedToken.hidden_of_decrypt_eq_error hf,
    h.failure_eq]

/-! ### Texts -/

theorem verifyText (h : key.SecretsAlike key') (text : String) :
    FailAlike (WebToken.verifyText text key) (WebToken.verifyText text key') := by
  refine .after _ fun t => ?_
  cases t with
  | signed t => exact h.verify t
  | encrypted t => exact .refl _

theorem decryptText (h : key.SecretsAlike key') (text : String) :
    FailAlike (WebToken.decryptText text key) (WebToken.decryptText text key') := by
  refine .after _ fun t => ?_
  cases t with
  | signed t => exact .refl _
  | encrypted t => exact (h.decrypt t).mapError_hidden

end Key.SecretsAlike

/-! ## Private halves -/

namespace Key

variable {key key' : Key} {k : Rsa.PublicKey}

theorem publicJwk_of_rsaPublic? (h : key.rsaPublic? = some k) :
    key.publicJwk = .ok (.ofPublic k key.params) :=
  rsaPublic?_cases h (fun _ _ _ => rfl) fun _ _ _ => rfl

theorem requiredMembers_of_rsaPublic? (h : key.rsaPublic? = some k) :
    key.requiredMembers = requiredMembers.rsa k :=
  rsaPublic?_cases h (fun _ _ _ => rfl) fun _ _ _ => rfl

/-- An RSA key is no shared secret, and its kind says whether it has a private half. -/
theorem mismatch_of_rsaPublic? (h : key.rsaPublic? = some k) (alg expected : String) :
    key.secret? = none ∧ key.mismatch alg expected = .algorithmMismatch alg expected
      (if key.hasPrivate then "RSA private" else "RSA public") :=
  rsaPublic?_cases h (fun _ _ _ => ⟨rfl, rfl⟩) fun _ _ _ => ⟨rfl, rfl⟩

end Key

/-- Whether a token is refused under two keys that are no shared secrets, each refusal naming the
kind of its key. -/
def SignedToken.RefusesKinds (t : SignedToken) (key key' : Key) : Prop :=
  ∃ alg : SignatureAlgorithm, t.header.alg? = some alg.name ∧ alg.isHmac = true ∧
    t.verify key = .error (key.mismatch alg.name "symmetric") ∧
    t.verify key' = .error (key'.mismatch alg.name "symmetric")

/-- Whether two keys are RSA keys with the same public numbers and the same parameters. Each of them
may or may not have a private half. -/
structure Key.SamePublicHalf (key key' : Key) : Prop where
  numbers : ∃ k k', key.rsaPublic? = some k ∧ key'.rsaPublic? = some k' ∧
    k.modulus = k'.modulus ∧ k.exponent = k'.exponent
  params : key.params = key'.params

namespace Key.SamePublicHalf

variable {key key' : Key}

/-- The public numbers are all of a public key. -/
theorem exists_rsaPublic? (h : key.SamePublicHalf key') :
    ∃ k, key.rsaPublic? = some k ∧ key'.rsaPublic? = some k := by
  obtain ⟨⟨n, e, _, _, _, _, _⟩, ⟨n', e', _, _, _, _, _⟩, hk, hk', hn, he⟩ := h.numbers
  cases hn
  cases he
  exact ⟨_, hk, hk'⟩

/-- A public half is exported without a trace of the private half. -/
theorem exportPublic_eq (h : key.SamePublicHalf key') : key.exportPublic = key'.exportPublic := by
  obtain ⟨k, hk, hk'⟩ := h.exists_rsaPublic?
  rw [exportPublic, exportPublic, publicJwk_of_rsaPublic? hk, publicJwk_of_rsaPublic? hk', h.params]

theorem thumbprint_eq (h : key.SamePublicHalf key') : key.thumbprint = key'.thumbprint := by
  obtain ⟨k, hk, hk'⟩ := h.exists_rsaPublic?
  rw [thumbprint, thumbprint, requiredMembers_of_rsaPublic? hk, requiredMembers_of_rsaPublic? hk']

/-- Both keys are bound to an algorithm alike, unless it asks for a shared secret. -/
theorem forVerification_eq_or (h : key.SamePublicHalf key') (alg : SignatureAlgorithm) :
    Signer.forVerification alg key = Signer.forVerification alg key' ∨
      key.hasPrivate ≠ key'.hasPrivate ∧ alg.isHmac = true ∧
        Signer.forVerification alg key = .error (key.mismatch alg.name "symmetric") ∧
        Signer.forVerification alg key' = .error (key'.mismatch alg.name "symmetric") := by
  obtain ⟨k, hk, hk'⟩ := h.exists_rsaPublic?
  obtain ⟨hsecret, hmismatch⟩ := mismatch_of_rsaPublic? hk alg.name "symmetric"
  obtain ⟨hsecret', hmismatch'⟩ := mismatch_of_rsaPublic? hk' alg.name "symmetric"
  unfold Signer.forVerification
  rw [hk, hk', hsecret, hsecret']
  cases alg.isHmac with
  | false => exact .inl rfl
  | true =>
    by_cases hprivate : key.hasPrivate = key'.hasPrivate
    · rw [hmismatch, hmismatch', hprivate]
      exact .inl rfl
    · exact .inr ⟨hprivate, rfl, rfl, rfl⟩

/-- A token is verified under both keys with one outcome, unless it asks for a shared secret. -/
theorem verify_eq_or (h : key.SamePublicHalf key') (t : SignedToken) :
    t.verify key = t.verify key' ∨
      key.hasPrivate ≠ key'.hasPrivate ∧ t.RefusesKinds key key' := by
  cases halg : t.header.signatureAlgorithm with
  | error e =>
    refine .inl ?_
    rw [SignedToken.verify, SignedToken.verify, halg]
    rfl
  | ok alg =>
    have hsteps : ∀ key : Key, t.verify key =
        (key.require alg.name .signature [.verify] >>= fun _ =>
          Signer.forVerification alg key >>= fun signer =>
            signer.verify (Bytes.ofString t.signingInput) t.signature >>= fun _ =>
              .ok t.payload) := by
      intro key
      rw [SignedToken.verify, halg]
      rfl
    have hrequire := require_congr h.params alg.name .signature [.verify]
    rcases h.forVerification_eq_or alg with hsigner | ⟨hprivate, hhmac, hsigner, hsigner'⟩
    · refine .inl ?_
      rw [hsteps, hsteps, hrequire, hsigner]
    · -- the parameters of the keys are looked at before their kind
      rw [SignedToken.RefusesKinds, hsteps, hsteps, hrequire, hsigner, hsigner']
      cases key'.require alg.name .signature [.verify] with
      | error e => exact .inl rfl
      | ok _ =>
        exact .inr ⟨hprivate, alg, Header.signatureAlgorithm_eq_ok_iff.1 halg, hhmac, rfl, rfl⟩

/-- A text is verified under both keys with one outcome, unless its token asks for a shared
secret. -/
theorem verifyText_eq_or (h : key.SamePublicHalf key') (text : String) :
    WebToken.verifyText text key = WebToken.verifyText text key' ∨
      key.hasPrivate ≠ key'.hasPrivate ∧
        ∃ t, Token.ofText text = .ok (.signed t) ∧ t.RefusesKinds key key' := by
  unfold WebToken.verifyText
  cases Token.ofText text with
  | error e => exact .inl rfl
  | ok t =>
    cases t with
    | encrypted t => exact .inl rfl
    | signed t =>
      rcases h.verify_eq_or t with hverify | ⟨hprivate, hrefuses⟩
      · exact .inl hverify
      · exact .inr ⟨hprivate, t, rfl, hrefuses⟩

end Key.SamePublicHalf

/-! ## What shows -/

namespace Key

/-- Nothing shows the bytes of a secret: two secrets of one length with the same parameters have one
description, and whatever fails with both of them fails alike, also if the random bytes are others.
Nor does anything show the private half of an RSA key: what is exported of the public half, the
thumbprint, and the outcome of every verification are those of each key with the same public numbers
and parameters. The one exception is the refusal of a token that asks for a shared secret: it names
the kind of the key, and so differs if exactly one of the keys has a private half. -/
theorem secrets_do_not_show :
    (∀ key key' : Key, key.SecretsAlike key' →
      key.describe = key'.describe ∧ key.describeInner = key'.describeInner ∧
      (∀ payload header,
        FailAlike (SignedToken.sign payload key header) (SignedToken.sign payload key' header)) ∧
      (∀ t : SignedToken, FailAlike (t.verify key) (t.verify key')) ∧
      (∀ payload header random random',
        FailAlike (EncryptedToken.encrypt payload key header random)
          (EncryptedToken.encrypt payload key' header random')) ∧
      (∀ t : EncryptedToken, FailAlike (t.decrypt key) (t.decrypt key')) ∧
      (∀ text, FailAlike (verifyText text key) (verifyText text key')) ∧
      (∀ text, FailAlike (decryptText text key) (decryptText text key'))) ∧
    (∀ key key' : Key, key.SamePublicHalf key' →
      key.exportPublic = key'.exportPublic ∧ key.thumbprint = key'.thumbprint ∧
      (∀ t : SignedToken, t.verify key = t.verify key' ∨
        key.hasPrivate ≠ key'.hasPrivate ∧ t.RefusesKinds key key') ∧
      (∀ text, verifyText text key = verifyText text key' ∨
        key.hasPrivate ≠ key'.hasPrivate ∧
          ∃ t, Token.ofText text = .ok (.signed t) ∧ t.RefusesKinds key key')) := by
  constructor
  · intro key key' h
    refine ⟨h.describe_eq, h.describeInner_eq, ?_, h.verify, ?_, h.decrypt, h.verifyText,
      h.decryptText⟩
    · exact fun payload header => .of_runsAlike (h.sign payload header)
    · exact fun payload header random random' =>
        .of_runsAlike (h.encrypt payload header random random')
  · intro key key' h
    exact ⟨h.exportPublic_eq, h.thumbprint_eq, h.verify_eq_or, h.verifyText_eq_or⟩

theorem minModulusBits_le_ofMersenne :
    minModulusBits ≤ Rsa.PrivateKey.ofMersenne.toPublicKey.bits := by
  decide +kernel

/-- The key of two primes without its private half. -/
def publicOfMersenne : Key :=
  ⟨.rsaPublic Rsa.PrivateKey.ofMersenne.toPublicKey minModulusBits_le_ofMersenne, .none⟩

theorem samePublicHalf_ofMersenne : ofMersenne.SamePublicHalf publicOfMersenne :=
  ⟨⟨_, _, rfl, rfl, rfl, rfl⟩, rfl⟩

/-- A secret of ones. -/
def ofOnes : Key := ⟨.symmetric ⟨List.replicate 32 1, by decide⟩, .none⟩

/-- A secret of zeros is described as one of ones, and a private key has the thumbprint of its
public half. -/
theorem secrets_do_not_show_ofMersenne :
    (ofZeros 32 (by decide)).SecretsAlike ofOnes ∧
    (ofZeros 32 (by decide)).describe = ofOnes.describe ∧
    ofMersenne.SamePublicHalf publicOfMersenne ∧
    ofMersenne.thumbprint = publicOfMersenne.thumbprint :=
  have hsecrets : (ofZeros 32 (by decide)).SecretsAlike ofOnes := .intro (by decide) .none
  ⟨hsecrets, (secrets_do_not_show.1 _ _ hsecrets).1, samePublicHalf_ofMersenne,
    (secrets_do_not_show.2 _ _ samePublicHalf_ofMersenne).2.1⟩

/-- A token that names a keyed hash, and is not signed. -/
def unsignedToken : SignedToken :=
  let header := Header.signed .hs256
  ⟨header, header.encode, none, [], []⟩

/-- The refusal of a token that asks for a shared secret shows whether a key has a private half. -/
theorem not_forall_verify_eq :
    ¬ ∀ (key key' : Key) (t : SignedToken), key.SamePublicHalf key' →
      t.verify key = t.verify key' := by
  intro h
  have heq := h _ _ unsignedToken samePublicHalf_ofMersenne
  have hprivate : unsignedToken.verify ofMersenne =
      .error (.algorithmMismatch "HS256" "symmetric" "RSA private") := rfl
  have hpublic : unsignedToken.verify publicOfMersenne =
      .error (.algorithmMismatch "HS256" "symmetric" "RSA public") := rfl
  rw [hprivate, hpublic, Except.error.injEq, Error.algorithmMismatch.injEq] at heq
  exact absurd heq.2.2 (by decide)

end Key

end WebToken
