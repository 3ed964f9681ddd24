import WebToken.Proofs.Json.FiniteDoubles
import WebToken.Proofs.RoundTrip
import WebToken.Proofs.Rsa
import WebToken.Proofs.Verification

/-!
# Signed tokens verify

The conditions under which a token is signed are looked at one after the other
(`SignedToken.Check`), and the first one that fails is reported. They are not the conditions of
verification, which looks at the token and at the key again, but they imply them: whatever is
signed is verified with the same key, or with the public half of it, in whatever form it was
transmitted. Only how deep the header is nested is not looked at when a token is signed: a text of a
token with a header deeper than a reader goes is written, but cannot be read.

* `SignedToken.verify_of_sign` : a token just signed is verified;
* `SignedToken.sign_eq_error_iff` : what is reported if nothing is signed;
* `SignedToken.signs_and_verifies` : when a token is signed, and that its texts are verified.
-/

namespace WebToken

open Crypto

/-! ## Keys that sign -/

/-- Whether a key can sign with an algorithm: it is a shared secret at least as long as the hash, or
an RSA key with its private half, as the algorithm requires. -/
def Key.CanSign (key : Key) (alg : SignatureAlgorithm) : Prop :=
  (alg.isHmac = true ∧ ∃ secret, key.secret? = some secret ∧ alg.hash.size ≤ secret.length) ∨
  (alg.isHmac = false ∧ ∃ k, key.rsaPrivate? = some k)

/-- A shared secret of the given number of zeros. -/
def Key.ofZeros (n : Nat) (hn : n ≠ 0) : Key :=
  ⟨.symmetric ⟨List.replicate n 0, by simp [hn]⟩, .none⟩

/-- Zeros are a secret for every keyed hash that they are long enough for. -/
theorem Key.isSecretFor_ofZeros (alg : SignatureAlgorithm) (n : Nat) (hn : n ≠ 0)
    (hhmac : alg.isHmac = true) (hlong : alg.hash.size ≤ n) (operation : KeyOperation) :
    (Key.ofZeros n hn).IsSecretFor alg operation (List.replicate n 0) where
  isHmac := hhmac
  holds := rfl
  long := by
    rw [List.length_replicate]
    exact hlong
  permits := Key.permits_of_params rfl _ _ _

/-- Whether one key verifies what another signs: both hold the same secret, or the same public
numbers. -/
structure Key.VerifiesFor (key' key : Key) : Prop where
  secret : key'.secret? = key.secret?
  rsaPublic : key'.rsaPublic? = key.rsaPublic?

theorem Key.verifiesFor_self (key : Key) : key.VerifiesFor key := ⟨rfl, rfl⟩

/-- The public half of a key verifies what the key signs, and permits what it permits. -/
theorem Key.of_toPublic {key key' : Key} (h : key.toPublic = .ok key') :
    key'.params = key.params ∧ key'.VerifiesFor key :=
  Key.toPublic_cases h (fun _ _ _ => ⟨rfl, rfl, rfl⟩) fun _ _ _ => ⟨rfl, rfl, rfl⟩

theorem Key.VerifiesFor.signed {key key' : Key} {alg : SignatureAlgorithm}
    {message signature : Bytes} (hkey : key'.VerifiesFor key)
    (h : key.Signed alg message signature) : key'.Signed alg message signature := by
  unfold Key.Signed
  rw [hkey.secret, hkey.rsaPublic]
  exact h

namespace Signer

variable {alg : SignatureAlgorithm} {key : Key} {s : Signer}

/-- Exactly the keys that can sign make a signer. -/
theorem forSigning_eq_ok_iff :
    forSigning alg key = .ok s ↔
      (alg.isHmac = true ∧ ∃ secret, key.secret? = some secret ∧ alg.hash.size ≤ secret.length ∧
        s = .hmac alg secret) ∨
      (alg.isHmac = false ∧ ∃ k, key.rsaPrivate? = some k ∧ s = .rsaPrivate alg k) := by
  unfold forSigning
  cases ha : alg.isHmac with
  | true =>
    simp only [if_true, true_and, Bool.true_eq_false, false_and, or_false]
    cases key.secret? with
    | none => exact ⟨nofun, nofun⟩
    | some secret =>
      unfold ofSecret
      rw [ha]
      simp only [Bool.not_true, Bool.false_eq_true, if_false]
      by_cases hl : secret.length < alg.hash.size
      · rw [if_pos hl]
        refine ⟨nofun, ?_⟩
        rintro ⟨_, hsecret, hlong, -⟩
        cases hsecret
        omega
      · rw [if_neg hl]
        constructor
        · intro h
          cases h
          exact ⟨secret, rfl, Nat.le_of_not_lt hl, rfl⟩
        · rintro ⟨_, hsecret, -, rfl⟩
          cases hsecret
          rfl
  | false =>
    simp only [Bool.false_eq_true, if_false, false_and, true_and, false_or]
    cases key.rsaPrivate? with
    | none => exact ⟨nofun, nofun⟩
    | some k =>
      unfold ofPrivate
      rw [ha]
      constructor
      · intro h
        cases h
        exact ⟨k, rfl, rfl⟩
      · rintro ⟨_, hk, rfl⟩
        cases hk
        rfl

theorem exists_forSigning_iff : (∃ s, forSigning alg key = .ok s) ↔ key.CanSign alg := by
  simp only [forSigning_eq_ok_iff]
  constructor
  · rintro ⟨s, ⟨ha, secret, hsecret, hlong, -⟩ | ⟨ha, k, hk, -⟩⟩
    · exact .inl ⟨ha, secret, hsecret, hlong⟩
    · exact .inr ⟨ha, k, hk⟩
  · rintro (⟨ha, secret, hsecret, hlong⟩ | ⟨ha, k, hk⟩)
    · exact ⟨_, .inl ⟨ha, secret, hsecret, hlong, rfl⟩⟩
    · exact ⟨_, .inr ⟨ha, k, hk, rfl⟩⟩

/-- What a key signs is a signature by the key. -/
theorem signed_of_sign {message signature : Bytes} (hs : forSigning alg key = .ok s)
    (h : s.sign message = .ok signature) : key.Signed alg message signature := by
  rcases forSigning_eq_ok_iff.1 hs with ⟨ha, secret, hsecret, hlong, rfl⟩ | ⟨ha, k, hk, rfl⟩
  · exact .inl ⟨ha, secret, hsecret, hlong, (Except.ok.inj h).symm⟩
  · refine .inr ⟨ha, k.toPublicKey, Key.rsaPublic?_of_rsaPrivate? hk, ?_⟩
    unfold sign at h
    split at h
    · next hmac => cases hmac
    · next hpublic => cases hpublic
    · next hprivate =>
      cases hprivate
      split at h
      · next hsign =>
        cases h
        exact Rsa.PrivateKey.verify_of_sign? (Key.signedBytes_le_size hk) hsign
      · cases h

/-- A signer of a key that signs every message makes a signature. -/
theorem exists_sign (hs : forSigning alg key = .ok s)
    (hrsa : ∀ k, key.rsaPrivate? = some k → k.Signs) (message : Bytes) :
    ∃ signature, s.sign message = .ok signature := by
  rcases forSigning_eq_ok_iff.1 hs with ⟨-, secret, -, -, rfl⟩ | ⟨-, k, hk, rfl⟩
  · exact ⟨_, rfl⟩
  · obtain ⟨signature, hsign⟩ := hrsa k hk alg.hash message
    refine ⟨signature, ?_⟩
    rw [sign, hsign]

end Signer

namespace SignedToken

/-! ## Verifying what was signed -/

variable {payload : Bytes} {key key' : Key} {header : Header} {t : SignedToken}

/-- A token just signed, part by part. -/
theorem sign_eq_ok_iff :
    sign payload key header = .ok t ↔
      header.contains "crit" = false ∧ ∃ alg, header.alg? = some alg.name ∧
        key.Permits alg.name .signature [.sign] ∧
        ∃ s, Signer.forSigning alg key = .ok s ∧
          ∃ signature, s.sign (Bytes.ofString (inputOf header.encode payload)) = .ok signature ∧
            t = ⟨header, header.encode, none, payload, signature⟩ := by
  simp only [sign, bind_eq_ok_iff, ofParts_eq_ok_iff, Header.signatureAlgorithm_eq_ok_iff]
  constructor
  · rintro ⟨_, hcrit, alg, halg, _, hpermits, s, hs, signature, hsign, rfl, -⟩
    exact ⟨Header.refuseCritical_eq_ok_iff.1 hcrit, alg, halg, Key.permits_iff.1 hpermits, s, hs,
      signature, hsign, rfl⟩
  · rintro ⟨hcrit, alg, halg, hpermits, s, hs, signature, hsign, rfl⟩
    refine ⟨(), Header.refuseCritical_eq_ok_iff.2 hcrit, alg, halg, (),
      Key.permits_iff.2 hpermits, s, hs, signature, hsign, rfl, ?_, nofun⟩
    show header.alg?.isSome = true
    rw [halg]
    rfl

theorem header_of_sign (h : sign payload key header = .ok t) : t.header = header := by
  obtain ⟨-, -, -, -, -, -, -, -, rfl⟩ := sign_eq_ok_iff.1 h
  rfl

/-- A shared secret signs with the keyed hash of what is signed. -/
theorem sign_of_secret {alg : SignatureAlgorithm} {secret : Bytes}
    (hcrit : header.contains "crit" = false) (halg : header.alg? = some alg.name)
    (hkey : key.IsSecretFor alg .sign secret) :
    sign payload key header =
      .ok ⟨header, header.encode, none, payload,
        alg.hash.hmac secret (Bytes.ofString (inputOf header.encode payload))⟩ :=
  sign_eq_ok_iff.2 ⟨hcrit, alg, halg, hkey.permits, .hmac alg secret,
    Signer.forSigning_eq_ok_iff.2 (.inl ⟨hkey.isHmac, secret, hkey.holds, hkey.long, rfl⟩), _, rfl,
    rfl⟩

/-- A token just signed is verified by every key that verifies for the one that signed it, unless
that key is restricted otherwise; what else stands in the header does not matter. -/
theorem verify_of_verifiesFor (h : sign payload key header = .ok t) (hkey : key'.VerifiesFor key)
    (hpermits : ∀ alg, header.alg? = some (SignatureAlgorithm.name alg) →
      key'.Permits alg.name .signature [.verify])
    (h' : Header) (halg : h'.alg? = header.alg?) :
    ({ t with header := h' } : SignedToken).verify key' = .ok payload := by
  obtain ⟨-, alg, hname, -, s, hs, signature, hsign, rfl⟩ := sign_eq_ok_iff.1 h
  have hsigned := hkey.signed (Signer.signed_of_sign hs hsign)
  exact verify_eq_ok_iff.2 ⟨rfl, alg, halg.trans hname, hpermits alg hname, hsigned⟩

/-- A token just signed is verified by the key, or by its public half. -/
theorem verify_of_sign (h : sign payload key header = .ok t)
    (hkey : key' = key ∨ key.toPublic = .ok key')
    (hverify : ∀ allowed, key'.params.operations = some allowed → .verify ∈ allowed)
    (h' : Header) (halg : h'.alg? = header.alg?) :
    ({ t with header := h' } : SignedToken).verify key' = .ok payload := by
  -- the public half of a key has the parameters of the key
  have hshared : key'.params = key.params ∧ key'.VerifiesFor key := by
    rcases hkey with rfl | hpublic
    · exact ⟨rfl, key'.verifiesFor_self⟩
    · exact Key.of_toPublic hpublic
  obtain ⟨-, alg, hname, ⟨hkeyAlg, hkeyUse, -⟩, -⟩ := sign_eq_ok_iff.1 h
  rw [← hshared.1] at hkeyAlg hkeyUse
  refine verify_of_verifiesFor h hshared.2 (fun alg' halg' => ?_) h' halg
  rw [← Option.some.inj (hname.symm.trans halg')]
  exact ⟨hkeyAlg, hkeyUse, fun allowed hallowed =>
    ⟨.verify, List.mem_singleton_self _, hverify allowed hallowed⟩⟩

/-- A token just signed is written in every form, and read with the header that the text of its
header denotes. -/
theorem ofText_of_sign (h : sign payload key header = .ok t) (hheader : header.Denotable)
    (form : Form) :
    ∃ text, t.text form = .ok text ∧
      Token.ofText text = .ok (.signed { t with header := header.reread }) := by
  obtain ⟨hcrit, alg, hname, -, -, -, signature, -, rfl⟩ := sign_eq_ok_iff.1 h
  have halg : header.reread.alg?.isSome = true := by
    rw [Header.alg?, Header.text?_reread, ← Header.alg?, hname]
    rfl
  refine Token.ofText_reread
    (t := .signed ⟨header, header.encode, none, payload, signature⟩) ⟨halg, ?_⟩ rfl
    (Header.decode_encode_reread hheader hcrit) form
  intro u hu
  cases hu

/-- The texts of a token just signed are verified. -/
theorem verifyText_of_sign (h : sign payload key header = .ok t)
    (hkey : key' = key ∨ key.toPublic = .ok key')
    (hverify : ∀ allowed, key'.params.operations = some allowed → .verify ∈ allowed)
    (hheader : header.Denotable) (form : Form) :
    ∃ text, (Token.signed t).text form = .ok text ∧ verifyText text key' = .ok payload := by
  have hread := verify_of_sign h hkey hverify header.reread (Header.text?_reread header "alg")
  obtain ⟨text, htext, hof⟩ := ofText_of_sign h hheader form
  exact ⟨text, htext, (verifyText_of_ofText hof key').trans hread⟩

/-- The texts of a token just signed are malformed if the header is nested too deep for a reader. -/
theorem verifyText_of_nested (h : sign payload key header = .ok t)
    (hheader : (Json.Value.object header.parameters).Printable)
    (hdepth : Json.Document.maxDepth < header.depth) (key' : Key) (form : Form) :
    ∃ text, (Token.signed t).text form = .ok text ∧
      verifyText text key' = .error (.malformedToken (.headerSyntax .nestedTooDeep)) := by
  obtain ⟨hcrit, -, -, -, -, -, signature, -, rfl⟩ := sign_eq_ok_iff.1 h
  have hdecode := Header.decode_encode_of_depth hheader.wellFormed hheader.finiteDoubles hcrit
  rw [if_neg (Nat.not_le.2 hdepth)] at hdecode
  obtain ⟨text, htext, hof⟩ := Token.ofText_of_decode_error
    (t := ⟨header, header.encode, none, payload, signature⟩) rfl rfl hdecode form
  refine ⟨text, htext, ?_⟩
  rw [verifyText, hof]
  rfl

/-- The texts of a token just signed are verified exactly if a reader goes as deep as its header. -/
theorem verifyText_of_printable (h : sign payload key header = .ok t)
    (hkey : key' = key ∨ key.toPublic = .ok key')
    (hverify : ∀ allowed, key'.params.operations = some allowed → .verify ∈ allowed)
    (hheader : (Json.Value.object header.parameters).Printable) (form : Form) :
    ∃ text, (Token.signed t).text form = .ok text ∧
      verifyText text key' =
        if header.depth ≤ Json.Document.maxDepth then .ok payload
        else .error (.malformedToken (.headerSyntax .nestedTooDeep)) := by
  by_cases hdepth : header.depth ≤ Json.Document.maxDepth
  · rw [if_pos hdepth]
    exact verifyText_of_sign h hkey hverify ⟨hheader.wellFormed, hheader.finiteDoubles, hdepth⟩ form
  · rw [if_neg hdepth]
    exact verifyText_of_nested h hheader (Nat.not_le.1 hdepth) key' form

/-- The compact text that a shared secret signs is verified. -/
theorem verifyText_of_secret {alg : SignatureAlgorithm} {secret : Bytes} (payload : Bytes)
    (hheader : header.Denotable) (hcrit : header.contains "crit" = false)
    (halg : header.alg? = some alg.name) (hkey : ∀ operation, key.IsSecretFor alg operation secret) :
    verifyText (".".intercalate [header.encode, Base64Url.encode payload,
      Base64Url.encode (alg.hash.hmac secret (Bytes.ofString (inputOf header.encode payload)))]) key =
        .ok payload := by
  have hsign : sign payload key header = .ok _ := sign_of_secret hcrit halg (hkey .sign)
  have hverify : ∀ allowed, key.params.operations = some allowed → .verify ∈ allowed := by
    intro allowed hallowed
    obtain ⟨o, ho, hmem⟩ := (hkey .verify).permits.2.2 allowed hallowed
    rwa [List.mem_singleton.1 ho] at hmem
  obtain ⟨text, htext, h⟩ := verifyText_of_sign hsign (.inl rfl) hverify hheader .compact
  cases htext
  exact h

/-! ## What is reported -/

/-- The checks before a token is signed. -/
inductive Check where
  | critical
  | algorithm
  | keyAlgorithm
  | keyUse
  | keyOperations
  | keyMaterial
  deriving Repr, DecidableEq

/-- The place of a check in the order in which they are made. -/
def Check.place : Check → Nat
  | critical => 0
  | algorithm => 1
  | keyAlgorithm => 2
  | keyUse => 3
  | keyOperations => 4
  | keyMaterial => 5

/-- Whether a check fails for a key and a header, whatever the others do, and what it reports
then. -/
def Check.Fails (key : Key) (header : Header) : Check → Error → Prop
  | critical, e => header.contains "crit" = true ∧ e = .malformedToken .criticalParameters
  | algorithm, e =>
    (header.alg? = none ∧ e = .invalidParameter .missingAlg) ∨
    ∃ name, header.alg? = some name ∧ (∀ alg, SignatureAlgorithm.name alg ≠ name) ∧
      e = .unsupportedAlgorithm name
  | keyAlgorithm, e =>
    ∃ name declared, header.alg? = some name ∧ key.params.alg = some declared ∧ declared ≠ name ∧
      e = .algorithmMismatch name s!"alg={name}" s!"alg={declared}"
  | keyUse, e =>
    ∃ declared, key.params.use = some declared ∧ declared ≠ .signature ∧
      e = .unsupportedOperation (.restrictedTo declared)
  | keyOperations, e =>
    ∃ allowed, key.params.operations = some allowed ∧ .sign ∉ allowed ∧
      e = .unsupportedOperation (.notPermitted [.sign])
  | keyMaterial, e =>
    ∃ alg, header.alg? = some (SignatureAlgorithm.name alg) ∧
      ((alg.isHmac = true ∧ key.secret? = none ∧ e = key.mismatch alg.name "symmetric") ∨
       (alg.isHmac = true ∧ ∃ secret, key.secret? = some secret ∧
          secret.length < alg.hash.size ∧
          e = .invalidParameter (.shortSecret alg (8 * secret.length))) ∨
       (alg.isHmac = false ∧ key.rsaPrivate? = none ∧ e = key.mismatch alg.name "RSA private"))

namespace Check

variable {alg : SignatureAlgorithm} {e : Error}

/-! ### One check -/

theorem refuseCritical_eq_error_iff :
    header.refuseCritical = .error e ↔ Fails key header .critical e := by
  unfold Header.refuseCritical Fails
  cases header.contains "crit" <;> simp [eq_comm]

theorem signatureAlgorithm_eq_error_iff :
    header.signatureAlgorithm = .error e ↔ Fails key header .algorithm e := by
  unfold Header.signatureAlgorithm Header.algorithm Fails
  cases header.alg? with
  | none => simp [eq_comm]
  | some name =>
    show algorithmNamed SignatureAlgorithm.ofName? name = .error e ↔ _
    unfold algorithmNamed
    cases hof : SignatureAlgorithm.ofName? name with
    | none =>
      have hunknown : ∀ alg, SignatureAlgorithm.name alg ≠ name := by
        rintro alg rfl
        rw [SignatureAlgorithm.ofName?_name] at hof
        cases hof
      constructor
      · intro h
        exact .inr ⟨name, rfl, hunknown, (Except.error.inj h).symm⟩
      · rintro (⟨h, -⟩ | ⟨_, h, -, rfl⟩)
        · cases h
        · cases h
          rfl
    | some alg =>
      have hname := SignatureAlgorithm.ofName?_eq_some_iff.1 hof
      simp [hname]

theorem requireAlg_eq_error_iff {name : String} (hname : header.alg? = some name) :
    key.requireAlg name = .error e ↔ Fails key header .keyAlgorithm e := by
  unfold Key.requireAlg Fails
  rw [hname]
  cases key.params.alg with
  | none => simp
  | some declared => by_cases h : declared = name <;> simp [h, eq_comm]

theorem requireUse_eq_error_iff :
    key.requireUse .signature = .error e ↔ Fails key header .keyUse e := by
  unfold Key.requireUse Fails
  cases key.params.use with
  | none => simp
  | some declared => by_cases h : declared = .signature <;> simp [h, eq_comm]

theorem requireAnyOf_eq_error_iff :
    key.requireAnyOf [.sign] = .error e ↔ Fails key header .keyOperations e := by
  unfold Key.requireAnyOf Fails
  cases key.params.operations with
  | none => simp
  | some allowed => by_cases h : .sign ∈ allowed <;> simp [h, eq_comm]

theorem forSigning_eq_error_iff (halg : header.alg? = some alg.name) :
    Signer.forSigning alg key = .error e ↔ Fails key header .keyMaterial e := by
  have hunique : ∀ {P : SignatureAlgorithm → Prop},
      (∃ alg', header.alg? = some (SignatureAlgorithm.name alg') ∧ P alg') ↔ P alg := by
    intro P
    constructor
    · rintro ⟨alg', halg', h⟩
      -- the header names one algorithm only
      rw [halg, Option.some.injEq, ← SignatureAlgorithm.ofName?_eq_some_iff,
        SignatureAlgorithm.ofName?_name, Option.some.injEq] at halg'
      rwa [halg']
    · exact fun h => ⟨alg, halg, h⟩
  simp only [Signer.forSigning, Fails, hunique]
  cases ha : alg.isHmac with
  | true =>
    cases key.secret? with
    | none => simp [eq_comm]
    | some secret =>
      by_cases hshort : secret.length < alg.hash.size <;>
        simp [Signer.ofSecret, ha, hshort, eq_comm]
  | false =>
    cases key.rsaPrivate? with
    | none => simp [eq_comm]
    | some k => simp [Signer.ofPrivate, ha]

/-! ### One check after the other -/

theorem exists_ok_of_forall_ne_error {ε α : Type} {x : Except ε α} (h : ∀ e, x ≠ .error e) :
    ∃ a, x = .ok a := by
  cases x with
  | error e => exact absurd rfl (h e)
  | ok a => exact ⟨a, rfl⟩

/-- Whether none of the first `n` checks fails. -/
def PassesBelow (key : Key) (header : Header) (n : Nat) : Prop :=
  ∀ c : Check, c.place < n → ∀ e, ¬Fails key header c e

variable {n : Nat}

theorem PassesBelow.critical (h : PassesBelow key header n) (hn : 0 < n) :
    header.refuseCritical = .ok () := by
  obtain ⟨_, hok⟩ := exists_ok_of_forall_ne_error fun e he =>
    h .critical hn e (refuseCritical_eq_error_iff.1 he)
  exact hok

theorem PassesBelow.algorithm (h : PassesBelow key header n) (hn : 1 < n) :
    ∃ alg, header.alg? = some (SignatureAlgorithm.name alg) := by
  obtain ⟨alg, hok⟩ := exists_ok_of_forall_ne_error fun e he =>
    h .algorithm hn e (signatureAlgorithm_eq_error_iff.1 he)
  exact ⟨alg, Header.signatureAlgorithm_eq_ok_iff.1 hok⟩

theorem PassesBelow.keyAlgorithm (h : PassesBelow key header n) (hn : 2 < n)
    (halg : header.alg? = some alg.name) : key.requireAlg alg.name = .ok () := by
  obtain ⟨_, hok⟩ := exists_ok_of_forall_ne_error fun e he =>
    h .keyAlgorithm hn e ((requireAlg_eq_error_iff halg).1 he)
  exact hok

theorem PassesBelow.keyUse (h : PassesBelow key header n) (hn : 3 < n) :
    key.requireUse .signature = .ok () := by
  obtain ⟨_, hok⟩ := exists_ok_of_forall_ne_error fun e he =>
    h .keyUse hn e (requireUse_eq_error_iff.1 he)
  exact hok

theorem PassesBelow.keyOperations (h : PassesBelow key header n) (hn : 4 < n) :
    key.requireAnyOf [.sign] = .ok () := by
  obtain ⟨_, hok⟩ := exists_ok_of_forall_ne_error fun e he =>
    h .keyOperations hn e (requireAnyOf_eq_error_iff.1 he)
  exact hok

theorem PassesBelow.keyMaterial (h : PassesBelow key header n) (hn : 5 < n)
    (halg : header.alg? = some alg.name) : ∃ s, Signer.forSigning alg key = .ok s :=
  exists_ok_of_forall_ne_error fun e he => h .keyMaterial hn e ((forSigning_eq_error_iff halg).1 he)

end Check

/-- If no check fails, a token is signed. -/
theorem exists_sign_of_passes (payload : Bytes) (hrsa : ∀ k, key.rsaPrivate? = some k → k.Signs)
    (h : Check.PassesBelow key header 6) : ∃ t, sign payload key header = .ok t := by
  obtain ⟨alg, halg⟩ := h.algorithm (by decide)
  obtain ⟨s, hs⟩ := h.keyMaterial (by decide) halg
  obtain ⟨signature, hsign⟩ :=
    Signer.exists_sign hs hrsa (Bytes.ofString (inputOf header.encode payload))
  have hcrit := Header.refuseCritical_eq_ok_iff.1 (h.critical (by decide))
  refine ⟨_, sign_eq_ok_iff.2
    ⟨hcrit, alg, halg, ⟨?_, ?_, ?_⟩, s, hs, signature, hsign, rfl⟩⟩
  · exact Key.requireAlg_eq_ok_iff.1 (h.keyAlgorithm (by decide) halg)
  · exact Key.requireUse_eq_ok_iff.1 (h.keyUse (by decide))
  · exact Key.requireAnyOf_eq_ok_iff.1 (h.keyOperations (by decide))

/-- The first check that fails is reported. -/
theorem sign_eq_error_of_fails (payload : Bytes) {c : Check} {e : Error}
    (h : Check.PassesBelow key header c.place) (hc : c.Fails key header e) :
    sign payload key header = .error e := by
  simp only [sign, Key.require, bind_eq_error_iff]
  cases c with
  | critical => exact .inl (Check.refuseCritical_eq_error_iff.2 hc)
  | algorithm =>
    exact .inr ⟨(), h.critical (by decide), .inl (Check.signatureAlgorithm_eq_error_iff.2 hc)⟩
  | keyAlgorithm =>
    obtain ⟨alg, halg⟩ := h.algorithm (by decide)
    exact .inr ⟨(), h.critical (by decide), .inr ⟨alg, Header.signatureAlgorithm_eq_ok_iff.2 halg,
      .inl (.inl ((Check.requireAlg_eq_error_iff halg).2 hc))⟩⟩
  | keyUse =>
    obtain ⟨alg, halg⟩ := h.algorithm (by decide)
    exact .inr ⟨(), h.critical (by decide), .inr ⟨alg, Header.signatureAlgorithm_eq_ok_iff.2 halg,
      .inl (.inr ⟨(), h.keyAlgorithm (by decide) halg,
        .inl (Check.requireUse_eq_error_iff.2 hc)⟩)⟩⟩
  | keyOperations =>
    obtain ⟨alg, halg⟩ := h.algorithm (by decide)
    exact .inr ⟨(), h.critical (by decide), .inr ⟨alg, Header.signatureAlgorithm_eq_ok_iff.2 halg,
      .inl (.inr ⟨(), h.keyAlgorithm (by decide) halg,
        .inr ⟨(), h.keyUse (by decide), Check.requireAnyOf_eq_error_iff.2 hc⟩⟩)⟩⟩
  | keyMaterial =>
    obtain ⟨alg, halg⟩ := h.algorithm (by decide)
    have hpermits : key.require alg.name .signature [.sign] = .ok () :=
      bind_eq_ok_iff.2 ⟨(), h.keyAlgorithm (by decide) halg,
        bind_eq_ok_iff.2 ⟨(), h.keyUse (by decide), h.keyOperations (by decide)⟩⟩
    exact .inr ⟨(), h.critical (by decide), .inr ⟨alg, Header.signatureAlgorithm_eq_ok_iff.2 halg,
      .inr ⟨(), hpermits, .inl ((Check.forSigning_eq_error_iff halg).2 hc)⟩⟩⟩

/-- What is reported if nothing is signed is what the first check reports that fails. -/
theorem sign_eq_error_iff (payload : Bytes) (hrsa : ∀ k, key.rsaPrivate? = some k → k.Signs)
    {e : Error} :
    sign payload key header = .error e ↔
      ∃ c : Check, c.Fails key header e ∧ Check.PassesBelow key header c.place := by
  constructor
  · intro h
    by_contra hnone
    -- a first check that fails would report the same, so every check passes
    have hpasses : ∀ n, Check.PassesBelow key header n := by
      intro n
      induction n with
      | zero => exact fun c hc => absurd hc (Nat.not_lt_zero _)
      | succ n ih =>
        intro c hc e' hfails
        have hbelow : Check.PassesBelow key header c.place := fun c' hc' => ih c' (by omega)
        rw [sign_eq_error_of_fails payload hbelow hfails] at h
        cases h
        exact hnone ⟨c, hfails, hbelow⟩
    obtain ⟨t, ht⟩ := exists_sign_of_passes payload hrsa (hpasses 6)
    rw [ht] at h
    cases h
  · rintro ⟨c, hc, h⟩
    exact sign_eq_error_of_fails payload h hc

/-- A token is signed exactly under a header with a known algorithm and without critical parameters,
and with a key that permits it and is of the right kind and length. -/
theorem exists_sign_iff (payload : Bytes) (hrsa : ∀ k, key.rsaPrivate? = some k → k.Signs) :
    (∃ t, sign payload key header = .ok t) ↔
      header.contains "crit" = false ∧ ∃ alg, header.alg? = some alg.name ∧
        key.Permits alg.name .signature [.sign] ∧ key.CanSign alg := by
  constructor
  · rintro ⟨t, h⟩
    obtain ⟨hcrit, alg, halg, hpermits, s, hs, -⟩ := sign_eq_ok_iff.1 h
    exact ⟨hcrit, alg, halg, hpermits, Signer.exists_forSigning_iff.1 ⟨s, hs⟩⟩
  · rintro ⟨hcrit, alg, halg, hpermits, hkey⟩
    obtain ⟨s, hs⟩ := Signer.exists_forSigning_iff.2 hkey
    obtain ⟨signature, hsign⟩ :=
      Signer.exists_sign hs hrsa (Bytes.ofString (inputOf header.encode payload))
    exact ⟨_, sign_eq_ok_iff.2 ⟨hcrit, alg, halg, hpermits, s, hs, signature, hsign, rfl⟩⟩

/-! ## Signing and verifying -/

/-- Signing and verifying agree.

What is signed is verified with the key or with its public half, unless the key lists operations
and not that of verifying. This holds of the token, and of its text in every form if a reader goes as
deep as its header is nested; otherwise the text is malformed in every form. Let the key sign every
message if it is an RSA key: then a token is signed exactly if all checks pass, and otherwise the
first check that fails is reported, in the order of `Check.place`. -/
theorem signs_and_verifies (payload : Bytes) (key : Key) (header : Header) :
    (∀ t key', sign payload key header = .ok t → key' = key ∨ key.toPublic = .ok key' →
      (∀ allowed, key'.params.operations = some allowed → .verify ∈ allowed) →
      t.verify key' = .ok payload ∧
        ((Json.Value.object header.parameters).Printable → ∀ form, ∃ text,
          t.text form = .ok text ∧
          verifyText text key' =
            if header.depth ≤ Json.Document.maxDepth then .ok payload
            else .error (.malformedToken (.headerSyntax .nestedTooDeep)))) ∧
    ((∀ k, key.rsaPrivate? = some k → k.Signs) →
      ((∃ t, sign payload key header = .ok t) ↔
        header.contains "crit" = false ∧ ∃ alg, header.alg? = some alg.name ∧
          key.Permits alg.name .signature [.sign] ∧ key.CanSign alg) ∧
      ∀ e, sign payload key header = .error e ↔
        ∃ c : Check, c.Fails key header e ∧
          ∀ c' : Check, c'.place < c.place → ∀ e', ¬c'.Fails key header e') := by
  refine ⟨fun t key' h hkey hverify => ⟨?_, ?_⟩, fun hrsa => ⟨exists_sign_iff payload hrsa,
    fun e => sign_eq_error_iff payload hrsa⟩⟩
  · have hverified := verify_of_sign h hkey hverify header rfl
    rw [← header_of_sign h] at hverified
    exact hverified
  · exact fun hheader form => verifyText_of_printable h hkey hverify hheader form

/-- The key of two primes signs a token, and its public half verifies the texts of it. Under a
header that names no algorithm, but has critical parameters, only these are reported. -/
theorem signs_and_verifies_ofMersenne :
    (∃ t key', sign [] .ofMersenne (.signed .rs256) = .ok t ∧
      Key.ofMersenne.toPublic = .ok key' ∧ t.verify key' = .ok [] ∧
      ∀ form, ∃ text, t.text form = .ok text ∧ verifyText text key' = .ok []) ∧
    sign [] .ofMersenne ⟨[("crit", .array [])]⟩ = .error (.malformedToken .criticalParameters) := by
  have hsigns : ∀ k, Key.ofMersenne.rsaPrivate? = some k → k.Signs := fun k hk =>
    (Key.sound_ofMersenne hk).signs (Key.signedBytes_le_size hk)
  constructor
  · have hheader := Header.denotable_signed .rs256
    obtain ⟨hverified, hsigned⟩ := signs_and_verifies [] .ofMersenne (.signed .rs256)
    obtain ⟨t, ht⟩ := (hsigned hsigns).1.2
      ⟨rfl, .rs256, rfl, Key.permits_of_params rfl _ _ _, .inr ⟨rfl, _, rfl⟩⟩
    obtain ⟨hverify, htexts⟩ := hverified t _ ht (.inr rfl) nofun
    have hread := htexts ⟨hheader.wellFormed, hheader.finiteDoubles⟩
    simp only [if_pos hheader.depth] at hread
    exact ⟨t, _, ht, rfl, hverify, hread⟩
  · obtain ⟨-, hsigned⟩ := signs_and_verifies [] .ofMersenne ⟨[("crit", .array [])]⟩
    exact ((hsigned hsigns).2 _).2
      ⟨.critical, ⟨rfl, rfl⟩, fun c' hc' => absurd hc' (Nat.not_lt_zero _)⟩

/-- Arrays of one item, nested a number of times. -/
def nestedArrays : Nat → Json.Value
  | 0 => .null
  | n + 1 => .array [nestedArrays n]

theorem depth_nestedArrays (n : Nat) : (nestedArrays n).depth = n := by
  induction n with
  | zero => rfl
  | succ n ih =>
    rw [nestedArrays, Json.Value.depth, Json.Value.depthItems, Json.Value.depthItems, ih,
      Nat.max_zero]

theorem printable_nestedArrays (n : Nat) : (nestedArrays n).Printable := by
  induction n with
  | zero => exact ⟨trivial, nofun⟩
  | succ n ih =>
    refine ⟨Json.Value.all_array.2 ⟨trivial, ?_⟩, Json.Value.all_array.2 ⟨nofun, ?_⟩⟩
    · exact List.forall_mem_singleton.2 ih.wellFormed
    · exact List.forall_mem_singleton.2 ih.finiteDoubles

/-- Not all texts of tokens that are signed are verified: under a header that is nested 128 deep a
shared secret signs a token, and its compact text is malformed. -/
theorem not_forall_signs_and_verifies :
    ¬∀ (payload : Bytes) (key key' : Key) (header : Header) (t : SignedToken),
      (Json.Value.object header.parameters).Printable →
      sign payload key header = .ok t → key' = key ∨ key.toPublic = .ok key' →
      (∀ allowed, key'.params.operations = some allowed → .verify ∈ allowed) →
      ∀ form, ∃ text, t.text form = .ok text ∧ verifyText text key' = .ok payload := by
  intro hall
  let header : Header := ⟨[("alg", .string "HS256"), ("x", nestedArrays 127)]⟩
  have hheader : (Json.Value.object header.parameters).Printable := by
    refine Json.Value.printable_object (by decide : ["alg", "x"].Nodup) ?_
    exact List.forall_mem_cons.2
      ⟨⟨trivial, nofun⟩, List.forall_mem_singleton.2 (printable_nestedArrays 127)⟩
  have hdepth : header.depth = 128 := by
    show max 0 (max (nestedArrays 127).depth 0) + 1 = 128
    rw [depth_nestedArrays]
    rfl
  have hsign : sign [] (Key.ofZeros 32 (by decide)) header = .ok _ :=
    sign_of_secret rfl rfl (Key.isSecretFor_ofZeros .hs256 32 (by decide) rfl (by decide) .sign)
  obtain ⟨text, htext, hverified⟩ := hall [] _ _ header _ hheader hsign (.inl rfl) nofun .compact
  obtain ⟨text', htext', hmalformed⟩ := verifyText_of_nested hsign hheader
    (by rw [hdepth]; decide) (Key.ofZeros 32 (by decide)) .compact
  cases htext.symm.trans htext'
  cases hverified.symm.trans hmalformed

end SignedToken

end WebToken
