import WebToken.Proofs.Decryption
import WebToken.Proofs.Encryption
import WebToken.Proofs.Signing

/-!
# What a key says about itself only restricts

Every operation on tokens looks at the header first, then at the parameters of the key, and then
goes on with the material of the key alone. So the parameters take uses away and add none: with
another set of them the operation gives what it gives without any, or it is refused before anything
is done with the key.

* `Key.OnlyRestricts` : what that means for an operation;
* `Key.OnlyRestricts.of_steps` : it holds of every operation that goes through these steps;
* `Key.params_only_restrict` : it holds of signing, verifying, encrypting and decrypting.
-/

namespace WebToken

namespace Key

variable {key : Key} {alg : String} {use : KeyUse} {operations : List KeyOperation}

/-! ## What is refused -/

/-- A key that names another algorithm is refused for that, whatever else it says. -/
theorem require_of_alg_ne {declared : String} (halg : key.params.alg = some declared)
    (hne : declared ≠ alg) :
    key.require alg use operations =
      .error (.algorithmMismatch alg s!"alg={alg}" s!"alg={declared}") := by
  have hrefused : key.requireAlg alg =
      .error (.algorithmMismatch alg s!"alg={alg}" s!"alg={declared}") := by
    rw [requireAlg, halg]
    exact if_neg hne
  exact bind_eq_error_iff.2 (.inl hrefused)

/-- What is wrong with a use of a key that names no other algorithm: another purpose is reported
before missing operations. -/
def usageFault (key : Key) (use : KeyUse) (operations : List KeyOperation) : UsageFault :=
  match key.params.use with
  | some declared => if declared = use then .notPermitted operations else .restrictedTo declared
  | none => .notPermitted operations

/-- A key that names no other algorithm is refused for its purpose or its operations. -/
theorem require_of_not_permits
    (halg : ∀ declared, key.params.alg = some declared → declared = alg)
    (hnot : ¬key.Permits alg use operations) :
    key.require alg use operations =
      .error (.unsupportedOperation (key.usageFault use operations)) := by
  refine bind_eq_error_iff.2 (.inr ⟨(), requireAlg_eq_ok_iff.2 halg, bind_eq_error_iff.2 ?_⟩)
  by_cases huse : ∀ declared, key.params.use = some declared → declared = use
  · refine .inr ⟨(), requireUse_eq_ok_iff.2 huse, ?_⟩
    have hfault : key.usageFault use operations = .notPermitted operations := by
      unfold usageFault
      cases hdeclared : key.params.use with
      | none => rfl
      | some declared => exact if_pos (huse declared hdeclared)
    -- only the operations are left to be refused
    have hoperations : key.requireAnyOf operations ≠ .ok () := fun hok =>
      hnot ⟨halg, huse, requireAnyOf_eq_ok_iff.1 hok⟩
    rw [hfault]
    unfold requireAnyOf at hoperations ⊢
    split
    · next hnone =>
      rw [hnone] at hoperations
      exact absurd rfl hoperations
    · next allowed hallowed =>
      rw [hallowed] at hoperations
      exact if_neg fun hany => hoperations (if_pos hany)
  · left
    simp only [not_forall] at huse
    obtain ⟨declared, hdeclared, hne⟩ := huse
    unfold requireUse usageFault
    rw [hdeclared]
    simp only [if_neg hne]

/-! ## Operations -/

variable {α β : Type}

/-- Whether the parameters of a key only restrict an operation. A header may be acceptable to the
operation, with what it names (`accepted`); that has the name of an algorithm, and either of some
operations permits a key to be used for it. -/
structure OnlyRestricts (run : Key → Except Error β) (accepted : α → Prop) (name : α → String)
    (use : KeyUse) (operations : α → List KeyOperation) : Prop where
  /-- There is a result exactly if there is one without parameters, and the parameters permit it. -/
  ok_iff : ∀ key r, run key = .ok r ↔
    run key.bare = .ok r ∧ ∃ a, accepted a ∧ key.Permits (name a) use (operations a)
  /-- If the parameters permit it, they do not matter for a failure either. -/
  permitted : ∀ key a, accepted a → key.Permits (name a) use (operations a) →
    run key = run key.bare
  /-- Otherwise another algorithm is reported first, -/
  other_algorithm : ∀ key a declared, accepted a → key.params.alg = some declared →
    declared ≠ name a →
    run key = .error (.algorithmMismatch (name a) s!"alg={name a}" s!"alg={declared}")
  /-- and then another purpose, or that the operation is not listed. -/
  not_permitted : ∀ key a, accepted a →
    (∀ declared, key.params.alg = some declared → declared = name a) →
    ¬key.Permits (name a) use (operations a) →
    run key = .error (.unsupportedOperation (key.usageFault use (operations a)))

/-- A key without parameters permits every use. -/
theorem permits_bare (key : Key) (alg : String) (use : KeyUse) (operations : List KeyOperation) :
    key.bare.Permits alg use operations :=
  permits_of_params rfl alg use operations

/-- The parameters of a key only restrict an operation that looks at the header, then at the
parameters, and then at the material alone. -/
theorem OnlyRestricts.of_steps {run : Key → Except Error β} {accepted : α → Prop}
    {name : α → String} {operations : α → List KeyOperation} (check : Except Error α)
    (rest : α → Key → Except Error β) (haccepted : ∀ a, check = .ok a ↔ accepted a)
    (hrun : ∀ key, run key = check >>= fun a =>
      key.require (name a) use (operations a) >>= fun _ => rest a key)
    (hrest : ∀ a key, rest a key.bare = rest a key) :
    OnlyRestricts run accepted name use operations := by
  have hsteps : ∀ key a, accepted a →
      run key = key.require (name a) use (operations a) >>= fun _ => rest a key := by
    intro key a ha
    rw [hrun, (haccepted a).2 ha]
    rfl
  have hpermitted : ∀ key a, accepted a → key.Permits (name a) use (operations a) →
      run key = rest a key := by
    intro key a ha hpermits
    rw [hsteps key a ha, permits_iff.2 hpermits]
    rfl
  have hbare : ∀ key a, accepted a → run key.bare = rest a key := by
    intro key a ha
    rw [hpermitted key.bare a ha (permits_bare key _ _ _), hrest]
  have hrefused : ∀ key a e, accepted a → key.require (name a) use (operations a) = .error e →
      run key = .error e := by
    intro key a e ha he
    rw [hsteps key a ha, he]
    rfl
  constructor
  case ok_iff =>
    intro key r
    constructor
    · intro h
      rw [hrun] at h
      obtain ⟨a, ha, h⟩ := bind_eq_ok_iff.1 h
      obtain ⟨_, hpermits, h⟩ := bind_eq_ok_iff.1 h
      rw [haccepted] at ha
      exact ⟨(hbare key a ha).trans h, a, ha, permits_iff.1 hpermits⟩
    · rintro ⟨h, a, ha, hpermits⟩
      rw [hpermitted key a ha hpermits, ← hbare key a ha]
      exact h
  case permitted =>
    intro key a ha hpermits
    rw [hpermitted key a ha hpermits, hbare key a ha]
  case other_algorithm =>
    intro key a declared ha halg hne
    exact hrefused key a _ ha (require_of_alg_ne halg hne)
  case not_permitted =>
    intro key a ha halg hnot
    exact hrefused key a _ ha (require_of_not_permits halg hnot)

end Key

/-! ## The operations on tokens -/

open Key (OnlyRestricts)

/-- A header under which a payload is signed has no critical parameters and names the algorithm. -/
theorem SignedToken.sign_onlyRestricts (payload : Bytes) (header : Header) :
    OnlyRestricts (fun key => sign payload key header)
      (fun alg => header.contains "crit" = false ∧ header.alg? = some (SignatureAlgorithm.name alg))
      SignatureAlgorithm.name .signature (fun _ => [.sign]) := by
  refine .of_steps (header.refuseCritical >>= fun _ => header.signatureAlgorithm)
    (fun alg key => do
      let signer ← Signer.forSigning alg key
      let signature ← signer.sign (Bytes.ofString (inputOf header.encode payload))
      ofParts header header.encode none payload signature) ?_ ?_ ?_
  · intro alg
    rw [bind_eq_ok_iff, ← Header.refuseCritical_eq_ok_iff, ← Header.signatureAlgorithm_eq_ok_iff]
    constructor
    · rintro ⟨_, hcrit, halg⟩
      exact ⟨hcrit, halg⟩
    · rintro ⟨hcrit, halg⟩
      exact ⟨(), hcrit, halg⟩
  · intro key
    rw [bind_assoc]
    rfl
  · exact fun _ _ => rfl

/-- The header of a token that is verified names the algorithm. -/
theorem SignedToken.verify_onlyRestricts (t : SignedToken) :
    OnlyRestricts t.verify (fun alg => t.header.alg? = some (SignatureAlgorithm.name alg))
      SignatureAlgorithm.name .signature (fun _ => [.verify]) := by
  refine .of_steps t.header.signatureAlgorithm
    (fun alg key => do
      let signer ← Signer.forVerification alg key
      signer.verify (Bytes.ofString t.signingInput) t.signature
      return t.payload) ?_ ?_ ?_
  · exact fun _ => Header.signatureAlgorithm_eq_ok_iff
  · exact fun _ => rfl
  · exact fun _ _ => rfl

/-- Whether a header is one of an encrypted token: it has no critical parameters and no `zip`, and
names both algorithms. -/
def Header.NamesEncryption (h : Header) : KeyManagement × ContentEncryption → Prop
  | (alg, enc) => h.contains "crit" = false ∧ h.get? "zip" = none ∧ h.alg? = some alg.name ∧
      h.enc? = some enc.name

/-- Sending a content key is encrypting or, unless the shared secret is the content key, wrapping. -/
theorem EncryptedToken.encrypt_onlyRestricts (payload : Bytes) (header : Header)
    (random : Randomness) :
    OnlyRestricts (fun key => encrypt payload key header random) header.NamesEncryption
      (fun a => a.1.name) .encryption
      (fun a => if a.1 = .direct then [.encrypt] else [.wrapKey, .encrypt]) := by
  refine .of_steps header.encryption
    (fun a key => do
      let sent ← a.1.send a.2 key random
      let iv := random.ivBytes a.2.ivBytes
      let content ← a.2.encrypt sent.contentKey iv (Bytes.ofString header.encode) payload
      ofParts header header.encode none sent.encryptedKey iv content.1 content.2) ?_ ?_ ?_
  · exact fun _ => Header.encryption_eq_ok_iff
  · intro key
    unfold encrypt
    congr 1
    funext a
    obtain ⟨alg, enc⟩ := a
    cases alg <;> rfl
  · rintro ⟨alg, enc⟩ key
    cases alg <;> rfl

/-- Receiving a content key is decrypting or, unless the shared secret is the content key,
unwrapping. -/
theorem EncryptedToken.decrypt_onlyRestricts (t : EncryptedToken) :
    OnlyRestricts t.decrypt t.header.NamesEncryption (fun a => a.1.name) .encryption
      (fun a => if a.1 = .direct then [.decrypt] else [.unwrapKey, .decrypt]) := by
  refine .of_steps t.header.encryption
    (fun a key =>
      if t.iv.length ≠ a.2.ivBytes then .error (.malformedToken (.ivLength a.2))
      else do
        let contentKey ← a.1.receive a.2 key t.encryptedKey
        a.2.decrypt contentKey t.iv (Bytes.ofString t.segment) t.ciphertext t.tag) ?_ ?_ ?_
  · exact fun _ => Header.encryption_eq_ok_iff
  · intro key
    unfold decrypt
    congr 1
    funext ⟨alg, enc⟩
    cases alg <;> rfl
  · rintro ⟨alg, enc⟩ key
    cases alg <;> rfl

/-- The parameters of a key only restrict the operations on tokens: signing, verifying, encrypting
with given random bytes, and decrypting. This holds of every key, and of every payload, header and
token. -/
theorem Key.params_only_restrict (payload : Bytes) (header : Header) (random : Randomness)
    (t : SignedToken) (u : EncryptedToken) :
    OnlyRestricts (fun key => SignedToken.sign payload key header)
      (fun alg => header.contains "crit" = false ∧ header.alg? = some (SignatureAlgorithm.name alg))
      SignatureAlgorithm.name .signature (fun _ => [.sign]) ∧
    OnlyRestricts t.verify (fun alg => t.header.alg? = some (SignatureAlgorithm.name alg))
      SignatureAlgorithm.name .signature (fun _ => [.verify]) ∧
    OnlyRestricts (fun key => EncryptedToken.encrypt payload key header random)
      header.NamesEncryption (fun a => a.1.name) .encryption
      (fun a => if a.1 = .direct then [.encrypt] else [.wrapKey, .encrypt]) ∧
    OnlyRestricts u.decrypt u.header.NamesEncryption (fun a => a.1.name) .encryption
      (fun a => if a.1 = .direct then [.decrypt] else [.unwrapKey, .decrypt]) :=
  ⟨SignedToken.sign_onlyRestricts payload header, t.verify_onlyRestricts,
    EncryptedToken.encrypt_onlyRestricts payload header random, u.decrypt_onlyRestricts⟩

/-- A shared secret that verifies only. -/
def Key.verifyOnly : Key := (Key.ofZeros 32 (by decide)).withOperations [.verify]

/-- What the secret would sign without its restriction it verifies, but it does not sign it, and it
decrypts nothing. -/
theorem Key.params_only_restrict_verifyOnly :
    (∃ t, SignedToken.sign [] verifyOnly.bare (.signed .hs256) = .ok t ∧
      t.verify verifyOnly = .ok []) ∧
    SignedToken.sign [] verifyOnly (.signed .hs256) =
      .error (.unsupportedOperation (.notPermitted [.sign])) ∧
    (EncryptedToken.directToken [] []).decrypt verifyOnly =
      .error (.unsupportedOperation (.notPermitted [.decrypt])) := by
  obtain ⟨t, ht⟩ : ∃ t, SignedToken.sign [] verifyOnly.bare (.signed .hs256) = .ok t :=
    ⟨_, SignedToken.sign_of_secret rfl rfl
      (isSecretFor_ofZeros .hs256 32 (by decide) rfl (by decide) .sign)⟩
  have hheader := SignedToken.header_of_sign ht
  have hbare : t.verify verifyOnly.bare = .ok [] :=
    SignedToken.verify_of_sign ht (.inl rfl) nofun t.header (congrArg Header.alg? hheader)
  have halg : t.header.alg? = some (SignatureAlgorithm.name .hs256) := congrArg Header.alg? hheader
  have hnot : ∀ operations : List KeyOperation, .verify ∉ operations →
      ∀ alg use, ¬verifyOnly.Permits alg use operations := by
    rintro operations hverify alg use ⟨-, -, hallowed⟩
    obtain ⟨o, ho, hmem⟩ := hallowed [.verify] rfl
    rw [List.mem_singleton.1 hmem] at ho
    exact hverify ho
  obtain ⟨hsigns, hverifies, -, hdecrypts⟩ := params_only_restrict [] (.signed .hs256)
    EncryptedToken.noRandomness t (EncryptedToken.directToken [] [])
  refine ⟨⟨t, ht, ?_⟩, ?_, ?_⟩
  · refine (hverifies.ok_iff verifyOnly []).2 ⟨hbare, .hs256, halg, nofun, nofun, ?_⟩
    rintro _ ⟨⟩
    exact ⟨.verify, List.mem_singleton_self _, List.mem_singleton_self _⟩
  · exact hsigns.not_permitted verifyOnly .hs256 ⟨rfl, rfl⟩ nofun (hnot _ (by decide) _ _)
  · exact hdecrypts.not_permitted verifyOnly (.direct, .a128Gcm) ⟨rfl, rfl, rfl, rfl⟩ nofun
      (hnot _ (by decide) _ _)

end WebToken
