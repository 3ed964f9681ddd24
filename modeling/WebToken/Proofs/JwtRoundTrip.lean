import WebToken.Proofs.Authentication
import WebToken.Proofs.ClaimsText

/-!
# Web tokens give their claims back

Claims are written as JSON, put into a token whose header names the type and the key, and the token
is written in the compact form. Each of these steps is undone when the text is verified or
decrypted: the points of the text tell the kind, the text is read as the token, the token gives the
JSON text, and the text denotes the claims. Then the claims are checked.

* `exists_ofText_of_signCompact` and `exists_ofText_of_encryptCompact` : compact texts just made;
* `Jwt.claims_round_trip` : signing and verifying claims, and encrypting and decrypting them.
-/

namespace WebToken

/-! ## Compact texts just made -/

namespace JwtKind

variable {text : String}

/-- A compact text that is a signed token has the points of one. -/
theorem ofText_of_signed {t : SignedToken} (hform : InCompactForm text)
    (h : Token.ofText text = .ok (.signed t)) : ofText text = .ok .signed := by
  rw [hform.ofText_eq] at h
  have hlength := length_segments text
  rw [(Token.ofCompact_eq_ok_signed_iff.1 h).1] at hlength
  exact ofText_eq_signed_iff.2 (Nat.succ.inj hlength).symm

/-- A compact text that is an encrypted token has the points of one. -/
theorem ofText_of_encrypted {t : EncryptedToken} (hform : InCompactForm text)
    (h : Token.ofText text = .ok (.encrypted t)) : ofText text = .ok .encrypted := by
  rw [hform.ofText_eq] at h
  have hlength := length_segments text
  rw [(Token.ofCompact_eq_ok_encrypted_iff.1 h).1] at hlength
  exact ofText_eq_encrypted_iff.2 (Nat.succ.inj hlength).symm

end JwtKind

section Texts

variable {payload : Bytes} {key : Key} {header : Header} {text : String}

/-- What is signed in the compact form is a signed token with the header that was given, and every
key that verifies for the one that signed it, and permits this, finds the payload. -/
theorem exists_ofText_of_signCompact {alg : SignatureAlgorithm} (hp : header.IsPlain)
    (halg : header.alg? = some alg.name) (h : signCompact payload key header = .ok text) :
    JwtKind.ofText text = .ok .signed ∧
    ∃ t, Token.ofText text = .ok (.signed t) ∧ t.header = header ∧
      ∀ key' : Key, key'.VerifiesFor key → key'.Permits alg.name .signature [.verify] →
        verifyText text key' = .ok payload := by
  obtain ⟨t, hsign, htext⟩ := bind_eq_ok_iff.1 h
  obtain ⟨text', htext', hof⟩ := SignedToken.ofText_of_sign hsign hp.denotable .compact
  obtain rfl := Except.ok.inj (htext.symm.trans htext')
  rw [hp.reread] at hof
  have hsegment : t.segment = Base64Url.encode (Bytes.ofString header.json) := by
    obtain ⟨-, -, -, -, -, -, -, -, rfl⟩ := SignedToken.sign_eq_ok_iff.1 hsign
    rfl
  -- the kind is told from the points alone, so the text must be known to be a compact one
  have hform : InCompactForm text := by
    rw [(SignedToken.eq_compactText hsegment htext).2]
    exact inCompactForm_compactText _
  refine ⟨JwtKind.ofText_of_signed hform hof, _, hof, rfl, fun key' hkey hpermits => ?_⟩
  rw [SignedToken.verifyText_of_ofText hof]
  refine SignedToken.verify_of_verifiesFor hsign hkey (fun alg' halg' => ?_) header rfl
  rw [← Option.some.inj (halg.symm.trans halg')]
  exact hpermits

/-- What is encrypted in the compact form is an encrypted token with the header that was given, and
every key that receives what is sent to the one it was encrypted for, and permits this, finds the
payload. -/
theorem exists_ofText_of_encryptCompact {alg : KeyManagement} {random : Randomness}
    (hp : header.IsPlain) (halg : header.alg? = some alg.name)
    (h : encryptCompact payload key header random = .ok text) :
    JwtKind.ofText text = .ok .encrypted ∧
    ∃ t, Token.ofText text = .ok (.encrypted t) ∧ t.header = header ∧
      ∀ key' : Key, key'.Receives key →
        key'.Permits alg.name .encryption alg.receiveOperations →
        (∀ k, key'.rsaPrivate? = some k → k.Opens) → decryptText text key' = .ok payload := by
  obtain ⟨t, hencrypt, htext⟩ := bind_eq_ok_iff.1 h
  obtain ⟨text', htext', hof⟩ := EncryptedToken.ofText_of_encrypt hencrypt hp.denotable .compact
  obtain rfl := Except.ok.inj (htext.symm.trans htext')
  rw [hp.reread] at hof
  have hsegment : t.segment = Base64Url.encode (Bytes.ofString header.json) := by
    obtain ⟨-, -, -, -, -, -, -, -, -, rfl⟩ := EncryptedToken.encrypt_eq_ok_iff.1 hencrypt
    rfl
  have hform : InCompactForm text := by
    rw [(EncryptedToken.eq_compactText hsegment htext).2]
    exact inCompactForm_compactText _
  refine ⟨JwtKind.ofText_of_encrypted hform hof, _, hof, rfl, fun key' hkey hpermits hrsa => ?_⟩
  refine EncryptedToken.decryptText_of_ofText hof
    (EncryptedToken.decrypt_of_encrypt hencrypt hkey (fun alg' halg' => ?_) hrsa header
      fun _ _ h => h)
  obtain rfl := KeyManagement.name_injective (Option.some.inj (halg.symm.trans halg'))
  exact hpermits

end Texts

namespace Jwt

/-! ## Headers -/

variable {key : Key} {header : Header}

theorem isPlain_headerFor (hp : header.IsPlain) : (headerFor key header).IsPlain := by
  unfold headerFor
  cases key.params.kid with
  | none => exact hp.insert _ _
  | some kid => exact (hp.insert _ _).insert _ _

theorem get?_headerFor_of_ne {name : String} (htyp : name ≠ "typ") (hkid : name ≠ "kid") :
    (headerFor key header).get? name = header.get? name := by
  have htyped : (header.withTyp "JWT").get? name = header.get? name :=
    Json.Object.get?_insert_of_ne _ htyp
  unfold headerFor
  cases key.params.kid with
  | none => exact htyped
  | some kid => exact (Json.Object.get?_insert_of_ne _ hkid).trans htyped

theorem get?_headerFor_typ : (headerFor key header).get? "typ" = some (.string "JWT") := by
  have htyped : (header.withTyp "JWT").get? "typ" = some (.string "JWT") :=
    Json.Object.get?_insert_self _ _ _
  unfold headerFor
  cases key.params.kid with
  | none => exact htyped
  | some kid => exact (Json.Object.get?_insert_of_ne _ (by decide)).trans htyped

/-- The header names the key as the key does. -/
theorem get?_headerFor_kid (h : header.get? "kid" = none) :
    (headerFor key header).get? "kid" = key.params.kid.map .string := by
  unfold headerFor
  cases key.params.kid with
  | none => exact (Json.Object.get?_insert_of_ne _ (by decide)).trans h
  | some kid => exact Json.Object.get?_insert_self _ _ _

/-- Naming the type and the key leaves the algorithm alone. -/
theorem alg?_headerFor : (headerFor key header).alg? = header.alg? := by
  have hget : (headerFor key header).parameters.get? "alg" = header.parameters.get? "alg" :=
    get?_headerFor_of_ne (by decide) (by decide)
  unfold Header.alg? Header.text? Json.Object.text?
  rw [hget]

/-! ## Claims -/

variable {c : Claims}

/-- Whether claims are given back exactly if they pass what is asked of them, and refused for what
they fail otherwise. -/
structure GivesBack (c : Claims) (accepts : Validation → Int64 → Except Error Claims) : Prop where
  valid : ∀ v now, v.validateAt c now = .ok () → accepts v now = .ok c
  invalid : ∀ v now e, v.validateAt c now = .error e →
    accepts v now = .error e ∧ ∃ fault, e = .invalidClaims fault

/-- The text of claims gives them back. -/
theorem givesBack_json (hc : c.Reachable) (hl : c.Legible) :
    GivesBack c (accept (Bytes.ofString c.json)) := by
  have haccept : ∀ v now, accept (Bytes.ofString c.json) v now =
      v.validateAt c now >>= fun _ => .ok c := by
    intro v now
    rw [accept, Claims.ofBytes_json hc.wellFormed hl]
    rfl
  constructor
  · intro v now hvalid
    rw [haccept, hvalid]
    rfl
  · intro v now e hinvalid
    have herror : accept (Bytes.ofString c.json) v now = .error e := by
      rw [haccept, hinvalid]
      rfl
    exact ⟨herror, accept_failsOnly _ v now e herror⟩

/-- Claims are given back if their text is what was opened before claims are looked at. -/
theorem givesBack_of_opened {opened : Except Error Bytes}
    {accepts : Validation → Int64 → Except Error Claims} (hc : c.Reachable) (hl : c.Legible)
    (hsteps : ∀ v now, accepts v now = opened >>= fun content => accept content v now)
    (h : opened = .ok (Bytes.ofString c.json)) : GivesBack c accepts := by
  have haccept : accepts = accept (Bytes.ofString c.json) := by
    funext v now
    rw [hsteps, h]
    rfl
  rw [haccept]
  exact givesBack_json hc hl

/-- Claims that can come up come back from web tokens, with equal registered claims, an audience of
the same form and the same custom claims in the same order, if there is no double in them and they
are nested no deeper than a reader goes.

The text of a token that is signed with a key is a signed web token. Its header names the type, and
the key if the key has a name. Every key that verifies for the one that signed it and permits this
gives the claims back if they pass the checks, and refuses them for the check that they fail
otherwise. The same holds of claims that are encrypted, where a private RSA key is one that opens
what is encrypted for it. -/
theorem claims_round_trip (hc : c.Reachable) (hl : c.Legible) (key : Key) :
    (∀ alg text, sign c key alg = .ok text →
      JwtKind.ofText text = .ok .signed ∧
      (∃ t, Token.ofText text = .ok (.signed t) ∧
        t.header.get? "typ" = some (.string "JWT") ∧
        t.header.get? "kid" = key.params.kid.map .string) ∧
      ∀ key' : Key, key'.VerifiesFor key → key'.Permits alg.name .signature [.verify] →
        GivesBack c (verify text key')) ∧
    (∀ alg enc random text, encrypt c key alg enc random = .ok text →
      JwtKind.ofText text = .ok .encrypted ∧
      (∃ t, Token.ofText text = .ok (.encrypted t) ∧
        t.header.get? "typ" = some (.string "JWT") ∧
        t.header.get? "kid" = key.params.kid.map .string) ∧
      ∀ key' : Key, key'.Receives key →
        key'.Permits alg.name .encryption alg.receiveOperations →
        (∀ k, key'.rsaPrivate? = some k → k.Opens) → GivesBack c (decrypt text key')) := by
  constructor
  · intro alg text h
    obtain ⟨hkind, t, hof, hheader, hverify⟩ := exists_ofText_of_signCompact
      (isPlain_headerFor (Header.isPlain_signed alg)) alg?_headerFor h
    refine ⟨hkind, ⟨t, hof, ?_, ?_⟩, fun key' hkey hpermits => ?_⟩
    · rw [hheader, get?_headerFor_typ]
    · rw [hheader, get?_headerFor_kid rfl]
    · exact givesBack_of_opened hc hl (fun _ _ => verify_of_isSigned ⟨hkind, t, hof⟩)
        (hverify key' hkey hpermits)
  · intro alg enc random text h
    obtain ⟨hkind, t, hof, hheader, hdecrypt⟩ := exists_ofText_of_encryptCompact
      (isPlain_headerFor (Header.isPlain_encrypted alg enc)) alg?_headerFor h
    refine ⟨hkind, ⟨t, hof, ?_, ?_⟩, fun key' hkey hpermits hrsa => ?_⟩
    · rw [hheader, get?_headerFor_typ]
    · rw [hheader, get?_headerFor_kid rfl]
    · exact givesBack_of_opened hc hl (fun _ _ => decrypt_of_isEncrypted ⟨hkind, t, hof⟩)
        (hdecrypt key' hkey hpermits hrsa)

/-- Claims for two recipients that expire early in 1970, with a custom one. -/
def sampleClaims : Claims :=
  { Claims.empty with
    aud := some (.multiple ["b", "c"])
    exp := some 10
    custom := CustomClaims.empty.insert "roles" (.array [.string "d", .null]) (by decide) }

theorem reachable_sampleClaims : sampleClaims.Reachable := by
  have hroles : (Json.Value.array [.string "d", .null]).WellFormed :=
    ⟨trivial, trivial, trivial, trivial⟩
  have hset : Claims.empty.withClaim "roles" (.array [.string "d", .null]) =
      .ok { Claims.empty with custom := sampleClaims.custom } := rfl
  exact .registered (.withClaim .empty hroles hset) rfl

theorem legible_sampleClaims : sampleClaims.Legible where
  floatFree := List.forall_mem_singleton.2 ⟨nofun, nofun, nofun, trivial⟩
  depth := List.forall_mem_singleton.2 (by decide)

/-- A long secret of zeros with a name. -/
def namedKey : Key := (Key.ofZeros 64 (by decide)).withKid "k"

/-- The claims come back before they have expired, from a token that was signed and from one that
was encrypted. -/
theorem claims_round_trip_sample :
    (∃ text, sign sampleClaims namedKey .hs256 = .ok text ∧ JwtKind.ofText text = .ok .signed ∧
      verify text namedKey .standard 0 = .ok sampleClaims ∧
      verify text namedKey .standard 100 = .error (.invalidClaims .expired)) ∧
    ∃ text, encrypt sampleClaims EncryptedToken.zeroKey .direct .a128Gcm
        EncryptedToken.noRandomness = .ok text ∧
      JwtKind.ofText text = .ok .encrypted ∧
      decrypt text EncryptedToken.zeroKey .standard 0 = .ok sampleClaims := by
  have hvalid : Validation.standard.validateAt sampleClaims 0 = .ok () := rfl
  have hexpired : Validation.standard.validateAt sampleClaims 100 =
      .error (.invalidClaims .expired) := rfl
  constructor
  · have hkey : ∀ operation, namedKey.IsSecretFor .hs256 operation (List.replicate 64 0) :=
      fun operation => ⟨rfl, rfl, by decide, nofun, nofun, nofun⟩
    obtain ⟨text, htext⟩ : ∃ text, sign sampleClaims namedKey .hs256 = .ok text :=
      ⟨_, bind_eq_ok_iff.2 ⟨_, SignedToken.sign_of_secret rfl rfl (hkey .sign), rfl⟩⟩
    obtain ⟨hkind, -, hback⟩ :=
      (claims_round_trip reachable_sampleClaims legible_sampleClaims namedKey).1 _ _ htext
    have hgives := hback namedKey namedKey.verifiesFor_self (hkey .verify).permits
    exact ⟨text, htext, hkind, hgives.valid _ _ hvalid, (hgives.invalid _ _ _ hexpired).1⟩
  · obtain ⟨t, hencrypt⟩ := Envelope.exists_encrypt_zeroKey (show (headerFor
      EncryptedToken.zeroKey (.encrypted .direct .a128Gcm)).encryption = _ from rfl)
      (Bytes.ofString sampleClaims.json)
    obtain ⟨text, htext, -⟩ := EncryptedToken.ofText_of_encrypt hencrypt
      (isPlain_headerFor (Header.isPlain_encrypted _ _)).denotable .compact
    have hencrypted : encrypt sampleClaims EncryptedToken.zeroKey .direct .a128Gcm
        EncryptedToken.noRandomness = .ok text := bind_eq_ok_iff.2 ⟨t, hencrypt, htext⟩
    obtain ⟨hkind, -, hback⟩ := (claims_round_trip reachable_sampleClaims legible_sampleClaims
      EncryptedToken.zeroKey).2 _ _ _ _ hencrypted
    have hgives := hback _ (Key.receives_self rfl) (Key.permits_of_params rfl _ _ _) nofun
    exact ⟨text, hencrypted, hkind, hgives.valid _ _ hvalid⟩

end Jwt

end WebToken
