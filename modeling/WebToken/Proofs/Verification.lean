import WebToken.Proofs.TokenParts

/-!
# Verified texts

A text is verified exactly if it is a signed token whose signature is one by the key, over the
texts of the header and of the payload as they were transmitted. The payload is decoded and written
again before it is verified; that this gives the transmitted text is a property of base64url.

* `Token.transmitted?_of_ofText` : what is signed is what was transmitted;
* `SignedToken.verifies_exactly` : which texts are verified.
-/

namespace WebToken

open Json (Object Record Field)

/-! ## Signatures by keys -/

/-- Whether a string is the signature of a message by a key: the keyed hash under a secret that is
long enough, or an RSA signature, as the algorithm says. -/
def Key.Signed (key : Key) (alg : SignatureAlgorithm) (message signature : Bytes) : Prop :=
  (alg.isHmac = true ∧ ∃ secret, key.secret? = some secret ∧ alg.hash.size ≤ secret.length ∧
    signature = alg.hash.hmac secret message) ∨
  (alg.isHmac = false ∧ ∃ k, key.rsaPublic? = some k ∧ k.verify alg.hash message signature = true)

/-- Whether a key is a secret for a keyed hash: long enough, and not restricted to anything but the
operation. -/
structure Key.IsSecretFor (key : Key) (alg : SignatureAlgorithm) (operation : KeyOperation)
    (secret : Bytes) : Prop where
  isHmac : alg.isHmac = true
  holds : key.secret? = some secret
  long : alg.hash.size ≤ secret.length
  permits : key.Permits alg.name .signature [operation]

namespace Signer

theorem verify_eq_ok_iff {s : Signer} {message signature : Bytes} :
    s.verify message signature = .ok () ↔ s.accepts message signature = true := by
  unfold verify
  cases s.accepts message signature <;> simp

/-- Exactly the signatures by a key are accepted. -/
theorem forVerification_verify_eq_ok_iff {alg : SignatureAlgorithm} {key : Key}
    {message signature : Bytes} :
    (∃ s, forVerification alg key = .ok s ∧ s.verify message signature = .ok ()) ↔
      key.Signed alg message signature := by
  unfold forVerification Key.Signed
  simp only [verify_eq_ok_iff]
  cases ha : alg.isHmac with
  | true =>
    simp only [if_true, true_and, Bool.true_eq_false, false_and, or_false]
    cases key.secret? with
    | none => exact ⟨nofun, nofun⟩
    | some secret =>
      unfold ofSecret
      rw [ha]
      simp only [Bool.not_true, Bool.false_eq_true, if_false]
      by_cases hl : secret.length < alg.hash.size
      · rw [if_pos hl]
        refine ⟨nofun, ?_⟩
        rintro ⟨_, hsecret, hlong, -⟩
        cases hsecret
        omega
      · rw [if_neg hl]
        constructor
        · rintro ⟨s, hs, haccepts⟩
          cases hs
          exact ⟨secret, rfl, Nat.le_of_not_lt hl, (of_decide_eq_true haccepts).symm⟩
        · rintro ⟨_, hsecret, -, hsignature⟩
          cases hsecret
          exact ⟨_, rfl, decide_eq_true hsignature.symm⟩
  | false =>
    simp only [Bool.false_eq_true, if_false, false_and, true_and, false_or]
    cases key.rsaPublic? with
    | none => exact ⟨nofun, nofun⟩
    | some k =>
      unfold ofPublic
      rw [ha]
      constructor
      · rintro ⟨s, hs, haccepts⟩
        cases hs
        exact ⟨k, rfl, haccepts⟩
      · rintro ⟨_, hk, hverify⟩
        cases hk
        exact ⟨_, rfl, hverify⟩

end Signer

/-! ## Tokens -/

/-- A token is verified exactly if the key permits it and signed its text. -/
theorem SignedToken.verify_eq_ok_iff {t : SignedToken} {key : Key} {payload : Bytes} :
    t.verify key = .ok payload ↔
      t.payload = payload ∧ ∃ alg, t.header.alg? = some alg.name ∧
        key.Permits alg.name .signature [.verify] ∧
        key.Signed alg (Bytes.ofString t.signingInput) t.signature := by
  simp only [verify, bind_eq_ok_iff, Header.signatureAlgorithm_eq_ok_iff,
    ← Signer.forVerification_verify_eq_ok_iff]
  constructor
  · rintro ⟨alg, halg, _, hpermits, s, hs, _, hverify, hp⟩
    exact ⟨Except.ok.inj hp, alg, halg, Key.permits_iff.1 hpermits, s, hs, hverify⟩
  · rintro ⟨rfl, alg, halg, hpermits, s, hs, hverify⟩
    exact ⟨alg, halg, (), Key.permits_iff.2 hpermits, s, hs, (), hverify, rfl⟩

/-- A shared secret compares the signature with the keyed hash of what is signed. -/
theorem SignedToken.verify_of_secret {t : SignedToken} {key : Key} {alg : SignatureAlgorithm}
    {secret : Bytes} (halg : t.header.alg? = some alg.name)
    (hkey : key.IsSecretFor alg .verify secret) :
    t.verify key =
      if alg.hash.hmac secret (Bytes.ofString t.signingInput) = t.signature then .ok t.payload
      else .error .signatureMismatch := by
  have hsigner : Signer.forVerification alg key = .ok (.hmac alg secret) := by
    rw [Signer.forVerification, if_pos hkey.isHmac, hkey.holds]
    simp only [Signer.ofSecret, hkey.isHmac, Bool.not_true, Bool.false_eq_true, if_false]
    exact if_neg (Nat.not_lt.2 hkey.long)
  rw [verify, Header.signatureAlgorithm_eq_ok_iff.2 halg]
  show (key.require alg.name .signature [.verify] >>= fun _ =>
    Signer.forVerification alg key >>= fun signer => _) = _
  rw [Key.permits_iff.2 hkey.permits, hsigner]
  show ((Signer.hmac alg secret).verify _ t.signature >>= fun _ => Except.ok t.payload) = _
  rw [Signer.verify, Signer.accepts]
  by_cases h : alg.hash.hmac secret (Bytes.ofString t.signingInput) = t.signature
  · rw [if_pos h, if_pos (decide_eq_true h)]
    rfl
  · rw [if_neg h, if_neg fun haccepts => h (of_decide_eq_true haccepts)]
    rfl

theorem verifyText_eq_ok_iff {text : String} {key : Key} {payload : Bytes} :
    verifyText text key = .ok payload ↔
      ∃ t, Token.ofText text = .ok (.signed t) ∧ t.verify key = .ok payload := by
  rw [verifyText, bind_eq_ok_iff]
  constructor
  · rintro ⟨t, ht, h⟩
    cases t with
    | signed t => exact ⟨t, ht, h⟩
    | encrypted t => cases h
  · rintro ⟨t, ht, h⟩
    exact ⟨.signed t, ht, h⟩

/-! ## Transmitted texts -/

/-- The text of the protected header in the entry of a signature. -/
def protectedText? : Json.Value → Option String
  | .object o => Json.Object.text? o "protected"
  | .array (.string s :: _) => some s
  | _ => none

/-- The texts of the protected header and of the payload in an object that is a signed token. -/
def transmittedMembers? (o : Object) : Option (String × String) := do
  let payload ← o.text? "payload"
  match o.get? "signatures" with
  | some (.array [entry]) => return (← protectedText? entry, payload)
  | _ => return (← o.text? "protected", payload)

/-- The texts of the protected header and of the payload in the text of a signed token, as they
stand there. -/
def transmitted? (text : String) : Option (String × String) :=
  if (Text.trim text).toList.head? = some '\x7b' then
    match Json.parse (Bytes.ofString (Text.trim text)) with
    | .ok (.object o) => transmittedMembers? o
    | _ => none
  else
    match segments (Text.trim text) with
    | [segment, payload, _] => some (segment, payload)
    | _ => none

/-- An object that was accepted holds its text under a name. -/
theorem text?_eq_textOf {r : Record} {o : Object} {name : String} (h : r.checkObject o = .ok ())
    (hfield : r.fields.find? (·.name == name) = some (Field.text name)) :
    o.text? name = some (textOf o name) := by
  obtain ⟨s, hs⟩ := Json.Object.exists_text_of_checkObject h hfield
  rw [textOf, hs]
  rfl

/-- The text of the protected header is taken from the entry as it stands there. -/
theorem protectedText?_of_read {v : Json.Value} {entry : Object}
    (h : signatureRecord.read v = .ok entry) :
    protectedText? v = some (textOf entry "protected") := by
  cases v with
  | object o =>
    obtain ⟨hcheck, rfl⟩ := Record.read_object_eq_ok_iff.1 h
    exact text?_eq_textOf hcheck rfl
  | array vs =>
    -- read from a list, the protected header is its first item
    cases vs with
    | nil => cases h
    | cons v vs =>
      obtain ⟨_, hcheck, h⟩ := bind_eq_ok_iff.1 h
      obtain ⟨s, rfl⟩ := Json.Field.exists_eq_string hcheck
      obtain ⟨rest, -, h⟩ := bind_eq_ok_iff.1 h
      cases h
      rfl
  | _ => cases h

/-- The texts in an object are those of the token that is read from it. -/
theorem transmittedMembers?_of_ofObject {o : Object} {t : SignedToken}
    (h : Token.ofObject o = .ok (.signed t)) :
    transmittedMembers? o = some (t.segment, Base64Url.encode t.payload) := by
  rcases Token.ofObject_eq_ok_signed_iff.1 h with ⟨-, h⟩ | ⟨hnone, -, -, -, h⟩
  · obtain ⟨hcheck, entry, hentries, h⟩ := SignedToken.ofGeneral_eq_ok_iff.1 h
    obtain ⟨v, hv, hread⟩ := Json.Object.exists_item_of_records_eq hcheck rfl hentries
    have hpayload : o.text? "payload" = some (textOf o "payload") := text?_eq_textOf hcheck rfl
    obtain ⟨hsegment, -, -, htext, -, -⟩ := SignedToken.ofEntry_eq_ok_iff.1 h
    unfold transmittedMembers?
    rw [hpayload, hv, htext, ← hsegment]
    show (do return (← protectedText? v, Base64Url.encode t.payload)) = _
    rw [protectedText?_of_read hread]
    rfl
  · obtain ⟨hmembers, hentry, h⟩ := SignedToken.ofFlattened_eq_ok_iff.1 h
    have hpayload : o.text? "payload" = some (textOf o "payload") := text?_eq_textOf hmembers rfl
    have hprotected : o.text? "protected" = some (textOf o "protected") :=
      text?_eq_textOf hentry rfl
    -- no signatures are listed, so the texts are taken from the object itself
    have hsignatures : o.get? "signatures" = none := by
      rw [Json.Object.contains_eq_isSome, Option.isSome_eq_false_iff,
        Option.isNone_iff_eq_none] at hnone
      exact hnone
    obtain ⟨hsegment, -, -, htext, -, -⟩ := SignedToken.ofEntry_eq_ok_iff.1 h
    unfold transmittedMembers?
    rw [hpayload, hsignatures, hprotected, htext, hsegment]
    rfl

/-- What a token keeps of its header and what its payload is written as are the texts that were
transmitted. -/
theorem Token.transmitted?_of_ofText {text : String} {t : SignedToken}
    (h : Token.ofText text = .ok (.signed t)) :
    transmitted? text = some (t.segment, Base64Url.encode t.payload) := by
  rw [Token.ofText_eq] at h
  unfold transmitted?
  split at h
  · next hbrace =>
    rw [if_pos hbrace]
    obtain ⟨o, hparse, h⟩ := Token.ofJson_eq_ok_iff.1 h
    rw [hparse]
    exact transmittedMembers?_of_ofObject h
  · next hbrace =>
    rw [if_neg hbrace]
    rw [(Token.ofCompact_eq_ok_signed_iff.1 h).1]

/-! ## Which texts are verified -/

/-- Keyed hashes belong to shared secrets, and the other signatures to RSA keys. -/
theorem Key.Signed.isHmac_eq {key : Key} {alg : SignatureAlgorithm} {message signature : Bytes}
    (h : key.Signed alg message signature) : alg.isHmac = key.isSymmetric := by
  rcases h with ⟨halg, secret, hsecret, -⟩ | ⟨halg, k, hk, -⟩
  · rw [halg]
    obtain ⟨material, params⟩ := key
    cases material with
    | symmetric s => rfl
    | rsaPublic k large => cases hsecret
    | rsaPrivate k large => cases hsecret
  · rw [halg]
    exact Key.rsaPublic?_cases hk (fun _ _ _ => rfl) fun _ _ _ => rfl

namespace SignedToken

/-- What is signed for a token that was read is what was transmitted. -/
theorem signingInput_of_transmitted? {text protectedText payloadText : String} {t : SignedToken}
    (h : Token.ofText text = .ok (.signed t))
    (htexts : transmitted? text = some (protectedText, payloadText)) :
    t.signingInput = protectedText ++ "." ++ payloadText := by
  rw [Token.transmitted?_of_ofText h] at htexts
  cases htexts
  rfl

theorem verifyText_of_ofText {text : String} {t : SignedToken}
    (h : Token.ofText text = .ok (.signed t)) (key : Key) : verifyText text key = t.verify key := by
  unfold verifyText
  rw [h]
  rfl

/-- A text is verified exactly if it is a signed token with a known algorithm that the key permits,
and its signature is one by the key over the transmitted texts of its header and its payload. A
key of the wrong kind verifies nothing, and no unprotected parameter counts. -/
theorem verifies_exactly (key : Key) :
    (∀ text payload, verifyText text key = .ok payload ↔
      ∃ t alg protectedText payloadText,
        Token.ofText text = .ok (.signed t) ∧
        transmitted? text = some (protectedText, payloadText) ∧
        t.header.alg? = some alg.name ∧ t.payload = payload ∧
        key.Permits alg.name .signature [.verify] ∧
        key.Signed alg (Bytes.ofString (protectedText ++ "." ++ payloadText)) t.signature) ∧
    (∀ text t alg payload, Token.ofText text = .ok (.signed t) →
      t.header.alg? = some (SignatureAlgorithm.name alg) → alg.isHmac ≠ key.isSymmetric →
      verifyText text key ≠ .ok payload) ∧
    (∀ text text' t u, Token.ofText text = .ok (.signed t) →
      Token.ofText text' = .ok (.signed u) → t = { u with unprotected := t.unprotected } →
      verifyText text key = verifyText text' key) := by
  refine ⟨fun text payload => ⟨?_, ?_⟩, ?_, ?_⟩
  · intro h
    obtain ⟨t, ht, h⟩ := verifyText_eq_ok_iff.1 h
    obtain ⟨hpayload, alg, halg, hpermits, hsigned⟩ := verify_eq_ok_iff.1 h
    exact ⟨t, alg, t.segment, Base64Url.encode t.payload, ht, Token.transmitted?_of_ofText ht, halg,
      hpayload, hpermits, hsigned⟩
  · rintro ⟨t, alg, protectedText, payloadText, ht, htexts, halg, hpayload, hpermits, hsigned⟩
    rw [← signingInput_of_transmitted? ht htexts] at hsigned
    exact verifyText_eq_ok_iff.2
      ⟨t, ht, verify_eq_ok_iff.2 ⟨hpayload, alg, halg, hpermits, hsigned⟩⟩
  · intro text t alg payload ht halg hkind h
    rw [verifyText_of_ofText ht] at h
    obtain ⟨-, alg', halg', -, hsigned⟩ := verify_eq_ok_iff.1 h
    -- the header names one algorithm only
    rw [halg, Option.some.injEq, ← SignatureAlgorithm.ofName?_eq_some_iff,
      SignatureAlgorithm.ofName?_name, Option.some.injEq] at halg'
    subst halg'
    exact hkind hsigned.isHmac_eq
  · intro text text' t u ht hu htu
    rw [verifyText_of_ofText ht, verifyText_of_ofText hu, htu]
    rfl

/-- A token with an RSA algorithm, an empty payload and no signature. -/
def unsignedToken (unprotected : Option Header) : SignedToken :=
  ⟨.signed .rs256, "eyJhbGciOiJSUzI1NiJ9", unprotected, [], []⟩

/-- The token in its compact form. -/
def unsignedCompact : String := "eyJhbGciOiJSUzI1NiJ9.."

/-- The token in its flattened form, with an unprotected parameter. -/
def unsignedFlattened : String :=
  "\x7b\"payload\":\"\",\"protected\":\"eyJhbGciOiJSUzI1NiJ9\"," ++
    "\"header\":\x7b\"kid\":\"a\"\x7d,\"signature\":\"\"\x7d"

/-- A secret of one byte. -/
def shortKey : Key := ⟨.symmetric ⟨[0], by decide⟩, .none⟩

/-- The token is not verified by a shared secret, with or without an unprotected parameter. -/
theorem verifies_exactly_unsigned :
    Token.ofText unsignedCompact = .ok (.signed (unsignedToken none)) ∧
    Token.ofText unsignedFlattened =
      .ok (.signed (unsignedToken (some (Header.empty.withKid "a")))) ∧
    verifyText unsignedCompact shortKey ≠ .ok [] ∧
    verifyText unsignedCompact shortKey = verifyText unsignedFlattened shortKey := by
  have hcompact : Token.ofText unsignedCompact = .ok (.signed (unsignedToken none)) := by cbv
  have hflattened : Token.ofText unsignedFlattened =
      .ok (.signed (unsignedToken (some (Header.empty.withKid "a")))) := by cbv
  obtain ⟨-, hkind, hunprotected⟩ := verifies_exactly shortKey
  exact ⟨hcompact, hflattened, hkind _ _ .rs256 _ hcompact rfl (by decide),
    hunprotected _ _ _ _ hcompact hflattened rfl⟩

end SignedToken

end WebToken
