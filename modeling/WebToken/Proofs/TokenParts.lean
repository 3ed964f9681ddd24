import WebToken.Proofs.Except
import WebToken.Proofs.Json.Records
import WebToken.Token.Text

/-!
# What the texts of tokens hold

A token is put together from parts that are decoded one after the other, and each part is the only
text of what it stands for. So what was read tells what was written.

* `SignedToken.ofEntry_eq_ok_iff` and `EncryptedToken.ofEntry_eq_ok_iff` : the parts of a token in
  the JSON forms;
* `Token.ofCompact_eq_ok_signed_iff` and `Token.ofCompact_eq_ok_encrypted_iff` : the segments of a
  token in the compact form.
-/

namespace WebToken

open Json (Object Record Field)

/-! ## Single parts -/

/-- Bytes have one segment. -/
theorem Segment.decode_eq_ok_iff {segment : String} {bytes : Bytes} :
    Segment.decode segment = .ok bytes ↔ segment = Base64Url.encode bytes := by
  rw [decode, mapError_eq_ok_iff, Base64Url.decode_eq_ok_iff]

theorem Header.contains_eq_false_iff {h : Header} {name : String} :
    h.contains name = false ↔ name ∉ h.names := by
  rw [← Bool.not_eq_true, Header.contains, Object.contains_iff]
  rfl

/-- A text among the parameters is the value under its name. -/
theorem Header.isSome_text?_iff {h : Header} {name : String} :
    (h.text? name).isSome = true ↔ ∃ s, h.get? name = some (.string s) := by
  unfold Header.text? Object.text? Header.get?
  split
  · next s hs => exact ⟨fun _ => ⟨s, hs⟩, fun _ => rfl⟩
  · next hother => exact ⟨nofun, fun ⟨s, hs⟩ => absurd hs (hother s)⟩

theorem Header.refuseCritical_eq_ok_iff {h : Header} :
    h.refuseCritical = .ok () ↔ h.contains "crit" = false := by
  unfold refuseCritical
  cases h.contains "crit" with
  | true => exact ⟨nofun, nofun⟩
  | false => exact ⟨fun _ => rfl, fun _ => rfl⟩

/-- A header that is decoded holds nothing that must be understood. -/
theorem Header.decode_eq_ok_iff {segment : String} {h : Header} :
    Header.decode segment = .ok h ↔
      ∃ bytes, segment = Base64Url.encode bytes ∧
        Json.parse bytes = .ok (.object h.parameters) ∧ h.contains "crit" = false := by
  rw [decode, bind_eq_ok_iff]
  constructor
  · rintro ⟨bytes, hbytes, hh⟩
    refine ⟨bytes, Segment.decode_eq_ok_iff.1 hbytes, ?_⟩
    split at hh
    · cases hh
    · next ms hparse =>
      obtain ⟨_, hcrit, hh⟩ := bind_eq_ok_iff.1 hh
      cases hh
      exact ⟨hparse, refuseCritical_eq_ok_iff.1 hcrit⟩
    · cases hh
  · rintro ⟨bytes, hbytes, hparse, hcrit⟩
    refine ⟨bytes, Segment.decode_eq_ok_iff.2 hbytes, ?_⟩
    rw [hparse]
    exact bind_eq_ok_iff.2 ⟨(), refuseCritical_eq_ok_iff.2 hcrit, rfl⟩

/-- An unprotected header is taken as it stands, if it holds nothing that must be understood. -/
theorem unprotectedHeader_eq_ok_iff {ms : Option Object} {u : Option Header} :
    unprotectedHeader ms = .ok u ↔
      u = ms.map Header.mk ∧ ∀ h, u = some h → h.contains "crit" = false := by
  cases ms with
  | none =>
    constructor
    · intro h
      cases h
      exact ⟨rfl, nofun⟩
    · rintro ⟨rfl, -⟩
      rfl
  | some ms =>
    show (if ms.contains "crit" then .error (.malformedToken .criticalUnprotected)
      else .ok (some ⟨ms⟩) : Except Error (Option Header)) = .ok u ↔ _
    by_cases hc : ms.contains "crit" = true
    · rw [if_pos hc]
      refine ⟨nofun, ?_⟩
      rintro ⟨rfl, h⟩
      have hnot : ms.contains "crit" = false := h ⟨ms⟩ rfl
      rw [hnot] at hc
      cases hc
    · rw [if_neg hc]
      constructor
      · intro h
        cases h
        refine ⟨rfl, fun h hu => ?_⟩
        cases hu
        exact Bool.eq_false_iff.2 hc
      · rintro ⟨rfl, -⟩
        rfl

/-- Nothing is refused if no name stands in both headers. -/
theorem Header.refuseShared_eq_ok_iff {h : Header} {u : Option Header} :
    h.refuseShared u = .ok () ↔ ∀ v, u = some v → h.sharedName? v = none := by
  unfold refuseShared
  cases u with
  | none =>
    constructor
    · intro _ v hv
      cases hv
    · intro _
      rfl
  | some v =>
    cases hv : h.sharedName? v with
    | some name =>
      simp only [Option.bind_some, hv]
      constructor
      · intro hok
        cases hok
      · intro hall
        rw [hall v rfl] at hv
        cases hv
    | none =>
      simp only [Option.bind_some, hv]
      constructor
      · intro _ w hw
        cases hw
        exact hv
      · intro _
        trivial

/-! ## Algorithms by name -/

theorem SignatureAlgorithm.ofName?_eq_some_iff {name : String} {alg : SignatureAlgorithm} :
    ofName? name = some alg ↔ name = alg.name := by
  constructor
  · intro h
    unfold ofName? at h
    split at h <;> cases h <;> rfl
  · rintro rfl
    exact ofName?_name alg

theorem KeyManagement.ofName?_eq_some_iff {name : String} {alg : KeyManagement} :
    ofName? name = some alg ↔ name = alg.name := by
  constructor
  · intro h
    unfold ofName? at h
    split at h <;> cases h <;> rfl
  · rintro rfl
    exact ofName?_name alg

/-- An algorithm is told by its name. -/
theorem KeyManagement.name_injective : Function.Injective KeyManagement.name := by
  intro a b h
  have hname : ofName? a.name = some b := ofName?_eq_some_iff.2 h
  rw [ofName?_name] at hname
  exact Option.some.inj hname

theorem ContentEncryption.ofName?_eq_some_iff {name : String} {enc : ContentEncryption} :
    ofName? name = some enc ↔ name = enc.name := by
  constructor
  · intro h
    unfold ofName? at h
    split at h <;> cases h <;> rfl
  · rintro rfl
    exact ofName?_name enc

namespace Header

/-- An algorithm is the one that the parameter names. -/
theorem algorithm_eq_ok_iff {α : Type} {ofName? : String → Option α} {missing : ParameterFault}
    {name? : Option String} {a : α} :
    algorithm ofName? missing name? = .ok a ↔
      ∃ name, name? = some name ∧ ofName? name = some a := by
  cases name? with
  | none => exact ⟨nofun, nofun⟩
  | some name =>
    show algorithmNamed ofName? name = .ok a ↔ _
    unfold algorithmNamed
    cases hof : ofName? name <;> simp [hof]

/-- The signature algorithm of a header is the one that it names. -/
theorem signatureAlgorithm_eq_ok_iff {h : Header} {alg : SignatureAlgorithm} :
    h.signatureAlgorithm = .ok alg ↔ h.alg? = some alg.name := by
  simp [signatureAlgorithm, algorithm_eq_ok_iff, SignatureAlgorithm.ofName?_eq_some_iff]

theorem keyManagement_eq_ok_iff {h : Header} {alg : KeyManagement} :
    h.keyManagement = .ok alg ↔ h.alg? = some alg.name := by
  simp [keyManagement, algorithm_eq_ok_iff, KeyManagement.ofName?_eq_some_iff]

theorem contentEncryption_eq_ok_iff {h : Header} {enc : ContentEncryption} :
    h.contentEncryption = .ok enc ↔ h.enc? = some enc.name := by
  simp [contentEncryption, algorithm_eq_ok_iff, ContentEncryption.ofName?_eq_some_iff]

end Header

/-! ## Signed tokens -/

namespace SignedToken

/-- Whether the headers of a token name an algorithm and have no parameter in common. -/
def Consistent (t : SignedToken) : Prop :=
  t.header.alg?.isSome = true ∧ ∀ u, t.unprotected = some u → t.header.sharedName? u = none

theorem ofParts_eq_ok_iff {header : Header} {segment : String} {unprotected : Option Header}
    {payload signature : Bytes} {t : SignedToken} :
    ofParts header segment unprotected payload signature = .ok t ↔
      t = ⟨header, segment, unprotected, payload, signature⟩ ∧ t.Consistent := by
  unfold ofParts
  cases ha : header.alg? with
  | none =>
    refine ⟨nofun, ?_⟩
    rintro ⟨rfl, h, -⟩
    rw [ha] at h
    cases h
  | some alg =>
    show (header.refuseShared unprotected >>= fun _ => pure _) = .ok t ↔ _
    rw [bind_eq_ok_iff]
    constructor
    · rintro ⟨_, hshared, ht⟩
      cases ht
      exact ⟨rfl, by rw [ha]; rfl, Header.refuseShared_eq_ok_iff.1 hshared⟩
    · rintro ⟨rfl, -, hshared⟩
      exact ⟨(), Header.refuseShared_eq_ok_iff.2 hshared, rfl⟩

/-- A token is that of a payload's text and an entry exactly if they hold its parts. -/
theorem ofEntry_eq_ok_iff {payload : String} {entry : Object} {t : SignedToken} :
    ofEntry payload entry = .ok t ↔
      textOf entry "protected" = t.segment ∧ Header.decode t.segment = .ok t.header ∧
      unprotectedHeader (entry.object? "header") = .ok t.unprotected ∧
      payload = Base64Url.encode t.payload ∧
      textOf entry "signature" = Base64Url.encode t.signature ∧ t.Consistent := by
  simp only [ofEntry, bytesOf, bind_eq_ok_iff, ofParts_eq_ok_iff, Segment.decode_eq_ok_iff]
  constructor
  · rintro ⟨header, hheader, unprotected, hunprotected, bytes, hpayload, signature, hsignature,
      rfl, hc⟩
    exact ⟨rfl, hheader, hunprotected, hpayload, hsignature, hc⟩
  · rintro ⟨hsegment, hheader, hunprotected, hpayload, hsignature, hc⟩
    refine ⟨t.header, ?_, t.unprotected, hunprotected, t.payload, hpayload, t.signature,
      hsignature, ?_, hc⟩
    · rw [hsegment]
      exact hheader
    · rw [hsegment]

end SignedToken

/-! ## Encrypted tokens -/

namespace EncryptedToken

/-- Whether the headers of a token name both algorithms and have no parameter in common. -/
def Consistent (t : EncryptedToken) : Prop :=
  t.header.alg?.isSome = true ∧ t.header.enc?.isSome = true ∧
    ∀ u, t.unprotected = some u → t.header.sharedName? u = none

theorem ofParts_eq_ok_iff {header : Header} {segment : String} {unprotected : Option Header}
    {encryptedKey iv ciphertext tag : Bytes} {t : EncryptedToken} :
    ofParts header segment unprotected encryptedKey iv ciphertext tag = .ok t ↔
      t = ⟨header, segment, unprotected, encryptedKey, iv, ciphertext, tag⟩ ∧ t.Consistent := by
  unfold ofParts
  split
  · next hnone =>
    refine ⟨nofun, ?_⟩
    rintro ⟨rfl, halg, henc, -⟩
    -- one of the two algorithms is missing
    rcases hnone with h | h
    · exact absurd halg (Option.not_isSome_iff_eq_none.2 (Option.isNone_iff_eq_none.1 h))
    · exact absurd henc (Option.not_isSome_iff_eq_none.2 (Option.isNone_iff_eq_none.1 h))
  · next hsome =>
    rw [not_or, Bool.not_eq_true, Bool.not_eq_true, Option.isNone_eq_false_iff,
      Option.isNone_eq_false_iff] at hsome
    rw [bind_eq_ok_iff]
    constructor
    · rintro ⟨_, hshared, ht⟩
      cases ht
      exact ⟨rfl, hsome.1, hsome.2, Header.refuseShared_eq_ok_iff.1 hshared⟩
    · rintro ⟨rfl, -, -, hshared⟩
      exact ⟨(), Header.refuseShared_eq_ok_iff.2 hshared, rfl⟩

/-- A token is that of members and an entry exactly if they hold its parts. -/
theorem ofEntry_eq_ok_iff {members entry : Object} {t : EncryptedToken} :
    ofEntry members entry = .ok t ↔
      members.text? "aad" = none ∧
      textOf members "protected" = t.segment ∧ Header.decode t.segment = .ok t.header ∧
      mergeUnprotected (members.object? "unprotected") (entry.object? "header") =
        .ok t.unprotected ∧
      textOf entry "encrypted_key" = Base64Url.encode t.encryptedKey ∧
      textOf members "iv" = Base64Url.encode t.iv ∧
      textOf members "ciphertext" = Base64Url.encode t.ciphertext ∧
      textOf members "tag" = Base64Url.encode t.tag ∧ t.Consistent := by
  unfold ofEntry
  cases haad : members.text? "aad" with
  | some text => exact ⟨nofun, nofun⟩
  | none =>
    simp only [bytesOf, bind_eq_ok_iff, ofParts_eq_ok_iff, Segment.decode_eq_ok_iff,
      Option.isSome_none, Bool.false_eq_true, if_false, true_and]
    constructor
    · rintro ⟨header, hheader, unprotected, hunprotected, key, hkey, iv, hiv, ciphertext,
        hciphertext, tag, htag, rfl, hc⟩
      exact ⟨rfl, hheader, hunprotected, hkey, hiv, hciphertext, htag, hc⟩
    · rintro ⟨hsegment, hheader, hunprotected, hkey, hiv, hciphertext, htag, hc⟩
      refine ⟨t.header, ?_, t.unprotected, hunprotected, t.encryptedKey, hkey, t.iv, hiv,
        t.ciphertext, hciphertext, t.tag, htag, ?_, hc⟩
      · rw [hsegment]
        exact hheader
      · rw [hsegment]

end EncryptedToken

/-! ## The compact form -/

namespace Token

/-- A compact text is a signed token exactly if its segments are those of the token. -/
theorem ofCompact_eq_ok_signed_iff {text : String} {t : SignedToken} :
    ofCompact text = .ok (.signed t) ↔
      segments text =
        [t.segment, Base64Url.encode t.payload, Base64Url.encode t.signature] ∧
      Header.decode t.segment = .ok t.header ∧ t.unprotected = none ∧ t.Consistent := by
  unfold ofCompact
  constructor
  · intro h
    split at h
    · next segment payload signature hs =>
      simp only [bind_eq_ok_iff, SignedToken.ofParts_eq_ok_iff, Segment.decode_eq_ok_iff] at h
      obtain ⟨header, hheader, _, rfl, _, rfl, u, ⟨rfl, hc⟩, ht⟩ := h
      cases ht
      exact ⟨hs, hheader, rfl, hc⟩
    · simp only [bind_eq_ok_iff] at h
      -- five segments make an encrypted token
      obtain ⟨_, _, _, _, _, _, _, _, _, _, _, _, ht⟩ := h
      cases ht
    · cases h
  · rintro ⟨hs, hheader, hu, hc⟩
    rw [hs]
    simp only [bind_eq_ok_iff, SignedToken.ofParts_eq_ok_iff, Segment.decode_eq_ok_iff]
    refine ⟨t.header, hheader, t.payload, rfl, t.signature, rfl, t, ⟨?_, hc⟩, rfl⟩
    rw [← hu]

/-- A compact text is an encrypted token exactly if its segments are those of the token. -/
theorem ofCompact_eq_ok_encrypted_iff {text : String} {t : EncryptedToken} :
    ofCompact text = .ok (.encrypted t) ↔
      segments text =
        [t.segment, Base64Url.encode t.encryptedKey, Base64Url.encode t.iv,
          Base64Url.encode t.ciphertext, Base64Url.encode t.tag] ∧
      Header.decode t.segment = .ok t.header ∧ t.unprotected = none ∧ t.Consistent := by
  unfold ofCompact
  constructor
  · intro h
    split at h
    · simp only [bind_eq_ok_iff] at h
      obtain ⟨_, _, _, _, _, _, _, _, ht⟩ := h
      cases ht
    · next segment key iv ciphertext tag hs =>
      simp only [bind_eq_ok_iff, EncryptedToken.ofParts_eq_ok_iff, Segment.decode_eq_ok_iff] at h
      obtain ⟨header, hheader, _, rfl, _, rfl, _, rfl, _, rfl, u, ⟨rfl, hc⟩, ht⟩ := h
      cases ht
      exact ⟨hs, hheader, rfl, hc⟩
    · cases h
  · rintro ⟨hs, hheader, hu, hc⟩
    rw [hs]
    simp only [bind_eq_ok_iff, EncryptedToken.ofParts_eq_ok_iff, Segment.decode_eq_ok_iff]
    refine ⟨t.header, hheader, t.encryptedKey, rfl, t.iv, rfl, t.ciphertext, rfl, t.tag, rfl, t,
      ⟨?_, hc⟩, rfl⟩
    rw [← hu]

end Token

/-! ## The JSON forms -/

theorem orMalformedForm_eq_ok_iff {α : Type} {form : JsonForm} {r : Except Json.ReadError α}
    {a : α} : orMalformedForm form r = .ok a ↔ r = .ok a := mapError_eq_ok_iff

theorem SignedToken.ofGeneral_eq_ok_iff {o : Object} {t : SignedToken} :
    ofGeneral o = .ok t ↔
      signedGeneralRecord.checkObject o = .ok () ∧
      ∃ entry, o.records "signatures" signatureRecord = [entry] ∧
        ofEntry (textOf o "payload") entry = .ok t := by
  simp only [ofGeneral, bind_eq_ok_iff, orMalformedForm_eq_ok_iff, Record.read_object_eq_ok_iff]
  constructor
  · rintro ⟨_, ⟨hcheck, rfl⟩, h⟩
    split at h
    · next entry hentries => exact ⟨hcheck, entry, hentries, h⟩
    · cases h
  · rintro ⟨hcheck, entry, hentries, h⟩
    refine ⟨o, ⟨hcheck, rfl⟩, ?_⟩
    rw [hentries]
    exact h

theorem SignedToken.ofFlattened_eq_ok_iff {o : Object} {t : SignedToken} :
    ofFlattened o = .ok t ↔
      signedFlattenedRecord.checkObject o = .ok () ∧ signatureRecord.checkObject o = .ok () ∧
      ofEntry (textOf o "payload") o = .ok t := by
  simp only [ofFlattened, bind_eq_ok_iff, orMalformedForm_eq_ok_iff]
  constructor
  · rintro ⟨_, ⟨_, hmembers, hentry⟩, h⟩
    exact ⟨hmembers, hentry, h⟩
  · rintro ⟨hmembers, hentry, h⟩
    exact ⟨(), ⟨(), hmembers, hentry⟩, h⟩

theorem EncryptedToken.ofGeneral_eq_ok_iff {o : Object} {t : EncryptedToken} :
    ofGeneral o = .ok t ↔
      encryptedGeneralRecord.checkObject o = .ok () ∧
      ∃ entry, o.records "recipients" recipientRecord = [entry] ∧ ofEntry o entry = .ok t := by
  simp only [ofGeneral, bind_eq_ok_iff, orMalformedForm_eq_ok_iff, Record.read_object_eq_ok_iff]
  constructor
  · rintro ⟨_, ⟨hcheck, rfl⟩, h⟩
    split at h
    · next entry hentries => exact ⟨hcheck, entry, hentries, h⟩
    · cases h
  · rintro ⟨hcheck, entry, hentries, h⟩
    refine ⟨o, ⟨hcheck, rfl⟩, ?_⟩
    rw [hentries]
    exact h

theorem EncryptedToken.ofFlattened_eq_ok_iff {o : Object} {t : EncryptedToken} :
    ofFlattened o = .ok t ↔
      encryptedFlattenedRecord.checkObject o = .ok () ∧ recipientRecord.checkObject o = .ok () ∧
      ofEntry o o = .ok t := by
  simp only [ofFlattened, bind_eq_ok_iff, orMalformedForm_eq_ok_iff]
  constructor
  · rintro ⟨_, ⟨_, hmembers, hentry⟩, h⟩
    exact ⟨hmembers, hentry, h⟩
  · rintro ⟨hmembers, hentry, h⟩
    exact ⟨(), ⟨(), hmembers, hentry⟩, h⟩

/-- An object is a signed token if it has a list of signatures, or none of the members by which
encrypted tokens are told. -/
theorem Token.ofObject_eq_ok_signed_iff {o : Object} {t : SignedToken} :
    ofObject o = .ok (.signed t) ↔
      (o.contains "signatures" = true ∧ SignedToken.ofGeneral o = .ok t) ∨
      (o.contains "signatures" = false ∧ o.contains "recipients" = false ∧
        o.contains "ciphertext" = false ∧ o.contains "payload" = true ∧
        SignedToken.ofFlattened o = .ok t) := by
  unfold ofObject
  -- four members decide which form an object is read as, in this order
  cases o.contains "signatures" <;> cases o.contains "recipients" <;>
    cases o.contains "ciphertext" <;> cases o.contains "payload" <;>
    simp [map_eq_ok_iff]

/-- An object is an encrypted token if it has no list of signatures, but one of recipients or a
ciphertext. -/
theorem Token.ofObject_eq_ok_encrypted_iff {o : Object} {t : EncryptedToken} :
    ofObject o = .ok (.encrypted t) ↔
      (o.contains "signatures" = false ∧ o.contains "recipients" = true ∧
        EncryptedToken.ofGeneral o = .ok t) ∨
      (o.contains "signatures" = false ∧ o.contains "recipients" = false ∧
        o.contains "ciphertext" = true ∧ EncryptedToken.ofFlattened o = .ok t) := by
  unfold ofObject
  cases o.contains "signatures" <;> cases o.contains "recipients" <;>
    cases o.contains "ciphertext" <;> cases o.contains "payload" <;>
    simp [map_eq_ok_iff]

theorem Token.ofJson_eq_ok_iff {text : String} {t : Token} :
    ofJson text = .ok t ↔
      ∃ o, Json.parse (Bytes.ofString text) = .ok (.object o) ∧ ofObject o = .ok t := by
  unfold ofJson
  constructor
  · intro h
    split at h
    · cases h
    · next o hparse => exact ⟨o, hparse, h⟩
    · cases h
  · rintro ⟨o, hparse, h⟩
    rw [hparse]
    exact h

/-! ## Whole texts -/

/-- A text that begins with a brace is JSON, any other is compact. -/
theorem Token.ofText_eq (text : String) :
    ofText text =
      if (Text.trim text).toList.head? = some '\x7b' then ofJson (Text.trim text)
      else ofCompact (Text.trim text) := by
  unfold ofText
  simp only
  by_cases hhead : (Text.trim text).toList.head? = some '\x7b'
  · obtain ⟨rest, heq⟩ := List.head?_eq_some_iff.1 hhead
    rw [if_pos hhead, heq]
    rfl
  · rw [if_neg hhead]
    split
    · next rest heq =>
      rw [heq] at hhead
      exact absurd rfl hhead
    · rfl

end WebToken
