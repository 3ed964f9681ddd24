import WebToken.Proofs.Reachable

/-!
# The JSON forms are read as they are written

The object that is written for a token passes the checks of the record that it is read as, can be
told from the other three forms by its members, and holds the parts of the token where they are
looked for.

* `SignedToken.ofObject_general`, `SignedToken.ofObject_flattened`,
  `EncryptedToken.ofObject_general` and `EncryptedToken.ofObject_flattened` : the token is read back
  from its object.
-/

namespace WebToken

open Json (Object Record)

/-! ## Unprotected headers -/

/-- An unprotected header is taken back from its parameters. -/
theorem unprotectedHeader_parameters {u : Option Header}
    (h : ∀ v, u = some v → v.contains "crit" = false) :
    unprotectedHeader (u.map Header.parameters) = .ok u := by
  rw [unprotectedHeader_eq_ok_iff, Option.map_map]
  exact ⟨by cases u <;> rfl, h⟩

/-- The header that is written for all recipients is the only one that is read. -/
theorem mergeUnprotected_none (ms : Option Object) :
    mergeUnprotected ms none = unprotectedHeader ms := by
  cases ms <;> rfl

/-! ## Signed tokens -/

namespace SignedToken

variable (t : SignedToken)

theorem checkObject_entry : signatureRecord.checkObject t.entry = .ok () := by
  unfold entry
  cases t.unprotected <;> rfl

/-- An object that holds the parts of an entry gives the token back. -/
theorem ofEntry_of_members {o : Object} (h : (Token.signed t).Invariant)
    (hdecode : Header.decode t.segment = .ok t.header)
    (hprotected : textOf o "protected" = t.segment)
    (hheader : o.object? "header" = t.unprotected.map Header.parameters)
    (hsignature : textOf o "signature" = Base64Url.encode t.signature) :
    ofEntry (Base64Url.encode t.payload) o = .ok t := by
  rw [ofEntry_eq_ok_iff, hheader]
  exact ⟨hprotected, hdecode, unprotectedHeader_parameters fun u hu => (h.unprotected u hu).2, rfl,
    hsignature, h.consistent⟩

/-- Nothing is read from an entry whose protected header cannot be decoded. -/
theorem ofEntry_of_decode_error (payload : String) {o : Object} {e : Error}
    (hprotected : textOf o "protected" = t.segment) (hdecode : Header.decode t.segment = .error e) :
    ofEntry payload o = .error e := by
  rw [ofEntry, hprotected, hdecode]
  rfl

/-- The general form is read as its only entry. -/
theorem ofObject_general_eq :
    Token.ofObject t.general = (ofEntry (Base64Url.encode t.payload) t.entry).map .signed := by
  have hmembers : ∀ m ∈ t.general, signedGeneralRecord.checkMember m.1 m.2 = .ok () := by
    rw [general, List.forall_mem_append]
    refine ⟨List.forall_mem_singleton.2 rfl, List.forall_mem_singleton.2 ?_⟩
    exact Json.Field.check_list_singleton "signatures" (checkObject_entry t)
  have hcheck : signedGeneralRecord.checkObject t.general = .ok () :=
    Record.checkObject_eq_ok_iff.2 ⟨hmembers, Record.missing?_eq_none_iff.1 rfl⟩
  have hread : signedGeneralRecord.read (.object t.general) = .ok t.general :=
    Record.read_object_eq_ok_iff.2 ⟨hcheck, rfl⟩
  have hentries : Json.Object.records t.general "signatures" signatureRecord = [t.entry] :=
    Json.Object.records_singleton rfl (checkObject_entry t)
  show (ofGeneral t.general).map Token.signed = _
  simp only [ofGeneral, hread, orMalformedForm, Except.mapError, hentries, bind, Except.bind]
  rfl

/-- The flattened form is read as an entry: no member is one by which another form is told. -/
theorem ofObject_flattened_eq :
    Token.ofObject t.flattened =
      (ofEntry (Base64Url.encode t.payload) t.flattened).map .signed := by
  -- the members stand at known places once it is known whether there is an unprotected header
  unfold flattened entry
  cases t.unprotected <;> rfl

/-- A signed token is read back from the general form. -/
theorem ofObject_general (h : (Token.signed t).Invariant)
    (hdecode : Header.decode t.segment = .ok t.header) :
    Token.ofObject t.general = .ok (.signed t) := by
  have hentry : ofEntry (Base64Url.encode t.payload) t.entry = .ok t := by
    apply ofEntry_of_members t h hdecode
    · rfl
    · unfold entry
      cases t.unprotected <;> rfl
    · unfold entry
      cases t.unprotected <;> rfl
  rw [ofObject_general_eq, hentry]
  rfl

/-- A signed token is read back from the flattened form. -/
theorem ofObject_flattened (h : (Token.signed t).Invariant)
    (hdecode : Header.decode t.segment = .ok t.header) :
    Token.ofObject t.flattened = .ok (.signed t) := by
  have hentry : ofEntry (Base64Url.encode t.payload) t.flattened = .ok t := by
    apply ofEntry_of_members t h hdecode
    · rfl
    · unfold flattened entry
      cases t.unprotected <;> rfl
    · unfold flattened entry
      cases t.unprotected <;> rfl
  rw [ofObject_flattened_eq, hentry]
  rfl

end SignedToken

/-! ## Encrypted tokens -/

namespace EncryptedToken

variable (t : EncryptedToken)

theorem checkObject_entry : recipientRecord.checkObject t.entry = .ok () := by
  unfold entry
  split <;> rfl

/-- An empty encrypted key is left out, and is what is read where there is none. -/
theorem textOf_entry : textOf t.entry "encrypted_key" = Base64Url.encode t.encryptedKey := by
  unfold entry
  split
  · next hempty =>
    rw [hempty]
    rfl
  · rfl

/-- Objects that hold the parts of a token give the token back. -/
theorem ofEntry_of_members {members entry : Object} (h : (Token.encrypted t).Invariant)
    (hdecode : Header.decode t.segment = .ok t.header)
    (haad : members.text? "aad" = none)
    (hprotected : textOf members "protected" = t.segment)
    (hunprotected : members.object? "unprotected" = t.unprotected.map Header.parameters)
    (hheader : entry.object? "header" = none)
    (hkey : textOf entry "encrypted_key" = Base64Url.encode t.encryptedKey)
    (hiv : textOf members "iv" = Base64Url.encode t.iv)
    (hciphertext : textOf members "ciphertext" = Base64Url.encode t.ciphertext)
    (htag : textOf members "tag" = Base64Url.encode t.tag) :
    ofEntry members entry = .ok t := by
  rw [ofEntry_eq_ok_iff, hunprotected, hheader, mergeUnprotected_none]
  exact ⟨haad, hprotected, hdecode,
    unprotectedHeader_parameters fun u hu => (h.unprotected u hu).2, hkey, hiv, hciphertext, htag,
    h.consistent⟩

/-- An encrypted token is read back from the general form. -/
theorem ofObject_general (h : (Token.encrypted t).Invariant)
    (hdecode : Header.decode t.segment = .ok t.header) :
    Token.ofObject t.general = .ok (.encrypted t) := by
  have hmembers : ∀ m ∈ t.general, encryptedGeneralRecord.checkMember m.1 m.2 = .ok () := by
    simp only [general, headMembers, contentMembers, List.forall_mem_append]
    refine ⟨⟨⟨List.forall_mem_singleton.2 rfl, ?_⟩, List.forall_mem_singleton.2 ?_⟩,
      ⟨List.forall_mem_singleton.2 rfl, List.forall_mem_singleton.2 rfl⟩,
      List.forall_mem_singleton.2 rfl⟩
    · cases t.unprotected with
      | none => exact nofun
      | some u => exact List.forall_mem_singleton.2 rfl
    · exact Json.Field.check_list_singleton "recipients" (checkObject_entry t)
  have hcheck : encryptedGeneralRecord.checkObject t.general = .ok () := by
    refine Record.checkObject_eq_ok_iff.2 ⟨hmembers, Record.missing?_eq_none_iff.1 ?_⟩
    unfold general headMembers
    cases t.unprotected <;> rfl
  -- an unprotected header stands before the recipients, so both cases are looked at
  have hget : Json.Object.get? t.general "recipients" = some (.array [.object t.entry]) := by
    unfold general headMembers
    cases t.unprotected <;> rfl
  have hentry : ofEntry t.general t.entry = .ok t := by
    apply ofEntry_of_members t h hdecode
    case hheader =>
      unfold entry
      split <;> rfl
    case hkey => exact textOf_entry t
    case hprotected => rfl
    all_goals
      unfold general headMembers
      cases t.unprotected <;> rfl
  rw [Token.ofObject_eq_ok_encrypted_iff, ofGeneral_eq_ok_iff]
  refine .inl ⟨?_, ?_, hcheck, t.entry,
    Json.Object.records_singleton hget (checkObject_entry t), hentry⟩
  · unfold general headMembers
    cases t.unprotected <;> rfl
  · unfold general headMembers
    cases t.unprotected <;> rfl

/-- An encrypted token is read back from the flattened form. -/
theorem ofObject_flattened (h : (Token.encrypted t).Invariant)
    (hdecode : Header.decode t.segment = .ok t.header) :
    Token.ofObject t.flattened = .ok (.encrypted t) := by
  have hkey : textOf t.flattened "encrypted_key" = Base64Url.encode t.encryptedKey := by
    rw [← textOf_entry]
    unfold flattened headMembers entry
    split <;> cases t.unprotected <;> rfl
  -- the object is its own entry, and has no member by which an entry gives its own header
  have hentry : ofEntry t.flattened t.flattened = .ok t := by
    apply ofEntry_of_members t h hdecode _ rfl _ _ hkey <;>
      unfold flattened headMembers entry <;> split <;> cases t.unprotected <;> rfl
  rw [Token.ofObject_eq_ok_encrypted_iff, ofFlattened_eq_ok_iff]
  refine .inr ⟨?_, ?_, ?_, ?_, ?_, hentry⟩ <;> unfold flattened headMembers entry <;> split <;>
    cases t.unprotected <;> rfl

end EncryptedToken

end WebToken
