import WebToken.Proofs.Encryption
import WebToken.Proofs.Failures

/-!
# Where unprotected parameters stand

A JSON text of an encrypted token may hold unprotected parameters for all recipients and for the one
that it has. When it is read they become one header, behind each other, so it does not matter in
which of the two places a parameter stands. No name may occur twice in the three headers, and none
may hold anything that must be understood.

* `EncryptedDocument.ofText_eq_ok_iff` : how the token of a text is put together;
* `EncryptedDocument.headers_of_ofText` : what an accepted text holds;
* `EncryptedDocument.ofText_of_moved` : parameters that are moved from one place to the other;
* `EncryptedDocument.headers_anywhere` : all of this for any text.
-/

namespace WebToken

open Json (Object Record Field Value HoldsOptional)

theorem textOf_of_get? {o : Object} {name s : String} (h : o.get? name = some (.string s)) :
    textOf o name = s := by
  rw [textOf, Json.Object.text?, h]
  rfl

/-! ## Recipients -/

/-- Whether a value can be an entry in the list of recipients: an object, or an array of a header
and an encrypted key, from which the key or both may be left off. -/
def IsRecipient (v : Value) : Prop :=
  (∃ o, v = .object o) ∨ ∃ vs, v = .array vs ∧ vs.length ≤ 2

theorem defaulted_recipientRecord : ∀ f ∈ recipientRecord.fields, f.presence = .defaulted := by
  decide

theorem nodup_recipientRecord : (recipientRecord.fields.map Field.name).Nodup := by decide

/-- What was read of an entry is what stands in its places. -/
theorem get?_of_read_recipient {v : Value} {entry : Object}
    (h : recipientRecord.read v = .ok entry) :
    entry.get? "header" = v.field? "header" 0 ∧
      entry.get? "encrypted_key" = v.field? "encrypted_key" 1 := by
  match v, h with
  | .object o, h =>
    obtain ⟨-, rfl⟩ := Json.Record.read_object_eq_ok_iff.1 h
    exact ⟨rfl, rfl⟩
  | .array vs, h =>
    obtain ⟨-, -, rfl⟩ := Json.Record.ofItems_eq_ok_iff.1 h
    rcases vs with _ | ⟨header, _ | ⟨key, rest⟩⟩ <;> exact ⟨rfl, rfl⟩

theorem read_recipient_array_isOk_iff {vs : List Value} :
    (∃ entry, recipientRecord.read (.array vs) = .ok entry) ↔
      vs.length ≤ 2 ∧ ∀ p ∈ recipientRecord.fields.zip vs, p.1.check p.2 = .ok () := by
  constructor
  · rintro ⟨entry, h⟩
    obtain ⟨⟨hlength, -⟩, hchecks, -⟩ := Json.Record.ofItems_eq_ok_iff.1 h
    exact ⟨hlength, hchecks⟩
  · rintro ⟨hlength, hchecks⟩
    have hdrop : ∀ f ∈ recipientRecord.fields.drop vs.length, f.presence = .defaulted :=
      fun f hf => defaulted_recipientRecord f (List.mem_of_mem_drop hf)
    exact ⟨_, Json.Record.ofItems_eq_ok_iff.2 ⟨⟨hlength, hdrop⟩, hchecks, rfl⟩⟩

/-- An entry is read if it can be one and each of its places holds what may stand there. -/
theorem read_recipient_isOk_iff {v : Value} (hv : v.WellFormed) :
    (∃ entry, recipientRecord.read v = .ok entry) ↔
      IsRecipient v ∧ (Field.optionalObject "header").Accepts (v.field? "header" 0) ∧
        (Field.textOrEmpty "encrypted_key").Accepts (v.field? "encrypted_key" 1) := by
  cases v with
  | object o =>
    have hcheck := Json.Record.checkObject_eq_ok_iff_accepts nodup_recipientRecord
      (Value.all_object.1 hv).1
    rw [recipientRecord, List.forall_mem_cons, List.forall_mem_singleton] at hcheck
    constructor
    · rintro ⟨entry, h⟩
      exact ⟨.inl ⟨o, rfl⟩, hcheck.1 (Json.Record.read_object_eq_ok_iff.1 h).1⟩
    · rintro ⟨-, hfields⟩
      exact ⟨o, Json.Record.read_object_eq_ok_iff.2 ⟨hcheck.2 hfields, rfl⟩⟩
  | array vs =>
    rw [read_recipient_array_isOk_iff]
    rcases vs with _ | ⟨header, _ | ⟨key, rest⟩⟩ <;>
      simp [IsRecipient, recipientRecord, Json.Value.field?, Json.Field.Accepts,
        Field.optionalObject, Field.textOrEmpty]
  | _ =>
    constructor
    · rintro ⟨_, h⟩
      cases h
    · rintro ⟨⟨_, h⟩ | ⟨_, h, -⟩, -⟩ <;> cases h

/-! ## Unprotected headers -/

/-- The members of an object, none if it is missing. -/
def membersOf (ms? : Option Object) : Object := ms?.getD []

/-- The unprotected parameters for all recipients and for one together. -/
def joined : Option Object → Option Object → Option Object
  | none, none => none
  | shared, own => some (membersOf shared ++ membersOf own)

theorem membersOf_joined (shared own : Option Object) :
    membersOf (joined shared own) = membersOf shared ++ membersOf own := by
  cases shared <;> cases own <;> rfl

/-- No name of an object is found in another if they have none in common. -/
theorem find?_contains_eq_none_iff {o o' : Object} :
    o.names.find? o'.contains = none ↔ o.names.Disjoint o'.names := by
  rw [List.find?_eq_none]
  constructor
  · exact fun h name hname hname' => h name hname (Json.Object.contains_iff.2 hname')
  · exact fun h name hname hname' => h hname (Json.Object.contains_iff.1 hname')

theorem unprotectedHeader_some_eq_ok_iff {ms : Object} {u : Option Header} :
    unprotectedHeader (some ms) = .ok u ↔ u = some ⟨ms⟩ ∧ "crit" ∉ ms.names := by
  rw [unprotectedHeader_eq_ok_iff]
  constructor
  · rintro ⟨rfl, hcrit⟩
    exact ⟨rfl, Header.contains_eq_false_iff.1 (hcrit ⟨ms⟩ rfl)⟩
  · rintro ⟨rfl, hcrit⟩
    refine ⟨rfl, fun h hh => ?_⟩
    cases hh
    exact Header.contains_eq_false_iff.2 hcrit

/-- Two unprotected headers are one if they have no name in common and hold nothing that must be
understood. -/
theorem mergeUnprotected_eq_ok_iff {shared own : Option Object} {u : Option Header} :
    mergeUnprotected shared own = .ok u ↔
      u = (joined shared own).map Header.mk ∧
        (membersOf shared).names.Disjoint (membersOf own).names ∧
        "crit" ∉ (membersOf shared ++ membersOf own).names := by
  match shared, own with
  | none, none => simp [mergeUnprotected, joined, membersOf, Json.Object.names, eq_comm]
  | some ms, none =>
    simp [mergeUnprotected, unprotectedHeader_some_eq_ok_iff, joined, membersOf, Json.Object.names]
  | none, some ms =>
    simp [mergeUnprotected, unprotectedHeader_some_eq_ok_iff, joined, membersOf, Json.Object.names]
  | some shared, some own =>
    rw [membersOf, membersOf, Option.getD_some, Option.getD_some, List.disjoint_comm,
      ← find?_contains_eq_none_iff, mergeUnprotected]
    cases hfind : own.names.find? shared.contains with
    | some name => simp
    | none => simp [unprotectedHeader_some_eq_ok_iff, joined, membersOf]

/-- A header shares no parameter with the unprotected ones if it has no name in common with them. -/
theorem sharedName?_joined_iff {P : Object} {shared own : Option Object} :
    (∀ u, (joined shared own).map Header.mk = some u → Header.sharedName? ⟨P⟩ u = none) ↔
      P.names.Disjoint (membersOf shared ++ membersOf own).names := by
  rw [← membersOf_joined]
  cases joined shared own with
  | none => simp [membersOf, Json.Object.names]
  | some ms =>
    simp only [Option.map_some, Option.some.injEq, forall_eq', membersOf, Option.getD_some]
    exact find?_contains_eq_none_iff

/-- Whether three headers have no name in common, and none holds anything that must be
understood. -/
structure Separate (P shared own : Object) : Prop where
  protectedShared : P.names.Disjoint shared.names
  protectedOwn : P.names.Disjoint own.names
  sharedOwn : shared.names.Disjoint own.names
  critical : "crit" ∉ P.names ∧ "crit" ∉ shared.names ∧ "crit" ∉ own.names

theorem separate_iff {P shared own : Object} :
    Separate P shared own ↔ shared.names.Disjoint own.names ∧
      P.names.Disjoint (shared ++ own).names ∧ "crit" ∉ P.names ∧
      "crit" ∉ (shared ++ own).names := by
  simp only [Json.Object.names, List.map_append, List.disjoint_append_right, List.mem_append,
    not_or]
  constructor
  · rintro ⟨hshared, hown, hboth, hcrit⟩
    exact ⟨hboth, ⟨hshared, hown⟩, hcrit⟩
  · rintro ⟨hboth, ⟨hshared, hown⟩, hcrit⟩
    exact ⟨hshared, hown, hboth, hcrit⟩

/-- Whether headers are separate does not depend on which of the unprotected parameters are for all
recipients. -/
theorem Separate.of_perm {P shared own shared' own' : Object} (h : Separate P shared own)
    (hperm : (shared ++ own).Perm (shared' ++ own')) (hshared : shared.names.Nodup)
    (hown : own.names.Nodup) : Separate P shared' own' := by
  obtain ⟨hboth, hP, hcrit, hcrit'⟩ := separate_iff.1 h
  have hnames : (shared ++ own).names.Perm (shared' ++ own').names := hperm.map _
  have hnodup : (shared ++ own).names.Nodup :=
    Json.Object.nodup_names_append hshared hown fun name hname hmem => hboth hmem hname
  refine separate_iff.2 ⟨?_, fun name hname hmem => hP hname (hnames.mem_iff.2 hmem), hcrit, ?_⟩
  · -- the names of both together remain distinct
    have hnodup' := hnames.nodup_iff.1 hnodup
    rw [Json.Object.names, List.map_append, List.nodup_append'] at hnodup'
    exact hnodup'.2.2
  · rwa [hnames.mem_iff] at hcrit'

/-- The unprotected parameters of a token. -/
def EncryptedToken.unprotectedMembers (e : EncryptedToken) : Object :=
  membersOf (e.unprotected.map Header.parameters)

/-! ## Documents -/

/-- A JSON text of an encrypted token with one recipient, in the general or the flattened form. In
the flattened form the object itself tells of the recipient. -/
structure EncryptedDocument where
  text : String
  members : Object
  recipient : Value
  opens : (Text.trim text).toList.head? = some '\x7b'
  parsed : Json.parse (Bytes.ofString (Text.trim text)) = .ok (.object members)
  unsigned : members.contains "signatures" = false
  form : members.get? "recipients" = some (.array [recipient]) ∨
    members.contains "recipients" = false ∧ members.contains "ciphertext" = true ∧
      recipient = .object members

namespace EncryptedDocument

variable {d d' : EncryptedDocument} {P : Object} {U R U' R' : Option Object}

theorem wellFormed_members (d : EncryptedDocument) : (Value.object d.members).WellFormed :=
  Value.wellFormed_of_parse d.parsed

theorem nodup_members (d : EncryptedDocument) : d.members.names.Nodup :=
  (Value.all_object.1 d.wellFormed_members).1

theorem wellFormed_of_get? {name : String} {v : Value} (h : d.members.get? name = some v) :
    v.WellFormed :=
  (Value.all_object.1 d.wellFormed_members).2 _ (Json.Object.mem_of_get? h)

theorem wellFormed_recipient (d : EncryptedDocument) : d.recipient.WellFormed := by
  rcases d.form with h | ⟨-, -, h⟩
  · exact (Value.all_array.1 (wellFormed_of_get? h)).2 _ (List.mem_singleton_self _)
  · rw [h]
    exact d.wellFormed_members

/-- The general form holds what the flattened form does beside the recipient. -/
theorem checkObject_general_iff {o : Object} {v : Value} (ho : o.names.Nodup)
    (hget : o.get? "recipients" = some (.array [v])) :
    encryptedGeneralRecord.checkObject o = .ok () ↔
      encryptedFlattenedRecord.checkObject o = .ok () ∧
        ∃ entry, recipientRecord.read v = .ok entry := by
  rw [Json.Record.checkObject_eq_ok_iff_accepts (by decide) ho,
    Json.Record.checkObject_eq_ok_iff_accepts (by decide) ho,
    ← Json.Field.check_list_singleton_iff "recipients"]
  have haccepts : (Field.list "recipients" recipientRecord).Accepts (o.get? "recipients") ↔
      (Field.list "recipients" recipientRecord).check (.array [v]) = .ok () := by
    rw [hget]
    rfl
  simp only [encryptedGeneralRecord, encryptedFlattenedRecord, List.forall_mem_cons, ← haccepts]
  tauto

theorem ofText_eq (d : EncryptedDocument) : Token.ofText d.text =
    if d.members.contains "recipients" then (EncryptedToken.ofGeneral d.members).map .encrypted
    else (EncryptedToken.ofFlattened d.members).map .encrypted := by
  rw [Token.ofText_eq, if_pos d.opens, Token.ofJson, d.parsed]
  rcases d.form with h | ⟨hrecipients, hciphertext, -⟩
  · simp [Token.ofObject, d.unsigned, Json.Object.contains_eq_isSome, h]
  · simp [Token.ofObject, d.unsigned, hrecipients, hciphertext]

/-- The token of a document is put together from its members and what is read of the recipient. -/
theorem ofText_eq_ok_iff {t : Token} :
    Token.ofText d.text = .ok t ↔
      encryptedFlattenedRecord.checkObject d.members = .ok () ∧
        ∃ entry, recipientRecord.read d.recipient = .ok entry ∧
          ∃ e, EncryptedToken.ofEntry d.members entry = .ok e ∧ t = .encrypted e := by
  rw [ofText_eq]
  rcases d.form with hrecipients | ⟨hrecipients, -, hrecipient⟩
  · rw [if_pos (by rw [Json.Object.contains_eq_isSome, hrecipients]; rfl), map_eq_ok_iff]
    simp only [EncryptedToken.ofGeneral_eq_ok_iff, Json.Object.records_eq_singleton_iff hrecipients,
      checkObject_general_iff d.nodup_members hrecipients]
    constructor
    · rintro ⟨e, ⟨⟨hcheck, -⟩, entry, hread, hentry⟩, rfl⟩
      exact ⟨hcheck, entry, hread, e, hentry, rfl⟩
    · rintro ⟨hcheck, entry, hread, e, hentry, rfl⟩
      exact ⟨e, ⟨⟨hcheck, entry, hread⟩, entry, hread, hentry⟩, rfl⟩
  · rw [if_neg (by rw [hrecipients]; exact Bool.false_ne_true), map_eq_ok_iff, hrecipient]
    simp only [EncryptedToken.ofFlattened_eq_ok_iff, Json.Record.read_object_eq_ok_iff]
    constructor
    · rintro ⟨e, ⟨hcheck, hread, hentry⟩, rfl⟩
      exact ⟨hcheck, d.members, ⟨hread, rfl⟩, e, hentry, rfl⟩
    · rintro ⟨hcheck, _, ⟨hread, rfl⟩, e, hentry, rfl⟩
      exact ⟨e, ⟨hcheck, hread, hentry⟩, rfl⟩

/-! ## Headers of documents -/

/-- Whether the three headers of a document are these: the protected one, that for all recipients
and that for the one. -/
structure HasHeaders (d : EncryptedDocument) (P : Object) (U R : Option Object) : Prop where
  header : ∃ segment bytes, d.members.get? "protected" = some (.string segment) ∧
    Base64Url.decode segment = .ok bytes ∧ Json.parse bytes = .ok (.object P)
  shared : HoldsOptional (d.members.get? "unprotected") U
  own : HoldsOptional (d.recipient.field? "header" 0) R
  recipient : IsRecipient d.recipient

/-- The names of an unprotected header are distinct. -/
theorem nodup_membersOf {v? : Option Value} {ms? : Option Object} (h : HoldsOptional v? ms?)
    (hv : ∀ v, v? = some v → v.WellFormed) : (membersOf ms?).names.Nodup := by
  cases h with
  | object ms => exact (Value.all_object.1 (hv _ rfl)).1
  | _ => exact List.nodup_nil

theorem wellFormed_field? {v w : Value} {name : String} {index : Nat} (hv : v.WellFormed)
    (h : v.field? name index = some w) : w.WellFormed := by
  cases v with
  | object o => exact (Value.all_object.1 hv).2 _ (Json.Object.mem_of_get? h)
  | array vs => exact (Value.all_array.1 hv).2 _ (List.mem_of_getElem? h)
  | _ => cases h

/-- The header that is read of a recipient is the one that the document holds for it. -/
theorem object?_header_of_read {entry : Object} (h : d.HasHeaders P U R)
    (hread : recipientRecord.read d.recipient = .ok entry) : entry.object? "header" = R := by
  refine HoldsOptional.object?_eq ?_
  rw [(get?_of_read_recipient hread).1]
  exact h.own

/-- An accepted document gives a token with its headers, and these are separate. -/
theorem headers_of_ofText {t : Token} (h : d.HasHeaders P U R) (ht : Token.ofText d.text = .ok t) :
    Separate P (membersOf U) (membersOf R) ∧
      ∃ e, t = .encrypted e ∧ e.header = ⟨P⟩ ∧ e.unprotected = (joined U R).map Header.mk := by
  obtain ⟨-, entry, hread, e, hentry, rfl⟩ := ofText_eq_ok_iff.1 ht
  obtain ⟨-, hsegment, hdecode, hmerge, -, -, -, -, -, -, hshared⟩ :=
    EncryptedToken.ofEntry_eq_ok_iff.1 hentry
  rw [h.shared.object?_eq, object?_header_of_read h hread] at hmerge
  obtain ⟨hunprotected, hboth, hcrit⟩ := mergeUnprotected_eq_ok_iff.1 hmerge
  -- the segment of the token is the protected member, and denotes one object
  obtain ⟨segment, bytes, hget, hbytes, hparse⟩ := h.header
  obtain ⟨bytes', hbytes', hparse', hcrit'⟩ := Header.decode_eq_ok_iff.1 hdecode
  rw [← hsegment, textOf_of_get? hget] at hbytes'
  rw [Base64Url.decode_eq_ok_iff.2 hbytes', Except.ok.injEq] at hbytes
  rw [← hbytes, hparse', Except.ok.injEq, Value.object.injEq] at hparse
  subst hparse
  rw [hunprotected] at hshared
  have hP := sharedName?_joined_iff.1 hshared
  exact ⟨separate_iff.2 ⟨hboth, hP, Header.contains_eq_false_iff.1 hcrit', hcrit⟩, e, rfl, rfl,
    hunprotected⟩

/-! ## Parameters that are moved -/

/-- Whether two documents say the same apart from their unprotected headers. -/
structure AgreesOutside (d d' : EncryptedDocument) : Prop where
  members : ∀ name ∈ ["protected", "aad", "iv", "ciphertext", "tag"],
    d.members.get? name = d'.members.get? name
  encryptedKey : d.recipient.field? "encrypted_key" 1 = d'.recipient.field? "encrypted_key" 1

theorem AgreesOutside.symm (h : d.AgreesOutside d') : d'.AgreesOutside d :=
  ⟨fun name hname => (h.members name hname).symm, h.encryptedKey.symm⟩

/-- What a document needs beside its recipient, one that agrees with it has too. -/
theorem checkObject_of_agreesOutside (hsame : d.AgreesOutside d') (h' : d'.HasHeaders P U' R')
    (h : encryptedFlattenedRecord.checkObject d.members = .ok ()) :
    encryptedFlattenedRecord.checkObject d'.members = .ok () := by
  have hsame := hsame.members
  have hnames : (encryptedFlattenedRecord.fields.map Field.name).Nodup := by decide
  rw [Json.Record.checkObject_eq_ok_iff_accepts hnames d.nodup_members] at h
  rw [Json.Record.checkObject_eq_ok_iff_accepts hnames d'.nodup_members]
  simp only [encryptedFlattenedRecord, List.forall_mem_cons] at h hsame ⊢
  obtain ⟨hprotected, -, haad, hiv, hciphertext, htag, -⟩ := h
  obtain ⟨hprotected', haad', hiv', hciphertext', htag', -⟩ := hsame
  refine ⟨hprotected' ▸ hprotected, ?_, haad' ▸ haad, hiv' ▸ hiv, hciphertext' ▸ hciphertext,
    htag' ▸ htag, nofun⟩
  exact Json.Field.accepts_optionalObject_iff.2 ⟨U', h'.shared⟩

/-- If a document is accepted and another says the same apart from its unprotected headers, it is
accepted too if these are separate, and its token differs in them only. -/
theorem ofText_of_agreesOutside {e : EncryptedToken} (hsame : d.AgreesOutside d')
    (h : d.HasHeaders P U R) (h' : d'.HasHeaders P U' R')
    (hsep : Separate P (membersOf U') (membersOf R'))
    (he : Token.ofText d.text = .ok (.encrypted e)) :
    Token.ofText d'.text =
      .ok (.encrypted { e with unprotected := (joined U' R').map Header.mk }) := by
  obtain ⟨-, _, heq, hheader, -⟩ := headers_of_ofText h he
  cases heq
  obtain ⟨hcheck, entry, hread, _, hentry, heq⟩ := ofText_eq_ok_iff.1 he
  cases heq
  -- the recipient of the other document is read as well, with the same encrypted key
  obtain ⟨-, -, hkey⟩ := (read_recipient_isOk_iff d.wellFormed_recipient).1 ⟨entry, hread⟩
  rw [hsame.encryptedKey] at hkey
  obtain ⟨entry', hread'⟩ := (read_recipient_isOk_iff d'.wellFormed_recipient).2
    ⟨h'.recipient, Json.Field.accepts_optionalObject_iff.2 ⟨R', h'.own⟩, hkey⟩
  have hkeyText : textOf entry' "encrypted_key" = textOf entry "encrypted_key" := by
    rw [textOf, textOf, Json.Object.text?_congr]
    rw [(get?_of_read_recipient hread).2, (get?_of_read_recipient hread').2, hsame.encryptedKey]
  -- so are the other members
  have htext : ∀ name ∈ ["protected", "aad", "iv", "ciphertext", "tag"],
      d'.members.text? name = d.members.text? name := fun name hname =>
    Json.Object.text?_congr (hsame.members name hname).symm
  simp only [List.forall_mem_cons] at htext
  obtain ⟨hprotected', haad', hiv', hciphertext', htag', -⟩ := htext
  obtain ⟨haad, hsegment, hdecode, -, hkeyBytes, hiv, hciphertext, htag, halg, henc, -⟩ :=
    EncryptedToken.ofEntry_eq_ok_iff.1 hentry
  obtain ⟨hboth, hP, -, hcrit⟩ := separate_iff.1 hsep
  have hmerge : mergeUnprotected (d'.members.object? "unprotected") (entry'.object? "header") =
      .ok ((joined U' R').map Header.mk) := by
    rw [h'.shared.object?_eq, object?_header_of_read h' hread']
    exact mergeUnprotected_eq_ok_iff.2 ⟨rfl, hboth, hcrit⟩
  have hcheck' := checkObject_of_agreesOutside hsame h' hcheck
  refine ofText_eq_ok_iff.2 ⟨hcheck', entry', hread', _, ?_, rfl⟩
  refine EncryptedToken.ofEntry_eq_ok_iff.2 ⟨haad'.trans haad, ?_, hdecode, hmerge,
    hkeyText.trans hkeyBytes, ?_, ?_, ?_, halg, henc, ?_⟩
  · rwa [textOf, hprotected']
  · rwa [textOf, hiv']
  · rwa [textOf, hciphertext']
  · rwa [textOf, htag']
  · rw [hheader]
    exact sharedName?_joined_iff.2 hP

/-- Parameters that are moved between the unprotected headers of an accepted document. -/
theorem ofText_of_moved {e : EncryptedToken} (hsame : d.AgreesOutside d') (h : d.HasHeaders P U R)
    (h' : d'.HasHeaders P U' R')
    (hmoved : (membersOf U ++ membersOf R).Perm (membersOf U' ++ membersOf R'))
    (he : Token.ofText d.text = .ok (.encrypted e)) :
    Token.ofText d'.text =
      .ok (.encrypted { e with unprotected := (joined U' R').map Header.mk }) := by
  have hshared := nodup_membersOf h.shared fun v hv => wellFormed_of_get? hv
  have hown := nodup_membersOf h.own fun v hv => wellFormed_field? d.wellFormed_recipient hv
  have hsep := (headers_of_ofText h he).1.of_perm hmoved hshared hown
  exact ofText_of_agreesOutside hsame h h' hsep he

theorem isOk_of_moved (hsame : d.AgreesOutside d') (h : d.HasHeaders P U R)
    (h' : d'.HasHeaders P U' R')
    (hmoved : (membersOf U ++ membersOf R).Perm (membersOf U' ++ membersOf R')) :
    (∃ t, Token.ofText d.text = .ok t) → ∃ t, Token.ofText d'.text = .ok t := by
  rintro ⟨t, ht⟩
  obtain ⟨-, e, rfl, -⟩ := headers_of_ofText h ht
  exact ⟨_, ofText_of_moved hsame h h' hmoved ht⟩

/-! ## What documents hold -/

/-- An accepted document has headers. -/
theorem exists_hasHeaders {t : Token} (ht : Token.ofText d.text = .ok t) :
    ∃ P U R, d.HasHeaders P U R := by
  obtain ⟨hcheck, entry, hread, e, hentry, -⟩ := ofText_eq_ok_iff.1 ht
  obtain ⟨hrecipient, hown, -⟩ := (read_recipient_isOk_iff d.wellFormed_recipient).1 ⟨entry, hread⟩
  obtain ⟨R, hR⟩ := Json.Field.accepts_optionalObject_iff.1 hown
  have haccepts := (Json.Record.checkObject_eq_ok_iff_accepts (by decide) d.nodup_members).1 hcheck
  obtain ⟨U, hU⟩ := Json.Field.accepts_optionalObject_iff.1
    (haccepts (.optionalObject "unprotected") (by simp [encryptedFlattenedRecord]))
  obtain ⟨segment, hget⟩ := Json.Field.accepts_text_iff.1
    (haccepts (.text "protected") (by simp [encryptedFlattenedRecord]))
  obtain ⟨-, hsegment, hdecode, -⟩ := EncryptedToken.ofEntry_eq_ok_iff.1 hentry
  obtain ⟨bytes, hbytes, hparse, -⟩ := Header.decode_eq_ok_iff.1 hdecode
  have hprotected : textOf d.members "protected" = segment := textOf_of_get? hget
  rw [← hsegment, hprotected] at hbytes
  exact ⟨e.header.parameters, U, R,
    ⟨segment, bytes, hget, Base64Url.decode_eq_ok_iff.2 hbytes, hparse⟩, hU, hR, hrecipient⟩

/-- A JSON text that is read as an encrypted token is a document. -/
theorem exists_of_ofText {text : String} {e : EncryptedToken}
    (hopens : (Text.trim text).toList.head? = some '\x7b')
    (h : Token.ofText text = .ok (.encrypted e)) : ∃ d : EncryptedDocument, d.text = text := by
  rw [Token.ofText_eq, if_pos hopens] at h
  obtain ⟨o, hparse, ho⟩ := Token.ofJson_eq_ok_iff.1 h
  rcases Token.ofObject_eq_ok_encrypted_iff.1 ho with ⟨hunsigned, -, ho⟩ |
    ⟨hunsigned, hrecipients, hciphertext, -⟩
  · obtain ⟨hcheck, entry, hone, -⟩ := EncryptedToken.ofGeneral_eq_ok_iff.1 ho
    obtain ⟨v, hget, -⟩ := Json.Object.exists_item_of_records_eq hcheck rfl hone
    exact ⟨⟨text, o, v, hopens, hparse, hunsigned, .inl hget⟩, rfl⟩
  · have hform := And.intro hrecipients (And.intro hciphertext (Eq.refl (Value.object o)))
    exact ⟨⟨text, o, .object o, hopens, hparse, hunsigned, .inr hform⟩, rfl⟩

/-! ## Unprotected parameters anywhere -/

/-- A document is accepted only if its three headers have no name in common and none holds anything
that must be understood, and is malformed otherwise. Its token has the parameters for all recipients
and then those for the one in one header, or none if both are missing. Nothing else counts about the
unprotected headers: if they are replaced in an accepted document, it is accepted as long as the
headers remain separate. So moving parameters from one place to the other changes neither whether a
document is accepted, nor the unprotected parameters up to their order, nor what is decrypted. -/
theorem headers_anywhere :
    (∀ d : EncryptedDocument,
      ((∃ t, Token.ofText d.text = .ok t) ∨
        ∃ fault, Token.ofText d.text = .error (.malformedToken fault)) ∧
      ∀ t, Token.ofText d.text = .ok t → (∃ P U R, d.HasHeaders P U R) ∧
        ∀ P U R, d.HasHeaders P U R → Separate P (membersOf U) (membersOf R) ∧
          ∃ e, t = .encrypted e ∧ e.header = ⟨P⟩ ∧
            e.unprotected = (joined U R).map Header.mk) ∧
    (∀ (d d' : EncryptedDocument) (P : Object) (U R U' R' : Option Object),
      d.HasHeaders P U R → d'.HasHeaders P U' R' → d.AgreesOutside d' →
      (∃ t, Token.ofText d.text = .ok t) →
        ((∃ t, Token.ofText d'.text = .ok t) ↔ Separate P (membersOf U') (membersOf R'))) ∧
    ∀ (d d' : EncryptedDocument) (P : Object) (U R U' R' : Option Object),
      d.HasHeaders P U R → d'.HasHeaders P U' R' → d.AgreesOutside d' →
      (membersOf U ++ membersOf R).Perm (membersOf U' ++ membersOf R') →
      ((∃ t, Token.ofText d.text = .ok t) ↔ ∃ t, Token.ofText d'.text = .ok t) ∧
      ∀ e e', Token.ofText d.text = .ok (.encrypted e) →
        Token.ofText d'.text = .ok (.encrypted e') →
          e.unprotectedMembers.Perm e'.unprotectedMembers ∧
          ∀ key, e.decrypt key = e'.decrypt key ∧
            decryptText d.text key = decryptText d'.text key := by
  refine ⟨fun d => ⟨?_, fun t ht => ⟨exists_hasHeaders ht, fun P U R h => ?_⟩⟩, ?_, ?_⟩
  · cases ht : Token.ofText d.text with
    | ok t => exact .inl ⟨t, rfl⟩
    | error e =>
      obtain ⟨fault, rfl⟩ := Token.ofText_failsOnly d.text e ht
      exact .inr ⟨fault, rfl⟩
  · exact headers_of_ofText h ht
  · rintro d d' P U R U' R' h h' hsame ⟨t, ht⟩
    obtain ⟨-, e, rfl, -⟩ := headers_of_ofText h ht
    exact ⟨fun ⟨t', ht'⟩ => (headers_of_ofText h' ht').1,
      fun hsep => ⟨_, ofText_of_agreesOutside hsame h h' hsep ht⟩⟩
  · intro d d' P U R U' R' h h' hsame hmoved
    refine ⟨⟨isOk_of_moved hsame h h' hmoved, isOk_of_moved hsame.symm h' h hmoved.symm⟩, ?_⟩
    intro e e' he he'
    have hread := ofText_of_moved hsame h h' hmoved he
    cases he'.symm.trans hread
    obtain ⟨-, _, heq, -, hunprotected⟩ := headers_of_ofText h he
    cases heq
    refine ⟨?_, fun key => ⟨rfl, ?_⟩⟩
    · simp only [EncryptedToken.unprotectedMembers, hunprotected, Option.map_map]
      simpa [Function.comp_def, membersOf_joined] using hmoved
    · rw [decryptText, decryptText, he, hread]
      rfl

/-- A document in the flattened form, with an unprotected parameter in either place. -/
def inBoth : EncryptedDocument where
  text := "\x7b\"protected\":\"eyJhbGciOiJkaXIiLCJlbmMiOiJBMTI4R0NNIn0\"," ++
    "\"unprotected\":\x7b\"kid\":\"a\"\x7d,\"header\":\x7b\"cty\":\"b\"\x7d," ++
    "\"iv\":\"\",\"ciphertext\":\"\",\"tag\":\"\"\x7d"
  members :=
    [("protected", .string "eyJhbGciOiJkaXIiLCJlbmMiOiJBMTI4R0NNIn0"),
      ("unprotected", .object [("kid", .string "a")]), ("header", .object [("cty", .string "b")]),
      ("iv", .string ""), ("ciphertext", .string ""), ("tag", .string "")]
  recipient := .object
    [("protected", .string "eyJhbGciOiJkaXIiLCJlbmMiOiJBMTI4R0NNIn0"),
      ("unprotected", .object [("kid", .string "a")]), ("header", .object [("cty", .string "b")]),
      ("iv", .string ""), ("ciphertext", .string ""), ("tag", .string "")]
  opens := by cbv
  parsed := by cbv
  unsigned := by decide
  form := .inr ⟨by decide, by decide, rfl⟩

/-- The same in the general form, with both parameters in the one entry, which is an array. -/
def inEntry : EncryptedDocument where
  text := "\x7b\"protected\":\"eyJhbGciOiJkaXIiLCJlbmMiOiJBMTI4R0NNIn0\"," ++
    "\"recipients\":[[\x7b\"cty\":\"b\",\"kid\":\"a\"\x7d]]," ++
    "\"iv\":\"\",\"ciphertext\":\"\",\"tag\":\"\"\x7d"
  members :=
    [("protected", .string "eyJhbGciOiJkaXIiLCJlbmMiOiJBMTI4R0NNIn0"),
      ("recipients", .array [.array [.object [("cty", .string "b"), ("kid", .string "a")]]]),
      ("iv", .string ""), ("ciphertext", .string ""), ("tag", .string "")]
  recipient := .array [.object [("cty", .string "b"), ("kid", .string "a")]]
  opens := by cbv
  parsed := by cbv
  unsigned := by decide
  form := .inl (by rfl)

theorem hasHeaders_inBoth : inBoth.HasHeaders
    [("alg", .string "dir"), ("enc", .string "A128GCM")] (some [("kid", .string "a")])
    (some [("cty", .string "b")]) where
  header := ⟨_, Bytes.ofString "\x7b\"alg\":\"dir\",\"enc\":\"A128GCM\"\x7d", rfl, by cbv, by cbv⟩
  shared := .object _
  own := .object _
  recipient := .inl ⟨_, rfl⟩

theorem hasHeaders_inEntry : inEntry.HasHeaders
    [("alg", .string "dir"), ("enc", .string "A128GCM")] none
    (some [("cty", .string "b"), ("kid", .string "a")]) where
  header := ⟨_, Bytes.ofString "\x7b\"alg\":\"dir\",\"enc\":\"A128GCM\"\x7d", rfl, by cbv, by cbv⟩
  shared := .missing
  own := .object _
  recipient := .inr ⟨_, rfl, by decide⟩

theorem agreesOutside_inBoth_inEntry : inBoth.AgreesOutside inEntry where
  members := by
    simp only [List.forall_mem_cons]
    exact ⟨rfl, rfl, rfl, rfl, rfl, nofun⟩
  encryptedKey := rfl

/-- The two documents are accepted, with separate headers, and are the same to every key. -/
theorem headers_anywhere_inBoth_inEntry :
    Separate [("alg", .string "dir"), ("enc", .string "A128GCM")] [("kid", .string "a")]
        [("cty", .string "b")] ∧
      Separate [("alg", .string "dir"), ("enc", .string "A128GCM")] []
        [("cty", .string "b"), ("kid", .string "a")] ∧
      (∃ t, Token.ofText inEntry.text = .ok t) ∧
      ∀ key, decryptText inBoth.text key = decryptText inEntry.text key := by
  obtain ⟨hheaders, hreplaced, hmoved⟩ := headers_anywhere
  have hread : Token.ofText inBoth.text = .ok (.encrypted
      ⟨⟨[("alg", .string "dir"), ("enc", .string "A128GCM")]⟩,
        "eyJhbGciOiJkaXIiLCJlbmMiOiJBMTI4R0NNIn0",
        some ⟨[("kid", .string "a"), ("cty", .string "b")]⟩, [], [], [], []⟩) := by
    rw [ofText_eq]
    cbv
  obtain ⟨hseparate, -⟩ := ((hheaders inBoth).2 _ hread).2 _ _ _ hasHeaders_inBoth
  obtain ⟨haccepted, hsame⟩ := hmoved _ _ _ _ _ _ _ hasHeaders_inBoth hasHeaders_inEntry
    agreesOutside_inBoth_inEntry (List.Perm.swap _ _ [])
  obtain ⟨t, ht⟩ := haccepted.1 ⟨_, hread⟩
  obtain ⟨-, e, rfl, -⟩ := ((hheaders inEntry).2 _ ht).2 _ _ _ hasHeaders_inEntry
  have hseparate' := (hreplaced _ _ _ _ _ _ _ hasHeaders_inBoth hasHeaders_inEntry
    agreesOutside_inBoth_inEntry ⟨_, hread⟩).1 ⟨_, ht⟩
  exact ⟨hseparate, hseparate', ⟨_, ht⟩, fun key => ((hsame _ _ hread ht).2 key).2⟩

end EncryptedDocument

end WebToken
