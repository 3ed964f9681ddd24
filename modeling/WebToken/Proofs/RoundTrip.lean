import WebToken.Proofs.CompactText
import WebToken.Proofs.JsonForms

/-!
# Tokens are read as they were written

A token that can come up is written in every form, except that an unprotected header has no place
in the compact one, and what is written is read as the same token.

* `Token.round_trip` : writing in any form and reading gives the token back.
-/

namespace WebToken

open Json (Object Record Value)

/-! ## The texts of objects -/

namespace Json

/-- What stands behind the first member of an object ends in a brace. -/
theorem Value.getLast?_membersChars (ms : Object) :
    (Value.membersChars ms).getLast? = some '\x7d' := by
  induction ms with
  | nil => rfl
  | cons m ms ih =>
    obtain ⟨name, v⟩ := m
    rw [Value.membersChars, List.getLast?_append, ih]
    rfl

/-- The text of an object stands between braces. -/
theorem Value.ends_chars_object (ms : Object) :
    (Value.chars (.object ms)).head? = some '\x7b' ∧
      (Value.chars (.object ms)).getLast? = some '\x7d' := by
  cases ms with
  | nil => exact ⟨rfl, rfl⟩
  | cons m ms =>
    obtain ⟨name, v⟩ := m
    refine ⟨rfl, ?_⟩
    rw [Value.chars, List.getLast?_append, Value.getLast?_membersChars]
    rfl

/-- Nothing is trimmed from the text of an object. -/
theorem Object.trim_text (o : Object) : Text.trim o.text = o.text := by
  have hends := Value.ends_chars_object o
  -- the braces at the ends are no blanks
  apply Text.trim_eq_self
  · intro c hc
    rw [Object.text, Value.text, String.toList_ofList, hends.1] at hc
    cases hc
    decide
  · intro c hc
    rw [Object.text, Value.text, String.toList_ofList, hends.2] at hc
    cases hc
    decide

end Json

/-- The text of an object is read as that object. -/
theorem Token.ofText_text_object {o : Object} (hw : (Value.object o).WellFormed)
    (hf : (Value.object o).FloatFree) (hd : (Value.object o).depth ≤ Json.Document.maxDepth) :
    Token.ofText o.text = Token.ofObject o := by
  have hhead : o.text.toList.head? = some '\x7b' := by
    rw [Json.Object.text, Value.text, String.toList_ofList]
    exact (Value.ends_chars_object o).1
  have hparse : Json.parse (Bytes.ofString o.text) = .ok (.object o) := Json.parse_encode hw hf hd
  rw [Token.ofText_eq, Json.Object.trim_text, if_pos hhead, Token.ofJson, hparse]

/-! ## What is written -/

namespace Token

/-- The object that is written for a token in a JSON form. -/
def document? : Token → Form → Option Object
  | _, .compact => none
  | signed t, .general => some t.general
  | signed t, .flattened => some t.flattened
  | encrypted t, .general => some t.general
  | encrypted t, .flattened => some t.flattened

/-- Whether a form can hold a token so that it is read again: there is no double in its headers,
and neither the header nor the object that is written is nested too deep for a reader. -/
structure Legible (t : Token) (form : Form) : Prop where
  header : t.header.FloatFree
  depth : t.header.depth ≤ Json.Document.maxDepth
  unprotected : ∀ u, t.unprotected = some u → u.FloatFree
  document : ∀ o, t.document? form = some o →
    (Value.object o).depth ≤ Json.Document.maxDepth

end Token

/-! ### Names -/

theorem SignedToken.nodup_names_entry (t : SignedToken) : (Json.Object.names t.entry).Nodup := by
  unfold entry
  cases t.unprotected with
  | none => exact (by decide : ["protected", "signature"].Nodup)
  | some u => exact (by decide : ["protected", "header", "signature"].Nodup)

theorem SignedToken.nodup_names_flattened (t : SignedToken) :
    (Json.Object.names t.flattened).Nodup := by
  unfold flattened entry
  cases t.unprotected with
  | none => exact (by decide : ["payload", "protected", "signature"].Nodup)
  | some u => exact (by decide : ["payload", "protected", "header", "signature"].Nodup)

theorem EncryptedToken.nodup_names_entry (t : EncryptedToken) :
    (Json.Object.names t.entry).Nodup := by
  unfold entry
  split
  · exact List.nodup_nil
  · exact (by decide : ["encrypted_key"].Nodup)

theorem EncryptedToken.nodup_names_general (t : EncryptedToken) :
    (Json.Object.names t.general).Nodup := by
  unfold general headMembers
  cases t.unprotected with
  | none => exact (by decide : ["protected", "recipients", "iv", "ciphertext", "tag"].Nodup)
  | some u =>
    exact (by decide :
      ["protected", "unprotected", "recipients", "iv", "ciphertext", "tag"].Nodup)

theorem EncryptedToken.nodup_names_flattened (t : EncryptedToken) :
    (Json.Object.names t.flattened).Nodup := by
  unfold flattened headMembers entry
  split
  · cases t.unprotected with
    | none => exact (by decide : ["protected", "iv", "ciphertext", "tag"].Nodup)
    | some u => exact (by decide : ["protected", "unprotected", "iv", "ciphertext", "tag"].Nodup)
  · cases t.unprotected with
    | none => exact (by decide : ["protected", "encrypted_key", "iv", "ciphertext", "tag"].Nodup)
    | some u =>
      exact (by decide :
        ["protected", "unprotected", "encrypted_key", "iv", "ciphertext", "tag"].Nodup)

/-! ### Values -/

section All

variable {p : Value → Prop}

/-- A property that texts, lists and objects with distinct names have. -/
structure HoldsOfParts (p : Value → Prop) : Prop where
  string : ∀ s, p (.string s)
  array : ∀ vs, p (.array vs)
  object : ∀ ms, (Json.Object.names ms).Nodup → p (.object ms)

theorem HoldsOfParts.textMember (hp : HoldsOfParts p) (name text : String) :
    ∀ m ∈ textMember name text, m.2.All p :=
  List.forall_mem_singleton.2 (hp.string text)

theorem all_headerMember (name : String) {u : Option Header}
    (h : ∀ v, u = some v → (Value.object v.parameters).All p) :
    ∀ m ∈ headerMember name u, m.2.All p := by
  cases u with
  | none => exact nofun
  | some v => exact List.forall_mem_singleton.2 (h v rfl)

/-- A list of one object is such if the object is. -/
theorem HoldsOfParts.listMember (hp : HoldsOfParts p) (name : String) {o : Object}
    (ho : (Value.object o).All p) : ∀ m ∈ [(name, Value.array [.object o])], m.2.All p :=
  List.forall_mem_singleton.2 (Value.all_array.2 ⟨hp.array _, List.forall_mem_singleton.2 ho⟩)

theorem HoldsOfParts.signed (hp : HoldsOfParts p) (t : SignedToken)
    (h : ∀ u, t.unprotected = some u → (Value.object u.parameters).All p) :
    (Value.object t.general).All p ∧ (Value.object t.flattened).All p := by
  have hentry : ∀ m ∈ t.entry, m.2.All p := by
    rw [SignedToken.entry, List.forall_mem_append, List.forall_mem_append]
    exact ⟨⟨hp.textMember _ _, all_headerMember _ h⟩, hp.textMember _ _⟩
  have hobject : (Value.object t.entry).All p :=
    Value.all_object.2 ⟨hp.object _ t.nodup_names_entry, hentry⟩
  constructor
  · refine Value.all_object.2 ⟨hp.object _ (by decide : ["payload", "signatures"].Nodup), ?_⟩
    rw [SignedToken.general, List.forall_mem_append]
    exact ⟨hp.textMember _ _, hp.listMember _ hobject⟩
  · refine Value.all_object.2 ⟨hp.object _ t.nodup_names_flattened, ?_⟩
    rw [SignedToken.flattened, List.forall_mem_append]
    exact ⟨hp.textMember _ _, hentry⟩

theorem HoldsOfParts.encrypted (hp : HoldsOfParts p) (t : EncryptedToken)
    (h : ∀ u, t.unprotected = some u → (Value.object u.parameters).All p) :
    (Value.object t.general).All p ∧ (Value.object t.flattened).All p := by
  have hentry : ∀ m ∈ t.entry, m.2.All p := by
    unfold EncryptedToken.entry
    split
    · exact nofun
    · exact hp.textMember _ _
  have hobject : (Value.object t.entry).All p :=
    Value.all_object.2 ⟨hp.object _ t.nodup_names_entry, hentry⟩
  have hhead : ∀ m ∈ t.headMembers, m.2.All p := by
    rw [EncryptedToken.headMembers, List.forall_mem_append]
    exact ⟨hp.textMember _ _, all_headerMember _ h⟩
  have hcontent : ∀ m ∈ t.contentMembers, m.2.All p := by
    rw [EncryptedToken.contentMembers, List.forall_mem_append, List.forall_mem_append]
    exact ⟨⟨hp.textMember _ _, hp.textMember _ _⟩, hp.textMember _ _⟩
  constructor
  · refine Value.all_object.2 ⟨hp.object _ t.nodup_names_general, ?_⟩
    rw [EncryptedToken.general, List.forall_mem_append, List.forall_mem_append]
    exact ⟨⟨hhead, hp.listMember _ hobject⟩, hcontent⟩
  · refine Value.all_object.2 ⟨hp.object _ t.nodup_names_flattened, ?_⟩
    rw [EncryptedToken.flattened, List.forall_mem_append, List.forall_mem_append]
    exact ⟨⟨hhead, hentry⟩, hcontent⟩

/-- An object that is written for a token has the property if the unprotected header has it. -/
theorem HoldsOfParts.document (hp : HoldsOfParts p) {t : Token} {form : Form} {o : Object}
    (ho : t.document? form = some o)
    (h : ∀ u, t.unprotected = some u → (Value.object u.parameters).All p) :
    (Value.object o).All p := by
  cases t with
  | signed t =>
    cases form with
    | compact => cases ho
    | general =>
      cases ho
      exact (hp.signed t h).1
    | flattened =>
      cases ho
      exact (hp.signed t h).2
  | encrypted t =>
    cases form with
    | compact => cases ho
    | general =>
      cases ho
      exact (hp.encrypted t h).1
    | flattened =>
      cases ho
      exact (hp.encrypted t h).2

end All

theorem holdsOfParts_regular : HoldsOfParts Value.Regular :=
  ⟨fun _ => trivial, fun _ => trivial, fun _ h => h⟩

theorem holdsOfParts_floatFree : HoldsOfParts fun w => ∀ x, w ≠ .float x :=
  ⟨fun _ => nofun, fun _ => nofun, fun _ _ => nofun⟩

/-! ## Reading what is written -/

namespace Token

variable {t : Token} {form : Form}

/-- The object that is written for a token is read as the token. -/
theorem ofObject_document {o : Object} (h : t.Invariant)
    (hdecode : Header.decode t.segment = .ok t.header) (ho : t.document? form = some o) :
    ofObject o = .ok t := by
  cases t with
  | signed t =>
    cases form with
    | compact => cases ho
    | general =>
      cases ho
      exact SignedToken.ofObject_general t h hdecode
    | flattened =>
      cases ho
      exact SignedToken.ofObject_flattened t h hdecode
  | encrypted t =>
    cases form with
    | compact => cases ho
    | general =>
      cases ho
      exact EncryptedToken.ofObject_general t h hdecode
    | flattened =>
      cases ho
      exact EncryptedToken.ofObject_flattened t h hdecode

/-- The text of the object that is written for a token is read as the token. -/
theorem ofText_document {o : Object} (h : t.Invariant)
    (hdecode : Header.decode t.segment = .ok t.header)
    (hunprotected : ∀ u, t.unprotected = some u → u.FloatFree)
    (ho : t.document? form = some o) (hdepth : (Value.object o).depth ≤ Json.Document.maxDepth) :
    ofText o.text = .ok t := by
  have hw : (Value.object o).WellFormed :=
    holdsOfParts_regular.document ho fun u hu => (h.unprotected u hu).1
  have hf : (Value.object o).FloatFree := holdsOfParts_floatFree.document ho hunprotected
  rw [ofText_text_object hw hf hdepth]
  exact ofObject_document h hdecode ho

end Token

theorem refuseUnprotected_eq_ok_iff {u : Option Header} :
    refuseUnprotected u = .ok () ↔ u = none := by
  cases u with
  | none => exact ⟨fun _ => rfl, fun _ => rfl⟩
  | some v => exact ⟨nofun, nofun⟩

/-- The compact text of a signed token whose segment is encoded bytes. -/
theorem SignedToken.eq_compactText {t : SignedToken} {header : Bytes} {text : String}
    (hsegment : t.segment = Base64Url.encode header) (htext : t.compact = .ok text) :
    t.unprotected = none ∧ text = compactText [header, t.payload, t.signature] := by
  obtain ⟨_, hnone, htext⟩ := bind_eq_ok_iff.1 htext
  refine ⟨refuseUnprotected_eq_ok_iff.1 hnone, ?_⟩
  rw [← Except.ok.inj htext, hsegment]
  rfl

/-- The compact text of an encrypted token whose segment is encoded bytes. -/
theorem EncryptedToken.eq_compactText {t : EncryptedToken} {header : Bytes} {text : String}
    (hsegment : t.segment = Base64Url.encode header) (htext : t.compact = .ok text) :
    t.unprotected = none ∧
      text = compactText [header, t.encryptedKey, t.iv, t.ciphertext, t.tag] := by
  obtain ⟨_, hnone, htext⟩ := bind_eq_ok_iff.1 htext
  refine ⟨refuseUnprotected_eq_ok_iff.1 hnone, ?_⟩
  rw [← Except.ok.inj htext, hsegment]
  rfl

/-- The compact text of a signed token is read as the token. -/
theorem SignedToken.ofText_compact {t : SignedToken} {text : String}
    (h : (Token.signed t).Invariant) (hdecode : Header.decode t.segment = .ok t.header)
    (htext : t.compact = .ok text) : Token.ofText text = .ok (.signed t) := by
  obtain ⟨header, hsegment, -, -⟩ := Header.decode_eq_ok_iff.1 hdecode
  -- the segment of the header is encoded bytes too, since it was decoded
  obtain ⟨hnone, hcompact⟩ := eq_compactText hsegment htext
  rw [hcompact, Token.ofText_compactText, Token.ofCompact_eq_ok_signed_iff,
    segments_compactText (List.cons_ne_nil _ _), hsegment]
  rw [hsegment] at hdecode
  exact ⟨rfl, hdecode, hnone, h.consistent⟩

/-- The compact text of an encrypted token is read as the token. -/
theorem EncryptedToken.ofText_compact {t : EncryptedToken} {text : String}
    (h : (Token.encrypted t).Invariant) (hdecode : Header.decode t.segment = .ok t.header)
    (htext : t.compact = .ok text) : Token.ofText text = .ok (.encrypted t) := by
  obtain ⟨header, hsegment, -, -⟩ := Header.decode_eq_ok_iff.1 hdecode
  obtain ⟨hnone, hcompact⟩ := eq_compactText hsegment htext
  rw [hcompact, Token.ofText_compactText, Token.ofCompact_eq_ok_encrypted_iff,
    segments_compactText (List.cons_ne_nil _ _), hsegment]
  rw [hsegment] at hdecode
  exact ⟨rfl, hdecode, hnone, h.consistent⟩

namespace Token

/-- Only the compact form has no place for an unprotected header. -/
theorem text_eq_error {t : Token} (h : t.unprotected.isSome = true) :
    t.text .compact = .error (.unsupportedOperation .unprotectedInCompact) := by
  have hrefused : refuseUnprotected t.unprotected =
      .error (.unsupportedOperation .unprotectedInCompact) := by
    rw [refuseUnprotected, if_pos h]
  cases t with
  | signed t =>
    show (refuseUnprotected (signed t).unprotected >>= fun _ => _) = _
    rw [hrefused]
    rfl
  | encrypted t =>
    show (refuseUnprotected (encrypted t).unprotected >>= fun _ => _) = _
    rw [hrefused]
    rfl

/-- In a JSON form an object is written. -/
theorem exists_document {t : Token} {form : Form} (h : form ≠ .compact) :
    ∃ o, t.document? form = some o := by
  cases form with
  | compact => exact absurd rfl h
  | general => cases t <;> exact ⟨_, rfl⟩
  | flattened => cases t <;> exact ⟨_, rfl⟩

theorem text_of_document? {t : Token} {form : Form} {o : Object} (h : t.document? form = some o) :
    t.text form = .ok o.text := by
  unfold document? at h
  split at h
  · cases h
  all_goals
    rw [← Option.some.inj h]
    rfl

/-- A token is written in every other case. -/
theorem exists_text {t : Token} {form : Form}
    (h : ¬(form = .compact ∧ t.unprotected.isSome = true)) : ∃ text, t.text form = .ok text := by
  by_cases hform : form = .compact
  · subst hform
    have hnone : t.unprotected = none := by
      apply Option.not_isSome_iff_eq_none.1
      exact fun hsome => h ⟨rfl, hsome⟩
    -- without an unprotected header nothing is refused
    have hallowed := refuseUnprotected_eq_ok_iff.2 hnone
    cases t with
    | signed t =>
      show ∃ text, (refuseUnprotected (signed t).unprotected >>= fun _ => _) = .ok text
      rw [hallowed]
      exact ⟨_, rfl⟩
    | encrypted t =>
      show ∃ text, (refuseUnprotected (encrypted t).unprotected >>= fun _ => _) = .ok text
      rw [hallowed]
      exact ⟨_, rfl⟩
  · obtain ⟨o, ho⟩ := exists_document (t := t) hform
    exact ⟨o.text, text_of_document? ho⟩

variable {t : Token} {form : Form}

/-- What is written for a token is read as the token, if its header is that of its segment. -/
theorem ofText_of_decode {text : String} (h : t.Invariant)
    (hdecode : Header.decode t.segment = .ok t.header)
    (hunprotected : ∀ u, t.unprotected = some u → u.FloatFree)
    (hdepth : ∀ o, t.document? form = some o → (Value.object o).depth ≤ Json.Document.maxDepth)
    (htext : t.text form = .ok text) : ofText text = .ok t := by
  by_cases hform : form = .compact
  · subst hform
    cases t with
    | signed t => exact SignedToken.ofText_compact h hdecode htext
    | encrypted t => exact EncryptedToken.ofText_compact h hdecode htext
  · obtain ⟨o, ho⟩ := exists_document (t := t) hform
    have hwritten := text_of_document? ho
    rw [htext, Except.ok.injEq] at hwritten
    rw [hwritten]
    exact ofText_document h hdecode hunprotected ho (hdepth o ho)

/-- What is written for a token is read as the token. -/
theorem ofText_of_text {text : String} (h : t.Invariant) (hl : t.Legible form)
    (htext : t.text form = .ok text) : ofText text = .ok t :=
  ofText_of_decode h (h.decodes hl.header hl.depth) hl.unprotected hl.document htext

/-! ### Tokens just made -/

/-- The token with the header that the text of its header denotes. -/
def reread : Token → Token
  | signed t => signed { t with header := t.header.reread }
  | encrypted t => encrypted { t with header := t.header.reread }

/-- The header itself is not written, but the text of it that the token keeps. -/
theorem text_reread (t : Token) (form : Form) : t.reread.text form = t.text form := by
  cases t <;> cases form <;> rfl

/-- Without an unprotected header nothing is nested deep. -/
theorem depth_document_le {o : Object} (hnone : t.unprotected = none)
    (ho : t.document? form = some o) : (Value.object o).depth ≤ 3 := by
  cases t with
  | signed t =>
    obtain ⟨header, segment, unprotected, payload, signature⟩ := t
    cases hnone
    cases form <;> cases ho <;> exact Nat.le_of_ble_eq_true rfl
  | encrypted t =>
    obtain ⟨header, segment, unprotected, encryptedKey, iv, ciphertext, tag⟩ := t
    cases hnone
    cases form with
    | compact => cases ho
    | general =>
      cases ho
      unfold EncryptedToken.general EncryptedToken.entry
      split <;> exact Nat.le_of_ble_eq_true rfl
    | flattened =>
      cases ho
      unfold EncryptedToken.flattened EncryptedToken.entry
      split <;> exact Nat.le_of_ble_eq_true rfl

/-- Nothing is read from the object that is written for a signed token whose protected header cannot
be decoded. -/
theorem ofObject_document_error {t : SignedToken} {o : Object} {e : Error}
    (hdecode : Header.decode t.segment = .error e) (ho : (signed t).document? form = some o) :
    ofObject o = .error e := by
  cases form with
  | compact => cases ho
  | general =>
    cases ho
    have hprotected : textOf t.entry "protected" = t.segment := rfl
    rw [SignedToken.ofObject_general_eq, t.ofEntry_of_decode_error _ hprotected hdecode]
    rfl
  | flattened =>
    cases ho
    have hprotected : textOf t.flattened "protected" = t.segment := rfl
    rw [SignedToken.ofObject_flattened_eq, t.ofEntry_of_decode_error _ hprotected hdecode]
    rfl

/-- A signed token just made whose protected header cannot be decoded is written in every form, and
read in none. -/
theorem ofText_of_decode_error {t : SignedToken} {header : Bytes} {e : Error}
    (hnone : t.unprotected = none) (hsegment : t.segment = Base64Url.encode header)
    (hdecode : Header.decode t.segment = .error e) (form : Form) :
    ∃ text, (signed t).text form = .ok text ∧ ofText text = .error e := by
  have hform : ¬(form = .compact ∧ (signed t).unprotected.isSome = true) := by
    show ¬(form = .compact ∧ t.unprotected.isSome = true)
    rw [hnone]
    exact nofun
  obtain ⟨text, htext⟩ := exists_text hform
  refine ⟨text, htext, ?_⟩
  by_cases hcompact : form = .compact
  · subst hcompact
    obtain ⟨-, rfl⟩ := SignedToken.eq_compactText hsegment htext
    rw [ofText_compactText, ofCompact, segments_compactText (List.cons_ne_nil _ _)]
    rw [hsegment] at hdecode
    simp only [List.map_cons, List.map_nil, hdecode, bind, Except.bind]
  · obtain ⟨o, ho⟩ := exists_document (t := signed t) hcompact
    rw [text_of_document? ho, Except.ok.injEq] at htext
    have hunprotected : ∀ {p : Header → Prop} (u : Header), (signed t).unprotected = some u → p u := by
      intro p u hu
      cases hnone.symm.trans hu
    have hw : (Value.object o).WellFormed := holdsOfParts_regular.document ho hunprotected
    have hf : (Value.object o).FloatFree := holdsOfParts_floatFree.document ho hunprotected
    have hdepth : (Value.object o).depth ≤ Json.Document.maxDepth :=
      le_trans (depth_document_le (t := signed t) hnone ho) (by decide)
    rw [← htext, ofText_text_object hw hf hdepth]
    exact ofObject_document_error hdecode ho

/-- A token just made is written in every form, and read with the header that the text of its header
denotes. -/
theorem ofText_reread (hconsistent : t.reread.Consistent) (hnone : t.unprotected = none)
    (hdecode : Header.decode t.segment = .ok t.header.reread) (form : Form) :
    ∃ text, t.text form = .ok text ∧ ofText text = .ok t.reread := by
  have hunprotected : t.reread.unprotected = none := by
    rw [← hnone]
    cases t <;> rfl
  have hinvariant : t.reread.Invariant := by
    refine ⟨hconsistent, ?_, fun _ _ => ?_, fun u hu => ?_⟩
    · cases t <;> exact Header.notCritical_of_decode hdecode
    · cases t <;> exact hdecode
    · rw [hunprotected] at hu
      cases hu
  have hform : ¬(form = .compact ∧ t.unprotected.isSome = true) := by
    rw [hnone]
    exact nofun
  obtain ⟨text, htext⟩ := exists_text hform
  have hreread : t.reread.text form = .ok text := (text_reread t form).trans htext
  refine ⟨text, htext, ofText_of_decode hinvariant ?_ ?_ ?_ hreread⟩
  · cases t <;> exact hdecode
  · intro u hu
    rw [hunprotected] at hu
    cases hu
  · intro o ho
    exact le_trans (depth_document_le hunprotected ho) (by decide)

/-- Texts of one token are verified and decrypted alike. -/
theorem opened_alike {s s' : String} (h : ofText s = .ok t) (h' : ofText s' = .ok t) (key : Key) :
    verifyText s key = verifyText s' key ∧ decryptText s key = decryptText s' key := by
  unfold verifyText decryptText
  rw [h, h']
  exact ⟨rfl, rfl⟩

/-- A token that can come up is written in every form, except that one with an unprotected header
is not written in the compact form. Reading what was written gives the token back with all its
parts, if it is legible; so a text that is written anew in another form is verified and decrypted
as before, under every key. -/
theorem round_trip {t : Token} (h : t.Reachable) (form : Form) :
    (form = .compact ∧ t.unprotected.isSome = true →
      t.text form = .error (.unsupportedOperation .unprotectedInCompact)) ∧
    (¬(form = .compact ∧ t.unprotected.isSome = true) →
      ∃ text, t.text form = .ok text ∧
        (t.Legible form → ofText text = .ok t ∧
          ∀ s key, ofText s = .ok t →
            verifyText text key = verifyText s key ∧
            decryptText text key = decryptText s key)) := by
  constructor
  · rintro ⟨rfl, hsome⟩
    exact text_eq_error hsome
  · intro hform
    obtain ⟨text, htext⟩ := exists_text hform
    refine ⟨text, htext, fun hl => ?_⟩
    have hread := ofText_of_text h.invariant hl htext
    exact ⟨hread, fun s key hs => opened_alike hread hs key⟩

/-- A token of a shared secret that is the content key, with an empty ciphertext and no tag. -/
def emptyToken (unprotected : Option Header) : Token :=
  .encrypted ⟨.encrypted .direct .a128Gcm, "eyJhbGciOiJkaXIiLCJlbmMiOiJBMTI4R0NNIn0", unprotected,
    [], [], [], []⟩

/-- The token in its compact form. -/
def emptyCompact : String := "eyJhbGciOiJkaXIiLCJlbmMiOiJBMTI4R0NNIn0...."

theorem legible_emptyToken : (emptyToken none).Legible .general where
  header := ⟨nofun, nofun, nofun, trivial⟩
  depth := by decide
  unprotected := nofun
  document := by
    intro o ho
    cases ho
    decide

/-- The token is transcoded from the compact form to the general one. With an unprotected header it
cannot be written in the compact form. -/
theorem round_trip_emptyToken :
    ofText emptyCompact = .ok (emptyToken none) ∧
    (∃ text, (emptyToken none).text .general = .ok text ∧ ofText text = .ok (emptyToken none) ∧
      ∀ key, verifyText text key = verifyText emptyCompact key ∧
        decryptText text key = decryptText emptyCompact key) ∧
    (emptyToken (some (Header.empty.withKid "a"))).text .compact =
      .error (.unsupportedOperation .unprotectedInCompact) := by
  have hread : ofText emptyCompact = .ok (emptyToken none) := by cbv
  have hreach : (emptyToken none).Reachable := .read hread
  have hkid : (Header.empty.withKid "a").WellFormed :=
    ⟨(by decide : ["kid"].Nodup), trivial, trivial⟩
  have hattached : (emptyToken (some (Header.empty.withKid "a"))).Reachable :=
    .attached hreach hkid rfl
  have hform : ¬(Form.general = .compact ∧ (emptyToken none).unprotected.isSome = true) := by
    decide
  obtain ⟨text, htext, hlegible⟩ := (round_trip hreach .general).2 hform
  obtain ⟨hback, halike⟩ := hlegible legible_emptyToken
  exact ⟨hread, ⟨text, htext, hback, fun key => halike _ key hread⟩,
    (round_trip hattached .compact).1 ⟨rfl, rfl⟩⟩

end Token

end WebToken
