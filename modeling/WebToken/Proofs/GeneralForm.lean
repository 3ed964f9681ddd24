import WebToken.Proofs.Json.Documents
import WebToken.Proofs.UnprotectedHeaders
import WebToken.Proofs.Utf8

/-!
# The general and the flattened form

In the general form a token is an object with a list of one entry. In the flattened form the members
of the entry stand in place of the list. An entry is an object of which only these members count, or
an array of their values in order; the flattened form has no such array.

* `JsonDocument.ofText_eq` : a JSON text is read as the object that it denotes;
* `GeneralForm.ofObject_iff_of_flattens` : a list of one entry is read as the members in its place;
* `GeneralForm.read_as_flattened` : all tokens in the general form.
-/

namespace WebToken

open Json (Object Record Field Value)

/-! ## Texts of objects -/

/-- A trimmed text of an object begins with a brace: what is blank in JSON is blank everywhere. -/
theorem Text.head?_trim_of_parse {text : String} {o : Object}
    (h : Json.parse (Bytes.ofString (trim text)) = .ok (.object o)) :
    (trim text).toList.head? = some '\x7b' := by
  obtain ⟨d, ⟨left, hread, -⟩, hvalue⟩ := Json.parse_eq_ok_iff.1 h
  obtain ⟨members, _, rfl, -⟩ := Json.Document.value_eq_object_iff.1 hvalue
  obtain ⟨rest, hskip⟩ := Json.Document.exists_of_read_object hread
  rw [Bytes.ofString_eq_utf8, Json.Document.skipBlanks] at hskip
  cases hchars : (trim text).toList with
  | nil =>
    rw [hchars] at hskip
    cases hskip
  | cons c cs =>
    have htrim : trimChars text.toList = c :: cs := by
      rw [← hchars, trim, String.toList_ofList]
    have hblank := isBlank_head_trimChars htrim
    rw [hchars, Bytes.utf8_cons] at hskip
    obtain ⟨b, bs, hbytes⟩ := List.exists_cons_of_ne_nil (String.utf8EncodeChar_ne_nil (c := c))
    -- the first byte is the character itself, or lies above all that is told apart here
    have hb : b.toNat = c.toNat ∨ 128 ≤ b.toNat :=
      Bytes.eq_or_le_of_mem_utf8EncodeChar (hbytes ▸ List.mem_cons_self)
    have hnot : Json.Document.isBlank b = false := by
      rw [← Bool.not_eq_true]
      intro hbyte
      simp only [Json.Document.isBlank, Bool.or_eq_true, decide_eq_true_eq] at hbyte
      have hchar : c.toNat = 0x20 ∨ c.toNat = 0x09 ∨ c.toNat = 0x0A ∨ c.toNat = 0x0D := by
        rcases hbyte with ((rfl | rfl) | rfl) | rfl <;> simp at hb <;> omega
      rw [isBlank, blankRanges] at hblank
      simp at hblank
      omega
    rw [hbytes, List.cons_append, List.dropWhile_cons, hnot] at hskip
    cases hskip
    have hchar : c.toNat = 0x7B := by
      rcases hb with hb | hb
      · exact hb.symm
      · exact absurd hb (by decide)
    exact congrArg some (Char.ext (UInt32.toNat_inj.1 hchar))

/-- A JSON text that denotes an object. -/
structure JsonDocument where
  text : String
  members : Object
  parsed : Json.parse (Bytes.ofString (Text.trim text)) = .ok (.object members)

namespace JsonDocument

variable (d : JsonDocument)

theorem nodup_members : d.members.names.Nodup :=
  (Value.all_object.1 (Value.wellFormed_of_parse d.parsed)).1

theorem wellFormed_of_get? {name : String} {v : Value} (h : d.members.get? name = some v) :
    v.WellFormed :=
  (Value.all_object.1 (Value.wellFormed_of_parse d.parsed)).2 _ (Json.Object.mem_of_get? h)

/-- A JSON text is read as the object that it denotes. -/
theorem ofText_eq : Token.ofText d.text = Token.ofObject d.members := by
  rw [Token.ofText_eq, if_pos (Text.head?_trim_of_parse d.parsed), Token.ofJson, d.parsed]

end JsonDocument

/-! ## Members in place of a list -/

/-- The tokens that have a general form. -/
inductive GeneralForm where
  | signed
  | encrypted
  deriving DecidableEq

namespace GeneralForm

/-- The member that holds the list. -/
def list : GeneralForm → String
  | signed => "signatures"
  | encrypted => "recipients"

/-- An entry of the list. -/
def entryRecord : GeneralForm → Record
  | signed => signatureRecord
  | encrypted => recipientRecord

/-- What stands beside the list. -/
def restRecord : GeneralForm → Record
  | signed => signedFlattenedRecord
  | encrypted => encryptedFlattenedRecord

/-- Whether an object has the list, and no other members than those that may stand beside it. -/
def IsFormOf (g : GeneralForm) (o : Object) : Prop :=
  g.list ∈ o.names ∧ o.names ⊆ g.list :: g.restRecord.names

/-- The object with the members of an entry in place of the list. -/
def flatten (g : GeneralForm) (o entry : Object) : Object := o.erase g.list ++ entry

/-- Whether an object holds what another holds beside its list, the members of an entry, and nothing
else. -/
structure Flattens (g : GeneralForm) (o entry flat : Object) : Prop where
  nodup : flat.names.Nodup
  rest : ∀ name ∈ g.restRecord.names, flat.get? name = o.get? name
  entry : ∀ name ∈ g.entryRecord.names, flat.get? name = entry.get? name
  only : flat.names ⊆ g.restRecord.names ++ g.entryRecord.names

variable {g : GeneralForm} {o entry flat : Object} {v : Value}

theorem nodup_entry_names (g : GeneralForm) : g.entryRecord.names.Nodup := by cases g <;> decide

theorem nodup_rest_names (g : GeneralForm) : g.restRecord.names.Nodup := by cases g <;> decide

theorem rest_notMem_entry (g : GeneralForm) :
    ∀ name ∈ g.restRecord.names, name ∉ g.entryRecord.names := by
  cases g <;> decide

theorem list_notMem_rest (g : GeneralForm) : g.list ∉ g.restRecord.names := by
  cases g <;> decide

/-- An object in which the members of an entry stand in place of the list, in any order. -/
theorem flattens_of_perm (ho : o.names.Nodup) (hform : g.IsFormOf o) (hv : v.WellFormed)
    (hentry : g.entryRecord.Spells v entry) (hflat : flat.Perm (g.flatten o entry)) :
    g.Flattens o entry flat := by
  have hrest : (o.erase g.list).names ⊆ g.restRecord.names := by
    intro name hname
    obtain ⟨m, hm, rfl⟩ := List.mem_map.1 hname
    have hmem := hform.2 (List.mem_map_of_mem (List.mem_of_mem_filter hm))
    exact (List.mem_cons.1 hmem).resolve_left (bne_iff_ne.1 (List.mem_filter.1 hm).2)
  have hnodup : (g.flatten o entry).names.Nodup := by
    apply Json.Object.nodup_names_append
    · exact ho.sublist (List.filter_sublist.map _)
    · exact hentry.nodup_names g.nodup_entry_names hv
    · exact fun name hname hmem =>
        g.rest_notMem_entry name (hrest hmem) (hentry.names_subset hname)
  have hflatNodup : flat.names.Nodup := (hflat.map _).nodup_iff.2 hnodup
  refine ⟨hflatNodup, fun name hname => ?_, fun name hname => ?_, fun name hname => ?_⟩
  · -- the entry has no such member
    have hnone : entry.get? name = none := Json.Object.get?_eq_none_iff.2 fun hmem =>
      g.rest_notMem_entry name hname (hentry.names_subset hmem)
    have hne : name ≠ g.list := fun heq => g.list_notMem_rest (heq ▸ hname)
    rw [Json.Object.get?_of_perm hflat hflatNodup, flatten, Json.Object.get?_append,
      Json.Object.get?_erase_of_ne hne, hnone, Option.or_none]
  · -- nothing beside the list has such a name
    have hnone : (o.erase g.list).get? name = none := Json.Object.get?_eq_none_iff.2 fun hmem =>
      g.rest_notMem_entry name (hrest hmem) hname
    rw [Json.Object.get?_of_perm hflat hflatNodup, flatten, Json.Object.get?_append, hnone,
      Option.none_or]
  · have hmem : name ∈ (g.flatten o entry).names := (hflat.map _).mem_iff.1 hname
    rw [flatten, Json.Object.names, List.map_append, List.mem_append] at hmem
    exact List.mem_append.2 (hmem.imp (fun h => hrest h) fun h => hentry.names_subset h)

/-! ## What the two forms hold -/

/-- The list is read if the members in its place are accepted. -/
theorem read_isOk_iff_flat (g : GeneralForm) (hv : v.WellFormed) (hentry : g.entryRecord.Spells v entry)
    (h : g.Flattens o entry flat) :
    (∃ e, g.entryRecord.read v = .ok e) ↔ g.entryRecord.checkObject flat = .ok () := by
  rw [hentry.read_isOk_iff g.nodup_entry_names]
  exact Record.checkObject_congr g.nodup_entry_names (hentry.nodup_names g.nodup_entry_names hv) h.nodup
    fun name hname => (h.entry name hname).symm

/-- If every entry that is read makes what the members in its place make, the list makes it as they
do. -/
theorem read_entry_iff {α : Type} (g : GeneralForm) (hv : v.WellFormed)
    (hentry : g.entryRecord.Spells v entry) (h : g.Flattens o entry flat)
    {ofEntry : Object → Except Error α} {made : Except Error α} {a : α} {accepted : Prop}
    (hmade : ∀ e, g.entryRecord.read v = .ok e → ofEntry e = made) :
    ((accepted ∧ ∃ e, g.entryRecord.read v = .ok e) ∧
        ∃ e, g.entryRecord.read v = .ok e ∧ ofEntry e = .ok a) ↔
      accepted ∧ g.entryRecord.checkObject flat = .ok () ∧ made = .ok a := by
  rw [← g.read_isOk_iff_flat hv hentry h, and_assoc]
  refine and_congr_right fun _ => and_congr_right fun hread => ?_
  constructor
  · intro ha
    rcases ha with ⟨e, he, ha⟩
    exact (hmade e he).symm.trans ha
  · intro ha
    obtain ⟨e, he⟩ := hread
    exact ⟨e, he, (hmade e he).trans ha⟩

/-- What is read of the entry is what stands in its place. -/
theorem get?_of_read_entry (g : GeneralForm) (hentry : g.entryRecord.Spells v entry)
    (h : g.Flattens o entry flat) {e : Object} (hread : g.entryRecord.read v = .ok e)
    {name : String} (hname : name ∈ g.entryRecord.names) : e.get? name = flat.get? name := by
  rw [hentry.get?_of_read hread hname, h.entry name hname]

end GeneralForm

theorem SignedToken.ofEntry_congr {payload : String} {entry entry' : Object}
    (h : ∀ name ∈ signatureRecord.names, entry.get? name = entry'.get? name) :
    ofEntry payload entry = ofEntry payload entry' := by
  have hprotected := Json.Object.text?_congr (h "protected" (by decide))
  have hheader := Json.Object.object?_congr (h "header" (by decide))
  have hsignature := Json.Object.text?_congr (h "signature" (by decide))
  simp only [ofEntry, bytesOf, textOf, hprotected, hheader, hsignature]

theorem EncryptedToken.ofEntry_congr {members members' entry entry' : Object}
    (hmembers : ∀ name ∈ encryptedFlattenedRecord.names, members.get? name = members'.get? name)
    (hentry : ∀ name ∈ recipientRecord.names, entry.get? name = entry'.get? name) :
    ofEntry members entry = ofEntry members' entry' := by
  have haad := Json.Object.text?_congr (hmembers "aad" (by decide))
  have hprotected := Json.Object.text?_congr (hmembers "protected" (by decide))
  have hunprotected := Json.Object.object?_congr (hmembers "unprotected" (by decide))
  have hheader := Json.Object.object?_congr (hentry "header" (by decide))
  have hkey := Json.Object.text?_congr (hentry "encrypted_key" (by decide))
  have hiv := Json.Object.text?_congr (hmembers "iv" (by decide))
  have hciphertext := Json.Object.text?_congr (hmembers "ciphertext" (by decide))
  have htag := Json.Object.text?_congr (hmembers "tag" (by decide))
  rw [ofEntry, ofEntry, haad]
  simp only [bytesOf, textOf, hprotected, hunprotected, hheader, hkey, hiv, hciphertext, htag]

namespace GeneralForm

variable {o entry flat : Object} {v : Value}

/-- The general form of a signed token holds what the flattened form does beside the signature. -/
theorem checkObject_signed_iff (ho : o.names.Nodup)
    (hget : o.get? "signatures" = some (.array [v])) :
    signedGeneralRecord.checkObject o = .ok () ↔
      signedFlattenedRecord.checkObject o = .ok () ∧
        ∃ entry, signatureRecord.read v = .ok entry := by
  rw [Json.Record.checkObject_eq_ok_iff_accepts (by decide) ho,
    Json.Record.checkObject_eq_ok_iff_accepts (by decide) ho,
    ← Json.Field.check_list_singleton_iff "signatures"]
  have haccepts : (Field.list "signatures" signatureRecord).Accepts (o.get? "signatures") ↔
      (Field.list "signatures" signatureRecord).check (.array [v]) = .ok () := by
    rw [hget]
    rfl
  simp only [signedGeneralRecord, signedFlattenedRecord, List.forall_mem_cons, ← haccepts]
  tauto

/-- A signed token is read of the list as it is of the members in its place. -/
theorem ofGeneral_signed_iff {t : SignedToken} (ho : o.names.Nodup)
    (hget : o.get? "signatures" = some (.array [v])) (hv : v.WellFormed)
    (hentry : signatureRecord.Spells v entry) (hflat : signed.Flattens o entry flat) :
    SignedToken.ofGeneral o = .ok t ↔ SignedToken.ofFlattened flat = .ok t := by
  have hrest : signedFlattenedRecord.checkObject flat = .ok () ↔
      signedFlattenedRecord.checkObject o = .ok () :=
    Record.checkObject_congr signed.nodup_rest_names hflat.nodup ho hflat.rest
  have htoken : ∀ e, signatureRecord.read v = .ok e →
      SignedToken.ofEntry (textOf o "payload") e = SignedToken.ofEntry (textOf flat "payload") flat := by
    intro e he
    rw [SignedToken.ofEntry_congr fun name hname => signed.get?_of_read_entry hentry hflat he hname]
    rw [textOf, textOf, Json.Object.text?_congr (hflat.rest "payload" (by decide))]
  rw [SignedToken.ofGeneral_eq_ok_iff, SignedToken.ofFlattened_eq_ok_iff, hrest,
    checkObject_signed_iff ho hget]
  simp only [Json.Object.records_eq_singleton_iff hget]
  exact signed.read_entry_iff hv hentry hflat htoken

/-- An encrypted token is read of the list as it is of the members in its place. -/
theorem ofGeneral_encrypted_iff {t : EncryptedToken} (ho : o.names.Nodup)
    (hget : o.get? "recipients" = some (.array [v])) (hv : v.WellFormed)
    (hentry : recipientRecord.Spells v entry) (hflat : encrypted.Flattens o entry flat) :
    EncryptedToken.ofGeneral o = .ok t ↔ EncryptedToken.ofFlattened flat = .ok t := by
  have hrest : encryptedFlattenedRecord.checkObject flat = .ok () ↔
      encryptedFlattenedRecord.checkObject o = .ok () :=
    Record.checkObject_congr encrypted.nodup_rest_names hflat.nodup ho hflat.rest
  have htoken : ∀ e, recipientRecord.read v = .ok e →
      EncryptedToken.ofEntry o e = EncryptedToken.ofEntry flat flat := by
    intro e he
    exact EncryptedToken.ofEntry_congr (fun name hname => (hflat.rest name hname).symm)
      fun name hname => encrypted.get?_of_read_entry hentry hflat he hname
  rw [EncryptedToken.ofGeneral_eq_ok_iff, EncryptedToken.ofFlattened_eq_ok_iff, hrest,
    EncryptedDocument.checkObject_general_iff ho hget]
  simp only [Json.Object.records_eq_singleton_iff hget]
  exact encrypted.read_entry_iff hv hentry hflat htoken

/-! ## What the names of members tell -/

theorem ofObject_signed_iff {t : Token} (hform : signed.IsFormOf o) :
    Token.ofObject o = .ok t ↔ ∃ s, SignedToken.ofGeneral o = .ok s ∧ .signed s = t := by
  have hlist : o.contains "signatures" = true := Json.Object.contains_iff.2 hform.1
  rw [Token.ofObject, if_pos hlist, map_eq_ok_iff]

theorem ofObject_encrypted_iff {t : Token} (hform : encrypted.IsFormOf o) :
    Token.ofObject o = .ok t ↔ ∃ e, EncryptedToken.ofGeneral o = .ok e ∧ .encrypted e = t := by
  have hlist : o.contains "recipients" = true := Json.Object.contains_iff.2 hform.1
  -- the list of a signed token may not stand beside that of an encrypted one
  have hsigned : ¬o.contains "signatures" = true := by
    rw [Json.Object.contains_iff]
    intro hmem
    exact absurd (hform.2 hmem) (by decide)
  rw [Token.ofObject, if_neg hsigned, if_pos hlist, map_eq_ok_iff]

theorem Flattens.not_contains {g : GeneralForm} (h : g.Flattens o entry flat) {name : String}
    (hname : name ∉ g.restRecord.names ++ g.entryRecord.names) : ¬flat.contains name = true := by
  rw [Json.Object.contains_iff]
  intro hmem
  exact hname (h.only hmem)

/-- What is accepted has all members that it must have. -/
theorem contains_of_checkObject {r : Record} {f : Field} (h : r.checkObject o = .ok ())
    (hf : f ∈ r.fields) (hrequired : f.presence = .required) : o.contains f.name = true :=
  Json.Object.contains_iff.2 ((Record.checkObject_eq_ok_iff.1 h).2 f hf hrequired)

theorem ofObject_flat_signed_iff {t : Token} (hflat : signed.Flattens o entry flat) :
    Token.ofObject flat = .ok t ↔ ∃ s, SignedToken.ofFlattened flat = .ok s ∧ .signed s = t := by
  rw [Token.ofObject, if_neg (hflat.not_contains (by decide)),
    if_neg (hflat.not_contains (by decide)), if_neg (hflat.not_contains (by decide))]
  by_cases hpayload : flat.contains "payload" = true
  · rw [if_pos hpayload, map_eq_ok_iff]
  · rw [if_neg hpayload]
    constructor
    · intro h
      cases h
    · -- without a payload it is not taken for a token at all, and not accepted for a signed one
      intro h
      rcases h with ⟨s, hs, _⟩
      obtain ⟨hcheck, -⟩ := SignedToken.ofFlattened_eq_ok_iff.1 hs
      refine absurd (contains_of_checkObject (f := .text "payload") hcheck ?_ rfl) hpayload
      simp [signedFlattenedRecord]

theorem ofObject_flat_encrypted_iff {t : Token} (hflat : encrypted.Flattens o entry flat) :
    Token.ofObject flat = .ok t ↔
      ∃ e, EncryptedToken.ofFlattened flat = .ok e ∧ .encrypted e = t := by
  rw [Token.ofObject, if_neg (hflat.not_contains (by decide)),
    if_neg (hflat.not_contains (by decide))]
  by_cases hciphertext : flat.contains "ciphertext" = true
  · rw [if_pos hciphertext, map_eq_ok_iff]
  · rw [if_neg hciphertext, if_neg (hflat.not_contains (by decide))]
    constructor
    · intro h
      cases h
    · intro h
      rcases h with ⟨e, he, _⟩
      obtain ⟨hcheck, -⟩ := EncryptedToken.ofFlattened_eq_ok_iff.1 he
      refine absurd (contains_of_checkObject (f := .text "ciphertext") hcheck ?_ rfl) hciphertext
      simp [encryptedFlattenedRecord]

/-! ## Both forms -/

variable {g : GeneralForm} {t : Token}

/-- A list of one entry is read as the members in its place. -/
theorem ofObject_iff_of_flattens (ho : o.names.Nodup) (hform : g.IsFormOf o)
    (hget : o.get? g.list = some (.array [v])) (hv : v.WellFormed)
    (hentry : g.entryRecord.Spells v entry) (hflat : g.Flattens o entry flat) :
    Token.ofObject o = .ok t ↔ Token.ofObject flat = .ok t := by
  cases g with
  | signed =>
    rw [ofObject_signed_iff hform, ofObject_flat_signed_iff hflat]
    exact exists_congr fun s => and_congr_left fun _ =>
      ofGeneral_signed_iff ho hget hv hentry hflat
  | encrypted =>
    rw [ofObject_encrypted_iff hform, ofObject_flat_encrypted_iff hflat]
    exact exists_congr fun e => and_congr_left fun _ =>
      ofGeneral_encrypted_iff ho hget hv hentry hflat

/-- What is read as a token in the general form has a list of one entry. -/
theorem exists_entry_of_ofObject (hform : g.IsFormOf o) (h : Token.ofObject o = .ok t) :
    ∃ v entry, o.get? g.list = some (.array [v]) ∧ g.entryRecord.Spells v entry := by
  have hread : ∃ v e, o.get? g.list = some (.array [v]) ∧ g.entryRecord.read v = .ok e := by
    cases g with
    | signed =>
      obtain ⟨s, hs, -⟩ := (ofObject_signed_iff hform).1 h
      obtain ⟨hcheck, e, hone, -⟩ := SignedToken.ofGeneral_eq_ok_iff.1 hs
      obtain ⟨v, hget, hread⟩ := Json.Object.exists_item_of_records_eq hcheck rfl hone
      exact ⟨v, e, hget, hread⟩
    | encrypted =>
      obtain ⟨s, hs, -⟩ := (ofObject_encrypted_iff hform).1 h
      obtain ⟨hcheck, e, hone, -⟩ := EncryptedToken.ofGeneral_eq_ok_iff.1 hs
      obtain ⟨v, hget, hread⟩ := Json.Object.exists_item_of_records_eq hcheck rfl hone
      exact ⟨v, e, hget, hread⟩
  obtain ⟨v, e, hget, hread⟩ := hread
  obtain ⟨entry, hentry⟩ := Record.exists_spells_of_read hread
  exact ⟨v, entry, hget, hentry⟩

/-- A text with a list of one entry is read as the members in its place, in whatever order they
stand. -/
theorem ofText_iff_of_perm (d : JsonDocument) (hform : g.IsFormOf d.members)
    (hget : d.members.get? g.list = some (.array [v])) (hentry : g.entryRecord.Spells v entry)
    (hflat : flat.Perm (g.flatten d.members entry)) :
    Token.ofText d.text = .ok t ↔ Token.ofObject flat = .ok t := by
  have hv : v.WellFormed :=
    (Value.all_array.1 (d.wellFormed_of_get? hget)).2 v (List.mem_singleton_self v)
  rw [d.ofText_eq]
  apply ofObject_iff_of_flattens d.nodup_members hform hget hv hentry
  exact flattens_of_perm d.nodup_members hform hv hentry hflat

/-- A JSON text of an object with a list, and no other members than those that may stand beside it,
is a token exactly if the list has one entry and the object with the members of the entry in place
of the list is the token, in whatever order they stand and however that object is written. It is
malformed otherwise. An entry is an object of which only its own members count; an array of their
values in order is taken for one as well. -/
theorem read_as_flattened (g : GeneralForm) (d : JsonDocument) (hform : g.IsFormOf d.members) :
    (∀ t, Token.ofText d.text = .ok t ↔
      ∃ v entry, d.members.get? g.list = some (.array [v]) ∧ g.entryRecord.Spells v entry ∧
        Token.ofObject (g.flatten d.members entry) = .ok t) ∧
    (∀ v entry, d.members.get? g.list = some (.array [v]) → g.entryRecord.Spells v entry →
      ∀ f : JsonDocument, f.members.Perm (g.flatten d.members entry) →
        ∀ t, Token.ofText d.text = .ok t ↔ Token.ofText f.text = .ok t) ∧
    ((∃ t, Token.ofText d.text = .ok t) ∨
      ∃ fault, Token.ofText d.text = .error (.malformedToken fault)) := by
  refine ⟨?_, ?_, ?_⟩
  · intro t
    constructor
    · intro ht
      obtain ⟨v, entry, hget, hentry⟩ := exists_entry_of_ofObject hform (d.ofText_eq ▸ ht)
      exact ⟨v, entry, hget, hentry, (ofText_iff_of_perm d hform hget hentry (.refl _)).1 ht⟩
    · intro h
      rcases h with ⟨v, entry, hget, hentry, ht⟩
      exact (ofText_iff_of_perm d hform hget hentry (.refl _)).2 ht
  · intro v entry hget hentry f hperm t
    rw [f.ofText_eq]
    exact ofText_iff_of_perm d hform hget hentry hperm
  · exact (Token.ofText_failsOnly d.text).ok_or

/-- A signed token whose entry is an array. -/
def arrayEntry : JsonDocument where
  text := "\x7b\"payload\":\"\",\"signatures\":[[\"eyJhbGciOiJIUzI1NiJ9\",null,\"\"]]\x7d"
  members :=
    [("payload", .string ""),
      ("signatures", .array [.array [.string "eyJhbGciOiJIUzI1NiJ9", .null, .string ""]])]
  parsed := by cbv

/-- The same token with the members in place of the list. -/
def arrayFlattened : JsonDocument where
  text := "\x7b\"payload\":\"\",\"protected\":\"eyJhbGciOiJIUzI1NiJ9\"," ++
    "\"header\":null,\"signature\":\"\"\x7d"
  members :=
    [("payload", .string ""), ("protected", .string "eyJhbGciOiJIUzI1NiJ9"), ("header", .null),
      ("signature", .string "")]
  parsed := by cbv

theorem spells_arrayEntry :
    signed.entryRecord.Spells (.array [.string "eyJhbGciOiJIUzI1NiJ9", .null, .string ""])
      [("protected", .string "eyJhbGciOiJIUzI1NiJ9"), ("header", .null),
        ("signature", .string "")] :=
  .array _ (by decide) (by decide)

/-- The two texts are accepted, and are the same token. -/
theorem read_as_flattened_arrayEntry :
    signed.IsFormOf arrayEntry.members ∧ (∃ t, Token.ofText arrayEntry.text = .ok t) ∧
      ∀ t, Token.ofText arrayEntry.text = .ok t ↔ Token.ofText arrayFlattened.text = .ok t := by
  have hform : signed.IsFormOf arrayEntry.members := ⟨by decide, by decide⟩
  obtain ⟨hiff, hsame, -⟩ := read_as_flattened signed arrayEntry hform
  refine ⟨hform, ?_, hsame _ _ rfl spells_arrayEntry arrayFlattened (.refl _)⟩
  refine ⟨.signed ⟨⟨[("alg", .string "HS256")]⟩, "eyJhbGciOiJIUzI1NiJ9", none, [], []⟩, ?_⟩
  refine (hiff _).2 ⟨_, _, rfl, spells_arrayEntry, ?_⟩
  cbv

/-- Not only objects are taken for entries. -/
theorem not_forall_entry_object :
    ¬∀ (g : GeneralForm) (d : JsonDocument), g.IsFormOf d.members → ∀ t,
      (Token.ofText d.text = .ok t ↔
        ∃ o : Object, d.members.get? g.list = some (.array [.object o]) ∧
          Token.ofObject (g.flatten d.members (o.filter fun m => m.1 ∈ g.entryRecord.names)) =
            .ok t) := by
  intro h
  have hread : Token.ofText arrayEntry.text =
      .ok (.signed ⟨⟨[("alg", .string "HS256")]⟩, "eyJhbGciOiJIUzI1NiJ9", none, [], []⟩) := by
    rw [arrayEntry.ofText_eq]
    cbv
  obtain ⟨o, hget, -⟩ := (h signed arrayEntry ⟨by decide, by decide⟩ _).1 hread
  cases hget

end GeneralForm

end WebToken
