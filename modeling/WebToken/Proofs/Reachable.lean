import WebToken.Proofs.Json.Nesting
import WebToken.Proofs.TokenParts

/-!
# Tokens that can come up

A token is made by signing or encrypting, or read from a text, and an unprotected header may be
attached to it afterwards, again and again. Whatever the order, what it keeps of its header is the
text of the header, and its unprotected header is one that may stand beside it.

* `Token.Reachable.invariant` : every token that can come up keeps the invariant;
* `Token.headers_of_reachable` : what that says about its headers.
-/

namespace WebToken

open Json (Object Record)

/-! ## Headers -/

namespace Header

/-- Whether the parameters are such that a text can denote them. -/
def WellFormed (h : Header) : Prop := (Json.Value.object h.parameters).WellFormed

/-- Whether no parameter holds a double. -/
def FloatFree (h : Header) : Prop := (Json.Value.object h.parameters).FloatFree

/-- How deep the parameters are nested. -/
def depth (h : Header) : Nat := (Json.Value.object h.parameters).depth

/-- Whether a text can denote the parameters as far as a reader goes: their names are distinct,
their numbers are those that a text can hold, and they are not nested too deep. -/
structure Denotable (h : Header) : Prop where
  wellFormed : h.WellFormed
  finiteDoubles : (Json.Value.object h.parameters).FiniteDoubles
  depth : h.depth ≤ Json.Document.maxDepth

/-- Whether the parameters have distinct names and are all texts. -/
structure IsPlain (h : Header) : Prop where
  distinct : h.names.Nodup
  texts : ∀ m ∈ h.parameters, ∃ s, m.2 = .string s

theorem isPlain_signed (alg : SignatureAlgorithm) : (signed alg).IsPlain where
  distinct := (by decide : ["alg"].Nodup)
  texts := List.forall_mem_singleton.2 ⟨_, rfl⟩

theorem isPlain_encrypted (alg : KeyManagement) (enc : ContentEncryption) :
    (encrypted alg enc).IsPlain where
  distinct := (by decide : ["alg", "enc"].Nodup)
  texts := List.forall_mem_cons.2 ⟨⟨_, rfl⟩, List.forall_mem_singleton.2 ⟨_, rfl⟩⟩

/-- Setting a text keeps a header plain. -/
theorem IsPlain.insert {h : Header} (hp : h.IsPlain) (name text : String) :
    (h.insert name (.string text)).IsPlain where
  distinct := Object.nodup_names_insert name _ hp.distinct
  texts := by
    intro m hm
    rcases Object.mem_insert hm with rfl | hm
    · exact ⟨text, rfl⟩
    · exact hp.texts m hm

theorem IsPlain.floatFree {h : Header} (hp : h.IsPlain) : h.FloatFree := by
  show (Json.Value.object h.parameters).FloatFree
  refine Json.Value.all_object.2 ⟨nofun, fun m hm => ?_⟩
  obtain ⟨s, hs⟩ := hp.texts m hm
  rw [hs]
  exact nofun

/-- A text can denote a plain header. -/
theorem IsPlain.denotable {h : Header} (hp : h.IsPlain) : h.Denotable where
  wellFormed := by
    refine Json.Value.all_object.2 ⟨hp.distinct, fun m hm => ?_⟩
    obtain ⟨s, hs⟩ := hp.texts m hm
    rw [hs]
    exact trivial
  finiteDoubles := hp.floatFree.finiteDoubles
  depth := by
    have hflat : Json.Value.depthMembers h.parameters ≤ 0 := by
      refine Json.Value.depthMembers_le_iff.2 fun m hm => ?_
      obtain ⟨s, hs⟩ := hp.texts m hm
      rw [hs]
      exact Nat.le_refl _
    exact le_trans (Nat.succ_le_succ hflat) (by decide)

/-- A text can denote the header of a signed token. -/
theorem denotable_signed (alg : SignatureAlgorithm) : (signed alg).Denotable :=
  (isPlain_signed alg).denotable

/-- A text can denote the header of an encrypted token. -/
theorem denotable_encrypted (alg : KeyManagement) (enc : ContentEncryption) :
    (encrypted alg enc).Denotable :=
  (isPlain_encrypted alg enc).denotable

/-- The header that the text of a header denotes. -/
def reread (h : Header) : Header := ⟨h.parameters.reread⟩

theorem contains_reread (h : Header) (name : String) : h.reread.contains name = h.contains name :=
  Object.contains_reread h.parameters name

theorem text?_reread (h : Header) (name : String) : h.reread.text? name = h.text? name :=
  Object.text?_reread h.parameters name

/-- A plain header is the one that its text denotes. -/
theorem IsPlain.reread {h : Header} (hp : h.IsPlain) : h.reread = h :=
  congrArg Header.mk (Json.Value.rereadMembers_of_floatFree _ hp.floatFree.2)

/-- What is decoded from the segment of a header, whatever its nesting: the header that its text
denotes, unless that is nested too deep. -/
theorem decode_encode_of_depth {h : Header} (hw : h.WellFormed)
    (hf : (Json.Value.object h.parameters).FiniteDoubles) (hcrit : h.contains "crit" = false) :
    Header.decode h.encode =
      if h.depth ≤ Json.Document.maxDepth then .ok h.reread
      else .error (.malformedToken (.headerSyntax .nestedTooDeep)) := by
  have hsegment : Segment.decode h.encode = .ok (Bytes.ofString h.json) :=
    Segment.decode_eq_ok_iff.2 rfl
  have hparse : Json.parse (Bytes.ofString h.json) = _ := Json.parse_encode_of_depth hw hf
  have hread : h.reread.refuseCritical = .ok () := by
    rw [refuseCritical_eq_ok_iff, contains_reread]
    exact hcrit
  rw [Header.decode, hsegment, depth]
  simp only [bind, Except.bind, hparse]
  by_cases hd : (Json.Value.object h.parameters).depth ≤ Json.Document.maxDepth
  · simp only [if_pos hd]
    show (h.reread.refuseCritical >>= fun _ => pure h.reread) = _
    rw [hread]
    rfl
  · simp only [if_neg hd]

/-- The header that its text denotes is decoded from its segment. -/
theorem decode_encode_reread {h : Header} (hd : h.Denotable) (hcrit : h.contains "crit" = false) :
    Header.decode h.encode = .ok h.reread := by
  rw [decode_encode_of_depth hd.wellFormed hd.finiteDoubles hcrit, if_pos hd.depth]

/-- A header is decoded from its segment. -/
theorem decode_encode {h : Header} (hw : h.WellFormed) (hcrit : h.contains "crit" = false)
    (hf : h.FloatFree) (hd : h.depth ≤ Json.Document.maxDepth) : Header.decode h.encode = .ok h :=
  decode_eq_ok_iff.2 ⟨Bytes.ofString h.json, rfl, Json.parse_encode hw hf hd, hcrit⟩

end Header

/-! ## The invariant -/

namespace Token

/-- Whether the headers of a token name what they must and have no parameter in common. -/
def Consistent : Token → Prop
  | signed t => t.Consistent
  | encrypted t => t.Consistent

/-- What holds of every token that can come up. -/
structure Invariant (t : Token) : Prop where
  consistent : t.Consistent
  notCritical : t.header.contains "crit" = false
  /-- The segment is the text of the header, if the header has a text. -/
  decodes : t.header.FloatFree → t.header.depth ≤ Json.Document.maxDepth →
    Header.decode t.segment = .ok t.header
  unprotected : ∀ u, t.unprotected = some u → u.WellFormed ∧ u.contains "crit" = false

/-- The tokens that can come up: signed, encrypted or read, with unprotected headers attached. The
parameters that are given are such that a text can denote them. -/
inductive Reachable : Token → Prop
  | signed {payload : Bytes} {key : Key} {header : Header} {t : SignedToken} :
      header.WellFormed → SignedToken.sign payload key header = .ok t → Reachable (.signed t)
  | encrypted {payload : Bytes} {key : Key} {header : Header} {random : Randomness}
      {t : EncryptedToken} :
      header.WellFormed → EncryptedToken.encrypt payload key header random = .ok t →
      Reachable (.encrypted t)
  | read {text : String} {t : Token} : ofText text = .ok t → Reachable t
  | attached {t t' : Token} {u : Header} :
      Reachable t → u.WellFormed → t.withUnprotected u = .ok t' → Reachable t'

end Token

/-! ## Making tokens -/

theorem SignedToken.invariant_of_sign {payload : Bytes} {key : Key} {header : Header}
    {t : SignedToken} (hw : header.WellFormed) (h : sign payload key header = .ok t) :
    (Token.signed t).Invariant := by
  simp only [sign, bind_eq_ok_iff, ofParts_eq_ok_iff] at h
  obtain ⟨_, hcrit, _, -, _, -, _, -, _, -, rfl, hconsistent⟩ := h
  -- the segment is made from the header, and no unprotected header is attached yet
  have hnot := Header.refuseCritical_eq_ok_iff.1 hcrit
  refine ⟨hconsistent, hnot, Header.decode_encode hw hnot, ?_⟩
  intro u hu
  cases hu

theorem EncryptedToken.invariant_of_encrypt {payload : Bytes} {key : Key} {header : Header}
    {random : Randomness} {t : EncryptedToken} (hw : header.WellFormed)
    (h : encrypt payload key header random = .ok t) : (Token.encrypted t).Invariant := by
  obtain ⟨algs, hencryption, h⟩ := bind_eq_ok_iff.1 h
  obtain ⟨_, hcrit, -⟩ := bind_eq_ok_iff.1 hencryption
  simp only [bind_eq_ok_iff, ofParts_eq_ok_iff] at h
  obtain ⟨_, -, _, -, _, -, rfl, hconsistent⟩ := h
  have hnot := Header.refuseCritical_eq_ok_iff.1 hcrit
  refine ⟨hconsistent, hnot, Header.decode_encode hw hnot, ?_⟩
  intro u hu
  cases hu

/-! ## Reading tokens -/

theorem Header.notCritical_of_decode {segment : String} {h : Header}
    (hdecode : Header.decode segment = .ok h) : h.contains "crit" = false := by
  obtain ⟨_, -, -, hcrit⟩ := decode_eq_ok_iff.1 hdecode
  exact hcrit

/-- An unprotected header that is taken from a well-formed object is well formed. -/
theorem unprotected_of_unprotectedHeader {ms : Option Object} {u : Option Header}
    (h : unprotectedHeader ms = .ok u)
    (hms : ∀ o, ms = some o → (Json.Value.object o).WellFormed) :
    ∀ v, u = some v → v.WellFormed ∧ v.contains "crit" = false := by
  obtain ⟨rfl, hcrit⟩ := unprotectedHeader_eq_ok_iff.1 h
  intro v hv
  refine ⟨?_, hcrit v hv⟩
  obtain ⟨o, ho, rfl⟩ := Option.map_eq_some_iff.1 hv
  exact hms o ho

/-- Two unprotected headers without a common parameter are one well-formed header. -/
theorem unprotected_of_mergeUnprotected {shared own : Option Object} {u : Option Header}
    (h : mergeUnprotected shared own = .ok u)
    (hshared : ∀ o, shared = some o → (Json.Value.object o).WellFormed)
    (hown : ∀ o, own = some o → (Json.Value.object o).WellFormed) :
    ∀ v, u = some v → v.WellFormed ∧ v.contains "crit" = false := by
  unfold mergeUnprotected at h
  split at h
  · next shared own =>
    split at h
    · cases h
    · next hfind =>
      refine unprotected_of_unprotectedHeader h fun o ho => ?_
      cases ho
      obtain ⟨hnodup, hmembers⟩ := Json.Value.all_object.1 (hshared _ rfl)
      obtain ⟨hnodup', hmembers'⟩ := Json.Value.all_object.1 (hown _ rfl)
      refine Json.Value.all_object.2 ⟨?_, ?_⟩
      · -- no name of the second header was found in the first
        refine Json.Object.nodup_names_append hnodup hnodup' fun name hname hmem => ?_
        exact List.find?_eq_none.1 hfind name hname (Json.Object.contains_iff.2 hmem)
      · intro m hm
        rcases List.mem_append.1 hm with hm | hm
        · exact hmembers m hm
        · exact hmembers' m hm
  · exact unprotected_of_unprotectedHeader h hshared
  · exact unprotected_of_unprotectedHeader h hown
  · cases h
    exact nofun

theorem SignedToken.invariant_of_ofEntry {payload : String} {entry : Object} {t : SignedToken}
    (h : ofEntry payload entry = .ok t) (hentry : ∀ m ∈ entry, m.2.WellFormed) :
    (Token.signed t).Invariant := by
  obtain ⟨-, hdecode, hunprotected, -, -, hconsistent⟩ := ofEntry_eq_ok_iff.1 h
  -- a header that was read is that of its segment, however deep it is nested
  exact ⟨hconsistent, Header.notCritical_of_decode hdecode, fun _ _ => hdecode,
    unprotected_of_unprotectedHeader hunprotected fun o ho =>
      Json.Object.wellFormed_of_object? ho hentry⟩

theorem EncryptedToken.invariant_of_ofEntry {members entry : Object} {t : EncryptedToken}
    (h : ofEntry members entry = .ok t) (hmembers : ∀ m ∈ members, m.2.WellFormed)
    (hentry : ∀ m ∈ entry, m.2.WellFormed) : (Token.encrypted t).Invariant := by
  obtain ⟨-, -, hdecode, hunprotected, -, -, -, -, hconsistent⟩ := ofEntry_eq_ok_iff.1 h
  exact ⟨hconsistent, Header.notCritical_of_decode hdecode, fun _ _ => hdecode,
    unprotected_of_mergeUnprotected hunprotected
      (fun o ho => Json.Object.wellFormed_of_object? ho hmembers)
      fun o ho => Json.Object.wellFormed_of_object? ho hentry⟩

namespace Token

/-- An entry that is the only one in a list of a well-formed object is well formed. -/
theorem wellFormed_of_records_eq {r : Record} {o entry : Object} {name : String}
    (h : o.records name r = [entry]) (ho : ∀ m ∈ o, m.2.WellFormed) :
    ∀ m ∈ entry, m.2.WellFormed :=
  Json.Object.wellFormed_of_mem_records (by rw [h]; exact List.mem_singleton_self _) ho

theorem invariant_of_ofObject {o : Object} {t : Token} (h : ofObject o = .ok t)
    (ho : ∀ m ∈ o, m.2.WellFormed) : t.Invariant := by
  cases t with
  | signed t =>
    -- the entry is listed in the general form, and is the object itself in the flattened one
    rcases ofObject_eq_ok_signed_iff.1 h with ⟨-, h⟩ | ⟨-, -, -, -, h⟩
    · obtain ⟨-, entry, hentries, h⟩ := SignedToken.ofGeneral_eq_ok_iff.1 h
      exact SignedToken.invariant_of_ofEntry h (wellFormed_of_records_eq hentries ho)
    · obtain ⟨-, -, h⟩ := SignedToken.ofFlattened_eq_ok_iff.1 h
      exact SignedToken.invariant_of_ofEntry h ho
  | encrypted t =>
    rcases ofObject_eq_ok_encrypted_iff.1 h with ⟨-, -, h⟩ | ⟨-, -, -, h⟩
    · obtain ⟨-, entry, hentries, h⟩ := EncryptedToken.ofGeneral_eq_ok_iff.1 h
      exact EncryptedToken.invariant_of_ofEntry h ho (wellFormed_of_records_eq hentries ho)
    · obtain ⟨-, -, h⟩ := EncryptedToken.ofFlattened_eq_ok_iff.1 h
      exact EncryptedToken.invariant_of_ofEntry h ho ho

theorem invariant_of_ofCompact {text : String} {t : Token} (h : ofCompact text = .ok t) :
    t.Invariant := by
  cases t with
  | signed t =>
    obtain ⟨-, hdecode, hnone, hconsistent⟩ := ofCompact_eq_ok_signed_iff.1 h
    refine ⟨hconsistent, Header.notCritical_of_decode hdecode, fun _ _ => hdecode, fun u hu => ?_⟩
    rw [show t.unprotected = some u from hu] at hnone
    cases hnone
  | encrypted t =>
    obtain ⟨-, hdecode, hnone, hconsistent⟩ := ofCompact_eq_ok_encrypted_iff.1 h
    refine ⟨hconsistent, Header.notCritical_of_decode hdecode, fun _ _ => hdecode, fun u hu => ?_⟩
    rw [show t.unprotected = some u from hu] at hnone
    cases hnone

theorem invariant_of_ofText {text : String} {t : Token} (h : ofText text = .ok t) :
    t.Invariant := by
  rw [ofText_eq] at h
  split at h
  · obtain ⟨o, hparse, h⟩ := ofJson_eq_ok_iff.1 h
    have hw := Json.Value.wellFormed_of_parse hparse
    exact invariant_of_ofObject h (Json.Value.all_object.1 hw).2
  · exact invariant_of_ofCompact h

end Token

/-! ## Attaching unprotected headers -/

/-- An unprotected header that is attached has no parameter in common with the header, and holds
nothing that must be understood. -/
theorem Header.checkAttached_eq_ok_iff {h u : Header} :
    h.checkAttached u = .ok () ↔ h.sharedName? u = none ∧ u.contains "crit" = false := by
  unfold checkAttached
  cases h.sharedName? u with
  | some name => exact ⟨nofun, nofun⟩
  | none =>
    show u.refuseCritical = .ok () ↔ _
    rw [refuseCritical_eq_ok_iff]
    exact ⟨fun hc => ⟨rfl, hc⟩, fun hc => hc.2⟩

theorem SignedToken.withUnprotected_eq_ok_iff {t t' : SignedToken} {u : Header} :
    t.withUnprotected u = .ok t' ↔
      t' = { t with unprotected := some u } ∧
      t.header.sharedName? u = none ∧ u.contains "crit" = false := by
  unfold withUnprotected
  rw [bind_eq_ok_iff, ← Header.checkAttached_eq_ok_iff]
  exact ⟨fun ⟨_, hcheck, h⟩ => ⟨(Except.ok.inj h).symm, hcheck⟩,
    fun ⟨h, hcheck⟩ => ⟨(), hcheck, h ▸ rfl⟩⟩

theorem EncryptedToken.withUnprotected_eq_ok_iff {t t' : EncryptedToken} {u : Header} :
    t.withUnprotected u = .ok t' ↔
      t' = { t with unprotected := some u } ∧
      t.header.sharedName? u = none ∧ u.contains "crit" = false := by
  unfold withUnprotected
  rw [bind_eq_ok_iff, ← Header.checkAttached_eq_ok_iff]
  exact ⟨fun ⟨_, hcheck, h⟩ => ⟨(Except.ok.inj h).symm, hcheck⟩,
    fun ⟨h, hcheck⟩ => ⟨(), hcheck, h ▸ rfl⟩⟩

namespace Token

/-- Attaching an unprotected header preserves the invariant. -/
theorem Invariant.withUnprotected {t t' : Token} {u : Header} (ht : t.Invariant)
    (hu : u.WellFormed) (h : t.withUnprotected u = .ok t') : t'.Invariant := by
  -- the header and its segment stay, so only what is attached must be looked at
  cases t with
  | signed t =>
    obtain ⟨_, hattach, rfl⟩ := map_eq_ok_iff.1 h
    obtain ⟨rfl, hshared, hcrit⟩ := SignedToken.withUnprotected_eq_ok_iff.1 hattach
    refine ⟨⟨ht.consistent.1, ?_⟩, ht.notCritical, ht.decodes, ?_⟩
    · intro v hv
      cases hv
      exact hshared
    · intro v hv
      cases hv
      exact ⟨hu, hcrit⟩
  | encrypted t =>
    obtain ⟨_, hattach, rfl⟩ := map_eq_ok_iff.1 h
    obtain ⟨rfl, hshared, hcrit⟩ := EncryptedToken.withUnprotected_eq_ok_iff.1 hattach
    refine ⟨⟨ht.consistent.1, ht.consistent.2.1, ?_⟩, ht.notCritical, ht.decodes, ?_⟩
    · intro v hv
      cases hv
      exact hshared
    · intro v hv
      cases hv
      exact ⟨hu, hcrit⟩

/-- Every token that can come up keeps the invariant: the tokens that are made or read have it, and
attaching an unprotected header preserves it. -/
theorem Reachable.invariant {t : Token} (h : t.Reachable) : t.Invariant := by
  -- on how the token came up: only attaching builds on another token
  induction h with
  | signed hw h => exact SignedToken.invariant_of_sign hw h
  | encrypted hw h => exact EncryptedToken.invariant_of_encrypt hw h
  | read h => exact invariant_of_ofText h
  | attached _ hu h ih => exact ih.withUnprotected hu h

/-! ## What the invariant says -/

/-- The headers of a token that keeps the invariant have no name in common. -/
theorem Invariant.disjoint {t : Token} {u : Header} (h : t.Invariant)
    (hu : t.unprotected = some u) : ∀ name ∈ t.header.names, name ∉ u.names := by
  have hshared : t.header.sharedName? u = none := by
    cases t with
    | signed t => exact h.consistent.2 u hu
    | encrypted t => exact h.consistent.2.2 u hu
  intro name hname hmem
  exact List.find?_eq_none.1 hshared name hname (Json.Object.contains_iff.2 hmem)

/-- Both headers of every token that can come up are in order. The segment that it keeps is the
text of its protected header, if that holds no double and is nested no deeper than a reader goes.
The protected header names the algorithms; neither header holds a parameter that must be understood,
and they have no name in common. -/
theorem headers_of_reachable {t : Token} (h : t.Reachable) :
    (t.header.FloatFree → t.header.depth ≤ Json.Document.maxDepth →
      ∃ bytes, Base64Url.decode t.segment = .ok bytes ∧
        Json.parse bytes = .ok (.object t.header.parameters)) ∧
    (∃ alg, t.header.get? "alg" = some (.string alg)) ∧
    (t.isEncrypted = true → ∃ enc, t.header.get? "enc" = some (.string enc)) ∧
    "crit" ∉ t.header.names ∧
    (∀ u, t.unprotected = some u →
      "crit" ∉ u.names ∧ ∀ name ∈ t.header.names, name ∉ u.names) := by
  have hinv := h.invariant
  refine ⟨fun hf hd => ?_, ?_, fun henc => ?_, Header.contains_eq_false_iff.1 hinv.notCritical,
    fun u hu => ⟨?_, ?_⟩⟩
  · obtain ⟨bytes, hsegment, hparse, -⟩ := Header.decode_eq_ok_iff.1 (hinv.decodes hf hd)
    exact ⟨bytes, Base64Url.decode_eq_ok_iff.2 hsegment, hparse⟩
  · cases t with
    | signed t => exact Header.isSome_text?_iff.1 hinv.consistent.1
    | encrypted t => exact Header.isSome_text?_iff.1 hinv.consistent.1
  · cases t with
    | signed t => cases henc
    | encrypted t => exact Header.isSome_text?_iff.1 hinv.consistent.2.1
  · exact Header.contains_eq_false_iff.1 (hinv.unprotected u hu).2
  · exact hinv.disjoint hu

/-- An unsigned token that names an algorithm which does not exist. -/
def unknownToken (unprotected : Option Header) : Token :=
  .signed ⟨⟨[("alg", .string "x")]⟩, "eyJhbGciOiJ4In0", unprotected, [], []⟩

theorem ofText_unknownToken : ofText "eyJhbGciOiJ4In0.." = .ok (unknownToken none) := by cbv

/-- The token is read from its compact form, and an unprotected header is attached to it. -/
theorem headers_of_reachable_unknown :
    (unknownToken (some (Header.empty.withKid "a"))).Reachable ∧
    (∃ bytes, Base64Url.decode "eyJhbGciOiJ4In0" = .ok bytes ∧
      Json.parse bytes = .ok (.object [("alg", .string "x")])) ∧
    ∀ name ∈ ["alg"], name ∉ ["kid"] := by
  have hkid : (Header.empty.withKid "a").WellFormed :=
    ⟨(by decide : ["kid"].Nodup), trivial, trivial⟩
  have hattached : (unknownToken (some (Header.empty.withKid "a"))).Reachable :=
    .attached (.read ofText_unknownToken) hkid rfl
  obtain ⟨hsegment, -, -, -, hunprotected⟩ := headers_of_reachable hattached
  exact ⟨hattached, hsegment ⟨nofun, nofun, trivial⟩ (by decide), (hunprotected _ rfl).2⟩

end Token

end WebToken
