import WebToken.Key.Import
import WebToken.Proofs.Json.Records
import WebToken.Proofs.Numbers

/-!
# Key documents are read as they were written

The object of a key document lists the members that are there, in a fixed order. Each passes the
check of its field, and is found under its name, so that the document is read back from the object.
A member for a number holds the base64url form of some bytes, of which zero bytes in front do not
count.

* `Jwk.ofObject_toObject` : a document is read back from its object;
* `Jwk.number_eq_ok_iff` : which members hold a number, and which one;
* `Jwk.spells_numberText` : a number is read back from its text.
-/

namespace WebToken

namespace Json

/-! ## Members that may be missing -/

namespace Object

/-- The members that are there. -/
def present (fields : List (String × Option Value)) : Object :=
  fields.filterMap fun (name, v) => v.map fun v => (name, v)

theorem mem_present {fields : List (String × Option Value)} {m : String × Value} :
    m ∈ present fields ↔ (m.1, some m.2) ∈ fields := by
  rw [present, List.mem_filterMap]
  constructor
  · rintro ⟨⟨name, v⟩, hf, hm⟩
    obtain ⟨w, hw, rfl⟩ := Option.map_eq_some_iff.1 hm
    rwa [← hw]
  · intro h
    exact ⟨_, h, rfl⟩

theorem names_present_subset (fields : List (String × Option Value)) :
    (present fields).names ⊆ fields.map (·.1) := by
  intro name hname
  obtain ⟨m, hm, rfl⟩ := List.mem_map.1 hname
  exact List.mem_map.2 ⟨_, mem_present.1 hm, rfl⟩

/-- A member is found if it is there, whatever is missing before it. -/
theorem get?_present {fields : List (String × Option Value)} (h : (fields.map (·.1)).Nodup)
    (name : String) : (present fields).get? name = (fields.lookup name).join := by
  induction fields with
  | nil => rfl
  | cons f fields ih =>
    obtain ⟨n, v⟩ := f
    rw [List.map_cons, List.nodup_cons] at h
    rw [List.lookup_cons]
    by_cases hname : name = n
    · subst hname
      rw [beq_self_eq_true]
      cases v with
      | none =>
        -- no other field has the name
        exact get?_eq_none_iff.2 fun hmem => h.1 (names_present_subset _ hmem)
      | some v => exact (get?_cons (name, v) (present fields) name).trans (if_pos rfl)
    · rw [beq_eq_false_iff_ne.2 hname]
      cases v with
      | none => exact ih h.2
      | some v =>
        exact ((get?_cons (n, v) (present fields) name).trans (if_neg hname)).trans (ih h.2)

/-- A member that is a text is found as that text. -/
theorem text?_of_get? {o : Object} {name : String} {s : Option String}
    (h : o.get? name = s.map .string) : o.text? name = s := by
  rw [text?, h]
  cases s <;> rfl

end Object

end Json

namespace Jwk

open Json (Object Value)

/-! ## Objects -/

section Objects

variable {j : Jwk}

/-- The members of a document that are texts and may be missing, in order. -/
def texts (j : Jwk) : List (String × Option String) :=
  [("alg", j.params.alg), ("kid", j.params.kid), ("k", j.k), ("n", j.n), ("e", j.e), ("d", j.d),
    ("p", j.p), ("q", j.q), ("dp", j.dp), ("dq", j.dq), ("qi", j.qi)]

/-- The members of a document, in order. -/
def members (j : Jwk) : List (String × Option Value) :=
  [("kty", some (.string j.kty)), ("use", j.params.use.map useValue),
      ("key_ops", j.params.operations.map operationsValue)] ++
    j.texts.map (fun (name, s) => (name, s.map .string)) ++ [("oth", j.oth)]

theorem names_texts (j : Jwk) : j.texts.map (·.1) = textNames := rfl

theorem toObject_eq_present (j : Jwk) : j.toObject = Object.present j.members := rfl

theorem nodup_names_members (j : Jwk) : (j.members.map (·.1)).Nodup := by
  show ["kty", "use", "key_ops", "alg", "kid", "k", "n", "e", "d", "p", "q", "dp", "dq", "qi",
    "oth"].Nodup
  decide

theorem get?_toObject (j : Jwk) (name : String) :
    j.toObject.get? name = (j.members.lookup name).join := by
  rw [toObject_eq_present, Object.get?_present j.nodup_names_members]

theorem checkMember_text {name : String} (h : name ∈ textNames) (v : Value) :
    record.checkMember name v = (v.optional Value.asText >>= fun _ => pure ()) := by
  have hfield : record.fields.find? (·.name == name) =
      some ⟨name, .optional, fun v => do let _ ← v.optional Value.asText⟩ := by
    simp only [textNames, List.mem_cons, List.not_mem_nil, or_false] at h
    rcases h with rfl | rfl | rfl | rfl | rfl | rfl | rfl | rfl | rfl | rfl | rfl <;> rfl
  rw [Json.Record.checkMember, hfield]

/-- A text may stand where one may be missing, and so may null. -/
theorem checkMember_text_iff {name : String} (h : name ∈ textNames) {v : Value} :
    record.checkMember name v = .ok () ↔ v = .null ∨ ∃ s, v = .string s := by
  rw [checkMember_text h]
  show (v.optional Value.asText >>= fun _ => pure ()) = Except.ok () ↔ _
  by_cases hnull : v = .null
  · subst hnull
    exact ⟨fun _ => .inl rfl, fun _ => rfl⟩
  · have hoptional : v.optional Value.asText = v.asText.map some := by
      cases v <;> first | rfl | exact absurd rfl hnull
    rw [hoptional, or_iff_right hnull]
    simp only [bind_eq_ok_iff, map_eq_ok_iff, Value.asText_eq_ok_iff]
    constructor
    · rintro ⟨_, ⟨s, hs, -⟩, -⟩
      exact ⟨s, hs⟩
    · rintro ⟨s, hs⟩
      exact ⟨some s, ⟨s, hs, rfl⟩, rfl⟩

/-- The choice of a name is read back. -/
theorem asChoice_useValue (u : KeyUse) : (useValue u).asChoice KeyUse.table = .ok u := by
  cases u <;> rfl

/-- The choices of names are read back in their order. -/
theorem asList_operationsValue (os : List KeyOperation) :
    (operationsValue os).asList (Value.asChoice KeyOperation.table) = .ok os := by
  show (os.map fun o => Value.string o.name).mapM (Value.asChoice KeyOperation.table) = .ok os
  induction os with
  | nil => rfl
  | cons o os ih =>
    have ho : (Value.string o.name).asChoice KeyOperation.table = .ok o := by cases o <;> rfl
    rw [List.map_cons, List.mapM_cons, ho, ih]
    rfl

/-- Every member of a document passes its check, and the type is there. -/
theorem checkObject_toObject (j : Jwk) : record.checkObject j.toObject = .ok () := by
  rw [Json.Record.checkObject_eq_ok_iff]
  constructor
  · rintro ⟨name, v⟩ hm
    have hmem : (name, some v) ∈ j.members := by
      rwa [toObject_eq_present, Object.mem_present] at hm
    simp only [members, List.mem_append, List.mem_cons, Prod.mk.injEq, List.not_mem_nil,
      or_false] at hmem
    rcases hmem with ((⟨rfl, h⟩ | ⟨rfl, h⟩ | ⟨rfl, h⟩) | h) | ⟨rfl, -⟩
    · cases h
      rfl
    · obtain ⟨u, -, rfl⟩ := Option.map_eq_some_iff.1 h.symm
      cases u <;> rfl
    · obtain ⟨os, -, rfl⟩ := Option.map_eq_some_iff.1 h.symm
      have hcheck : ((operationsValue os).asList (Value.asChoice KeyOperation.table)).map some >>=
          (fun _ => Except.ok ()) = .ok () := by
        rw [asList_operationsValue]
        rfl
      exact hcheck
    · obtain ⟨⟨n, s⟩, htext, heq⟩ := List.mem_map.1 h
      obtain ⟨rfl, hs⟩ := Prod.mk.inj heq
      obtain ⟨s, rfl, rfl⟩ := Option.map_eq_some_iff.1 hs
      have hname : n ∈ textNames := by
        rw [← j.names_texts]
        exact List.mem_map.2 ⟨_, htext, rfl⟩
      exact (checkMember_text_iff hname).2 (.inr ⟨s, rfl⟩)
    · rfl
  · exact Json.Record.missing?_eq_none_iff.1 rfl

/-- A text of a document is found in its object. -/
theorem text?_toObject {name : String} {s : Option String}
    (h : (j.members.lookup name).join = s.map .string) : j.toObject.text? name = s :=
  Object.text?_of_get? ((j.get?_toObject name).trans h)

theorem useOf_toObject (j : Jwk) : useOf j.toObject = j.params.use := by
  have hget : j.toObject.get? "use" = j.params.use.map useValue := j.get?_toObject "use"
  rw [useOf, hget]
  cases j.params.use with
  | none => rfl
  | some u => exact congrArg Except.toOption (asChoice_useValue u)

theorem operationsOf_toObject (j : Jwk) : operationsOf j.toObject = j.params.operations := by
  have hget : j.toObject.get? "key_ops" = j.params.operations.map operationsValue :=
    j.get?_toObject "key_ops"
  rw [operationsOf, hget]
  cases j.params.operations with
  | none => rfl
  | some os => exact congrArg Except.toOption (asList_operationsValue os)

theorem othOf_toObject (h : j.oth ≠ some .null) : othOf j.toObject = j.oth := by
  have hget : j.toObject.get? "oth" = j.oth := j.get?_toObject "oth"
  rw [othOf, hget]
  split
  · next hnull => exact absurd hnull h
  · rfl

/-- The members of a document make the document. -/
theorem ofMembers_toObject (h : j.oth ≠ some .null) : ofMembers j.toObject = j := by
  have hkty : j.toObject.text? "kty" = some j.kty := text?_toObject rfl
  have hkid : j.toObject.text? "kid" = j.params.kid := text?_toObject rfl
  have halg : j.toObject.text? "alg" = j.params.alg := text?_toObject rfl
  have hk : j.toObject.text? "k" = j.k := text?_toObject rfl
  have hn : j.toObject.text? "n" = j.n := text?_toObject rfl
  have he : j.toObject.text? "e" = j.e := text?_toObject rfl
  have hd : j.toObject.text? "d" = j.d := text?_toObject rfl
  have hp : j.toObject.text? "p" = j.p := text?_toObject rfl
  have hq : j.toObject.text? "q" = j.q := text?_toObject rfl
  have hdp : j.toObject.text? "dp" = j.dp := text?_toObject rfl
  have hdq : j.toObject.text? "dq" = j.dq := text?_toObject rfl
  have hqi : j.toObject.text? "qi" = j.qi := text?_toObject rfl
  rw [ofMembers, useOf_toObject, operationsOf_toObject, othOf_toObject h, hkty, hkid, halg, hk, hn,
    he, hd, hp, hq, hdp, hdq, hqi]
  rfl

/-- A document is read back from its object. -/
theorem ofObject_toObject (h : j.oth ≠ some .null) : ofObject j.toObject = .ok j := by
  rw [ofObject, Json.Record.read_object_eq_ok_iff.2 ⟨checkObject_toObject j, rfl⟩]
  exact congrArg Except.ok (ofMembers_toObject h)

end Objects

/-! ## Numbers -/

section Numbers

variable {name text : String} {member : Option String} {bytes : Bytes} {n : Nat}

theorem required_eq_ok_iff {kty : String} :
    required kty name member = .ok text ↔ member = some text := by
  cases member with
  | none => exact ⟨nofun, nofun⟩
  | some s => exact ⟨fun h => congrArg some (Except.ok.inj h), fun h => congrArg _ (Option.some.inj h)⟩

theorem decodeBytes_eq_ok_iff :
    decodeBytes name text = .ok bytes ↔ text = Base64Url.encode bytes := by
  rw [decodeBytes, mapError_eq_ok_iff, Base64Url.decode_eq_ok_iff]

theorem decodeNonempty_eq_ok_iff :
    decodeNonempty name text = .ok bytes ↔ text = Base64Url.encode bytes ∧ bytes ≠ [] := by
  simp only [decodeNonempty, bind_eq_ok_iff, decodeBytes_eq_ok_iff]
  constructor
  · rintro ⟨bytes', htext, h⟩
    split at h
    · cases h
    · next hne =>
      cases h
      exact ⟨htext, hne⟩
  · rintro ⟨htext, hne⟩
    refine ⟨bytes, htext, ?_⟩
    rw [if_neg hne]
    rfl

/-- Whether a member holds a number: it is the base64url form of at least one byte, and the bytes
spell the number. -/
def Spells (member : Option String) (n : Nat) : Prop :=
  ∃ bytes : Bytes, bytes ≠ [] ∧ member = some (Base64Url.encode bytes) ∧ Bytes.toNat bytes = n

/-- Exactly the members that hold a number are read as one. -/
theorem number_eq_ok_iff : number name member = .ok n ↔ Spells member n := by
  simp only [number, bind_eq_ok_iff, required_eq_ok_iff, decodeNonempty_eq_ok_iff]
  constructor
  · rintro ⟨_, hmember, bytes, ⟨rfl, hne⟩, h⟩
    cases h
    exact ⟨bytes, hne, hmember, rfl⟩
  · rintro ⟨bytes, hne, hmember, rfl⟩
    exact ⟨_, hmember, bytes, ⟨rfl, hne⟩, rfl⟩

/-- A member holds one number at most. -/
theorem Spells.unique {m : Nat} (hm : Spells member m) (hn : Spells member n) : m = n := by
  obtain ⟨a, -, ha, rfl⟩ := hm
  obtain ⟨b, -, hb, rfl⟩ := hn
  rw [ha, Option.some.injEq, Base64Url.encode_inj] at hb
  rw [hb]

/-- A number has a text of its own. -/
theorem numberText_inj {m : Nat} : numberText m = numberText n ↔ m = n := by
  rw [numberText, numberText, Base64Url.encode_inj]
  constructor
  · intro h
    rw [← Bytes.toNat_ofNatMinimal m, h, Bytes.toNat_ofNatMinimal]
  · rintro rfl
    rfl

/-- A number is read back from its text. -/
theorem spells_numberText (n : Nat) : Spells (some (numberText n)) n :=
  ⟨Bytes.ofNatMinimal n, Bytes.ofNatMinimal_ne_nil n, rfl, Bytes.toNat_ofNatMinimal n⟩

end Numbers

end Jwk

end WebToken
