import WebToken.Proofs.Json.TypedReading
import WebToken.Proofs.Key.Import

/-!
# Key documents in texts

The fields of a key document in a text are read one after the other, as they are written. Each is
read as the field of its value, so a text becomes the document that the object of these fields is
(`Jwk.Writes`). Members that are no fields are only passed over, and an array of the fields in order
is a key document as well.

* `Jwk.read_field_iff` : a field of a text is read as that of its value;
* `Jwk.read_textRecord_eq_ok_iff` : what is read of a document is what it writes;
* `Jwk.ofText_eq_ok_iff` : the key document of a text.
-/

namespace WebToken

open Json (Object Value Document Items Members TextField Agrees Skips)

namespace Jwk

/-! ## Fields -/

/-- What is kept of a field's value: a choice is kept as its name. -/
def kept (name : String) (v : Value) : Value :=
  if name = "use" then
    match v.optional (Value.asChoice KeyUse.table) with
    | .ok u => orNull useValue u
    | .error _ => v
  else if name = "key_ops" then
    match v.optional fun v => v.asList (Value.asChoice KeyOperation.table) with
    | .ok os => orNull operationsValue os
    | .error _ => v
  else v

/-- Whether a document writes a value for a field. A name may occur twice in an object inside the
multi-prime part, and nowhere else. -/
structure WritesField (name : String) (d : Document) (v : Value) : Prop where
  value : d.value innerDepth = .ok v
  distinct : name ≠ "oth" → d.Distinct

/-- A field is read from a document as from its value, if its readers agree. -/
theorem read_field_of_agrees {α : Type} {name : String} {read : Document → Except Json.ReadError α}
    {ofValue : Value → Except Json.ReadError α} {toValue : α → Value}
    (h : Agrees innerDepth read ofValue) (hname : name ≠ "oth")
    (hcheck : ∀ v, record.checkMember name v = (ofValue v >>= fun _ => .ok ()))
    (hkept : ∀ v a, ofValue v = .ok a → kept name v = toValue a) {d : Document} (hd : d.Whole)
    {w : Value} :
    (read d).map toValue = .ok w ↔
      ∃ v, WritesField name d v ∧ record.checkMember name v = .ok () ∧ w = kept name v := by
  simp only [map_eq_ok_iff, h d hd, hcheck, bind_eq_ok_iff]
  constructor
  · intro h
    rcases h with ⟨a, ⟨v, hv, hdistinct, ha⟩, hw⟩
    exact ⟨v, ⟨hv, fun _ => hdistinct⟩, ⟨a, ha, trivial⟩, by rw [hkept v a ha, hw]⟩
  · intro h
    rcases h with ⟨v, ⟨hv, hdistinct⟩, ⟨a, ha, _⟩, hw⟩
    exact ⟨a, ⟨v, hv, hdistinct hname, ha⟩, by rw [hw, hkept v a ha]⟩

theorem agrees_use : Agrees innerDepth
    (Document.optional (Document.asChoice innerDepth KeyUse.table))
    (Value.optional (Value.asChoice KeyUse.table)) :=
  (Json.agrees_asChoice innerDepth KeyUse.table).optional

theorem agrees_operations : Agrees innerDepth
    (Document.optional fun d => d.asList innerDepth
      (Document.asChoice (innerDepth - 1) KeyOperation.table))
    (Value.optional fun v => v.asList (Value.asChoice KeyOperation.table)) :=
  (Json.agrees_asChoice (innerDepth - 1) KeyOperation.table).asList.optional

theorem agrees_text : Agrees innerDepth (Document.optional Document.asText)
    (Value.optional Value.asText) :=
  (Json.agrees_asText innerDepth).optional

/-- A field of a text is read as that of its value. -/
theorem read_field_iff {f : TextField} (hf : f ∈ textRecord.fields) {d : Document} (hd : d.Whole)
    {w : Value} :
    f.read d = .ok w ↔
      ∃ v, WritesField f.name d v ∧ record.checkMember f.name v = .ok () ∧ w = kept f.name v := by
  simp only [textRecord, List.mem_append, List.mem_cons, List.mem_map, List.not_mem_nil,
    or_false] at hf
  rcases hf with ((rfl | rfl | rfl) | ⟨name, hname, rfl⟩) | rfl
  · refine read_field_of_agrees (Json.agrees_asText innerDepth) (by decide) (fun _ => rfl) ?_ hd
    intro v s hs
    exact Value.asText_eq_ok_iff.1 hs
  · refine read_field_of_agrees agrees_use (by decide) (fun _ => rfl) ?_ hd
    intro v u hu
    rw [kept, if_pos rfl, hu]
  · refine read_field_of_agrees agrees_operations (by decide) (fun _ => rfl) ?_ hd
    intro v os hos
    rw [kept, if_neg (by decide), if_pos rfl, hos]
  · -- texts are kept as they are
    have hother : name ≠ "use" ∧ name ≠ "key_ops" ∧ name ≠ "oth" := by
      refine ⟨?_, ?_, ?_⟩ <;> (rintro rfl; exact absurd hname (by decide))
    refine read_field_of_agrees agrees_text hother.2.2 (checkMember_text hname) ?_ hd
    intro v s? hs
    rw [kept, if_neg hother.1, if_neg hother.2.1]
    by_cases hnull : v = .null
    · subst hnull
      cases hs
      rfl
    · rw [Json.Value.optional_of_ne_null _ hnull, map_eq_ok_iff] at hs
      obtain ⟨s, hs, rfl⟩ := hs
      exact Value.asText_eq_ok_iff.1 hs
  · -- the multi-prime part is its value, in which a name may have occurred twice
    simp only [Json.orFault_eq_ok_iff]
    constructor
    · exact fun hw => ⟨w, ⟨hw, fun h => absurd rfl h⟩, rfl, rfl⟩
    · intro h
      rcases h with ⟨v, hv, _, hw⟩
      rw [hw]
      exact hv.value

/-! ## What is kept -/

/-- The members with what is kept of them. -/
def keptMembers (o : Object) : Object := o.map fun m => (m.1, kept m.1 m.2)

theorem names_keptMembers (o : Object) : Object.names (keptMembers o) = o.names := by
  rw [keptMembers, Object.names, List.map_map]
  rfl

theorem get?_keptMembers (o : Object) (name : String) :
    Object.get? (keptMembers o) name = (o.get? name).map (kept name) := by
  induction o with
  | nil => rfl
  | cons m o ih =>
    rw [keptMembers, List.map_cons, Json.Object.get?_cons, Json.Object.get?_cons]
    by_cases hname : name = m.1
    · rw [if_pos hname, if_pos hname, hname]
      rfl
    · rw [if_neg hname, if_neg hname]
      exact ih

/-- What is kept of a choice is read as the choice. -/
theorem toOption_asChoice_kept (v : Value) :
    ((kept "use" v).asChoice KeyUse.table).toOption = (v.asChoice KeyUse.table).toOption := by
  rw [kept, if_pos rfl]
  by_cases hnull : v = .null
  · subst hnull
    rfl
  · rw [Json.Value.optional_of_ne_null _ hnull]
    cases h : v.asChoice KeyUse.table with
    | ok u => exact congrArg Except.toOption (asChoice_useValue u)
    | error e =>
      -- what is no choice is kept as it is
      show (v.asChoice KeyUse.table).toOption = _
      rw [h]

theorem toOption_asList_kept (v : Value) :
    ((kept "key_ops" v).asList (Value.asChoice KeyOperation.table)).toOption =
      (v.asList (Value.asChoice KeyOperation.table)).toOption := by
  rw [kept, if_neg (by decide), if_pos rfl]
  by_cases hnull : v = .null
  · subst hnull
    rfl
  · rw [Json.Value.optional_of_ne_null _ hnull]
    cases h : v.asList (Value.asChoice KeyOperation.table) with
    | ok os => exact congrArg Except.toOption (asList_operationsValue os)
    | error e =>
      show (v.asList (Value.asChoice KeyOperation.table)).toOption = _
      rw [h]

/-- Members in which the same is found make the same document. -/
theorem ofMembers_congr {o o' : Object}
    (htext : ∀ name ∈ "kty" :: textNames, o.text? name = o'.text? name)
    (huse : useOf o = useOf o') (hoperations : operationsOf o = operationsOf o')
    (hoth : othOf o = othOf o') : ofMembers o = ofMembers o' := by
  simp only [textNames, List.forall_mem_cons] at htext
  obtain ⟨hkty, halg, hkid, hk, hn, he, hd, hp, hq, hdp, hdq, hqi, -⟩ := htext
  simp only [ofMembers, huse, hoperations, hoth, hkty, halg, hkid, hk, hn, he, hd, hp, hq, hdp,
    hdq, hqi]

/-- The members that are kept make the same document. -/
theorem ofMembers_keptMembers (o : Object) : ofMembers (keptMembers o) = ofMembers o := by
  -- only the choices are kept in another form
  have hget : ∀ name, name ≠ "use" → name ≠ "key_ops" →
      Object.get? (keptMembers o) name = o.get? name := by
    intro name huse hoperations
    have hkept : kept name = id := by
      funext v
      rw [kept, if_neg huse, if_neg hoperations, id]
    rw [get?_keptMembers, hkept, Option.map_id_fun, id]
  apply ofMembers_congr
  · intro name hname
    refine Json.Object.text?_congr (hget name ?_ ?_) <;>
      (rintro rfl; exact absurd hname (by decide))
  · rw [useOf, useOf, get?_keptMembers]
    cases o.get? "use" with
    | none => rfl
    | some v => exact toOption_asChoice_kept v
  · rw [operationsOf, operationsOf, get?_keptMembers]
    cases o.get? "key_ops" with
    | none => rfl
    | some v => exact toOption_asList_kept v
  · rw [othOf, othOf, hget "oth" (by decide) (by decide)]

/-! ## Whole documents -/

/-- Whether members write these fields, each of them once; what is no field is passed over. -/
inductive WritesMembers : Members → Object → Prop
  | done : WritesMembers (.done .closed) []
  | field {l : Json.Literal} {d : Document} {tail : Members} {name : String} {v : Value} {o : Object}
      (hname : l.text = .ok name) (hfield : name ∈ record.names) (hvalue : WritesField name d v)
      (hnew : name ∉ o.names) (htail : WritesMembers tail o) :
      WritesMembers (.member l d tail) ((name, v) :: o)
  | other {l : Json.Literal} {d : Document} {tail : Members} {name : String} {o : Object}
      (hname : l.text = .ok name) (hother : name ∉ record.names) (hskip : d.skip = .ok ())
      (htail : WritesMembers tail o) : WritesMembers (.member l d tail) o

/-- Whether items write these fields, in their order. -/
inductive WritesItems : List String → Items → Object → Prop
  | done : WritesItems [] (.done .closed) []
  | item {name : String} {names : List String} {d : Document} {tail : Items} {v : Value} {o : Object}
      (hvalue : WritesField name d v) (htail : WritesItems names tail o) :
      WritesItems (name :: names) (.item d tail) ((name, v) :: o)

/-- Whether a document writes these fields of a key document. -/
inductive Writes : Document → Object → Prop
  | object {members : Members} {o : Object} (h : WritesMembers members o) :
      Writes (.object members) o
  | array {items : Items} {o : Object} (h : WritesItems record.names items o) :
      Writes (.array items) o

theorem names_textRecord : textRecord.fields.map TextField.name = record.names := rfl

theorem nodup_names_record : record.names.Nodup := by decide

theorem find?_textRecord_eq_none_iff {name : String} :
    textRecord.fields.find? (·.name == name) = none ↔ name ∉ record.names := by
  rw [List.find?_eq_none, ← names_textRecord, List.mem_map]
  simp

theorem find?_textRecord_of_mem {name : String} (h : name ∈ record.names) :
    ∃ f ∈ textRecord.fields, f.name = name ∧ textRecord.fields.find? (·.name == name) = some f := by
  cases hfind : textRecord.fields.find? (·.name == name) with
  | none => exact absurd h (find?_textRecord_eq_none_iff.1 hfind)
  | some f =>
    exact ⟨f, List.mem_of_find?_eq_some hfind, by simpa using List.find?_some hfind, rfl⟩

section Member

variable {l : Json.Literal} {d : Document} {tail : Members} {name : String} {read w : Object}

/-- A member that is a field is read behind the others, if none of them has its name. -/
theorem readMembers_field_iff (hname : l.text = .ok name) (hfield : name ∈ record.names)
    (hd : d.Whole) :
    textRecord.readMembers read (.member l d tail) = .ok w ↔
      name ∉ read.names ∧ ∃ v, WritesField name d v ∧ record.checkMember name v = .ok () ∧
        textRecord.readMembers (read ++ [(name, kept name v)]) tail = .ok w := by
  obtain ⟨f, hf, rfl, hfind⟩ := find?_textRecord_of_mem hfield
  simp only [Json.TextRecord.readMembers, bind_eq_ok_iff, Json.orFault_eq_ok_iff, hname,
    Except.ok.injEq, exists_eq_left', hfind]
  rw [← Json.Object.contains_iff]
  split
  · next hread =>
    constructor
    · intro h
      cases h
    · intro h
      exact absurd hread h.1
  · next hread =>
    simp only [bind_eq_ok_iff, read_field_iff hf hd]
    constructor
    · intro h
      rcases h with ⟨_, ⟨v, hv, hcheck, rfl⟩, h⟩
      exact ⟨hread, v, hv, hcheck, h⟩
    · intro h
      rcases h with ⟨_, v, hv, hcheck, h⟩
      exact ⟨_, ⟨v, hv, hcheck, rfl⟩, h⟩

/-- A member that is no field is passed over. -/
theorem readMembers_other_iff (hname : l.text = .ok name) (hother : name ∉ record.names) :
    textRecord.readMembers read (.member l d tail) = .ok w ↔
      d.skip = .ok () ∧ textRecord.readMembers read tail = .ok w := by
  simp only [Json.TextRecord.readMembers, bind_eq_ok_iff, Json.orFault_eq_ok_iff, hname,
    Except.ok.injEq, exists_eq_left', find?_textRecord_eq_none_iff.2 hother]
  constructor
  · intro h
    rcases h with ⟨_, hskip, h⟩
    exact ⟨hskip, h⟩
  · intro h
    exact ⟨(), h⟩

/-- The name of a member that is read is a text. -/
theorem exists_name_of_readMembers (h : textRecord.readMembers read (.member l d tail) = .ok w) :
    ∃ name, l.text = .ok name := by
  obtain ⟨name, hname, -⟩ := bind_eq_ok_iff.1 h
  exact ⟨name, Json.orFault_eq_ok_iff.1 hname⟩

/-- Later fields have neither the name of this one nor one that was read before. -/
theorem forall_new_iff {v : Value} {o : Object} :
    (∀ n ∈ o.names, n ∉ Object.names (read ++ [(name, v)])) ↔
      name ∉ o.names ∧ ∀ n ∈ o.names, n ∉ read.names := by
  simp only [Object.names, List.map_append, List.map_cons, List.map_nil, List.mem_append,
    List.mem_singleton, not_or]
  constructor
  · intro h
    exact ⟨fun hmem => (h name hmem).2 rfl, fun n hn => (h n hn).1⟩
  · intro h n hn
    exact ⟨h.2 n hn, fun heq => h.1 (heq ▸ hn)⟩

end Member

/-- What is read of members stands behind what was read before them. -/
theorem readMembers_eq_ok_iff : ∀ {members : Members} (_ : members.Whole) {read w : Object},
    textRecord.readMembers read members = .ok w ↔
      ∃ o, WritesMembers members o ∧ (∀ m ∈ o, record.checkMember m.1 m.2 = .ok ()) ∧
        (∀ name ∈ o.names, name ∉ read.names) ∧ w = read ++ keptMembers o
  | .done ending, hending, read, w => by
    rw [show ending = .closed from hending]
    constructor
    · intro h
      cases h
      exact ⟨[], .done, nofun, nofun, (List.append_nil read).symm⟩
    · intro h
      rcases h with ⟨o, ho, _, _, hw⟩
      cases ho
      rw [hw, keptMembers, List.map_nil, List.append_nil]
      rfl
  | .member l d tail, hwhole, read, w => by
    obtain ⟨-, hd, htail⟩ := hwhole
    constructor
    · intro h
      obtain ⟨name, hname⟩ := exists_name_of_readMembers h
      by_cases hfield : name ∈ record.names
      · obtain ⟨hread, v, hv, hcheck, h⟩ := (readMembers_field_iff hname hfield hd).1 h
        obtain ⟨o, ho, hchecks, hnew, hw⟩ := (readMembers_eq_ok_iff htail).1 h
        obtain ⟨hnewName, hnew⟩ := forall_new_iff.1 hnew
        refine ⟨(name, v) :: o, .field hname hfield hv hnewName ho, ?_, ?_, ?_⟩
        · exact List.forall_mem_cons.2 ⟨hcheck, hchecks⟩
        · exact List.forall_mem_cons.2 ⟨hread, hnew⟩
        · rw [hw, List.append_assoc]
          rfl
      · obtain ⟨hskip, h⟩ := (readMembers_other_iff hname hfield).1 h
        obtain ⟨o, ho, hchecks, hnew, hw⟩ := (readMembers_eq_ok_iff htail).1 h
        exact ⟨o, .other hname hfield hskip ho, hchecks, hnew, hw⟩
    · intro h
      rcases h with ⟨o, ho, hchecks, hnew, hw⟩
      cases ho with
      | @field _ _ _ name v o hname hfield hv hnewName ho =>
        obtain ⟨hcheck, hchecks⟩ := List.forall_mem_cons.1 hchecks
        obtain ⟨hread, hnew⟩ := List.forall_mem_cons.1 hnew
        refine (readMembers_field_iff hname hfield hd).2 ⟨hread, v, hv, hcheck, ?_⟩
        refine (readMembers_eq_ok_iff htail).2 ⟨o, ho, hchecks, ?_, ?_⟩
        · exact forall_new_iff.2 ⟨hnewName, hnew⟩
        · rw [hw, List.append_assoc]
          rfl
      | @other _ _ _ name _ hname hother hskip ho =>
        refine (readMembers_other_iff hname hother).2 ⟨hskip, ?_⟩
        exact (readMembers_eq_ok_iff htail).2 ⟨o, ho, hchecks, hnew, hw⟩

theorem ofItems_eq_ok_iff : ∀ {fields : List TextField} (_ : ∀ f ∈ fields, f ∈ textRecord.fields)
    {items : Items} (_ : items.Whole) {index : Nat} {w : Object},
    textRecord.ofItems index fields items = .ok w ↔
      ∃ o, WritesItems (fields.map TextField.name) items o ∧
        (∀ m ∈ o, record.checkMember m.1 m.2 = .ok ()) ∧ w = keptMembers o
  | [], _, .done ending, hending, index, w => by
    rw [show ending = .closed from hending]
    constructor
    · intro h
      cases h
      exact ⟨[], .done, nofun, rfl⟩
    · intro h
      rcases h with ⟨o, ho, _, hw⟩
      cases ho
      rw [hw]
      rfl
  | [], _, .item _ _, _, index, w => by
    constructor
    · intro h
      cases h
    · intro h
      rcases h with ⟨o, ho, _⟩
      cases ho
  | f :: fields, _, .done ending, hending, index, w => by
    rw [show ending = .closed from hending]
    constructor
    · intro h
      cases h
    · intro h
      rcases h with ⟨o, ho, _⟩
      cases ho
  | f :: fields, hfields, .item head tail, ⟨hhead, htail⟩, index, w => by
    rw [List.forall_mem_cons] at hfields
    simp only [Json.TextRecord.ofItems, bind_eq_ok_iff, read_field_iff hfields.1 hhead,
      ofItems_eq_ok_iff hfields.2 htail]
    constructor
    · intro h
      rcases h with ⟨_, ⟨v, hv, hcheck, hkept⟩, _, ⟨o, ho, hchecks, hrest⟩, hw⟩
      cases hw
      rw [hkept, hrest]
      exact ⟨(f.name, v) :: o, .item hv ho, List.forall_mem_cons.2 ⟨hcheck, hchecks⟩, rfl⟩
    · intro h
      rcases h with ⟨o, ho, hchecks, hw⟩
      cases ho with
      | @item _ _ _ _ v o hv ho =>
        rw [List.forall_mem_cons] at hchecks
        exact ⟨_, ⟨v, hv, hchecks.1, rfl⟩, _, ⟨o, ho, hchecks.2, rfl⟩, by rw [hw]; rfl⟩

theorem missing?_textRecord_eq_none_iff {o : Object} :
    textRecord.missing? o = none ↔ "kty" ∈ o.names := by
  rw [Json.TextRecord.missing?, List.find?_eq_none]
  simp [textRecord, textNames, Json.Object.contains_iff]

theorem checkObject_record_iff {o : Object} :
    record.checkObject o = .ok () ↔
      (∀ m ∈ o, record.checkMember m.1 m.2 = .ok ()) ∧ "kty" ∈ o.names := by
  rw [Json.Record.checkObject_eq_ok_iff]
  refine and_congr_right fun _ => ?_
  simp [record, textNames]

theorem WritesItems.names_eq {names : List String} {items : Items} {o : Object}
    (h : WritesItems names items o) : o.names = names := by
  induction h with
  | done => rfl
  | item _ _ ih => exact congrArg (_ :: ·) ih

/-- What is read of a document is what is kept of the fields that it writes. -/
theorem read_textRecord_eq_ok_iff {d : Document} (hd : d.Whole) {w : Object} :
    textRecord.read d = .ok w ↔
      ∃ o, Writes d o ∧ record.checkObject o = .ok () ∧ w = keptMembers o := by
  cases d with
  | object members =>
    simp only [Json.TextRecord.read, bind_eq_ok_iff, readMembers_eq_ok_iff hd]
    constructor
    · intro h
      rcases h with ⟨_, ⟨o, ho, hchecks, _, hkept⟩, h⟩
      rw [List.nil_append] at hkept
      subst hkept
      split at h
      · cases h
      · next hmissing =>
        cases h
        rw [missing?_textRecord_eq_none_iff, names_keptMembers] at hmissing
        exact ⟨o, .object ho, checkObject_record_iff.2 ⟨hchecks, hmissing⟩, rfl⟩
    · intro h
      rcases h with ⟨o, ho, hcheck, hw⟩
      cases ho with
      | object ho =>
        obtain ⟨hchecks, hkty⟩ := checkObject_record_iff.1 hcheck
        refine ⟨w, ⟨o, ho, hchecks, fun _ _ => List.not_mem_nil, hw⟩, ?_⟩
        rw [missing?_textRecord_eq_none_iff.2 (by rw [hw, names_keptMembers]; exact hkty)]
        rfl
  | array items =>
    rw [Json.TextRecord.read, ofItems_eq_ok_iff (fun _ hf => hf) hd, names_textRecord]
    constructor
    · intro h
      rcases h with ⟨o, ho, hchecks, hw⟩
      -- the items stand for all fields, so none is missing
      have hkty : "kty" ∈ o.names := ho.names_eq ▸ by decide
      exact ⟨o, .array ho, checkObject_record_iff.2 ⟨hchecks, hkty⟩, hw⟩
    · intro h
      rcases h with ⟨o, ho, hcheck, hw⟩
      cases ho with
      | array ho => exact ⟨o, ho, (checkObject_record_iff.1 hcheck).1, hw⟩
  | _ =>
    constructor
    · intro h
      simp [Json.TextRecord.read, Document.refuse_ne_ok] at h
    · intro h
      rcases h with ⟨o, ho, _⟩
      cases ho

/-- No field takes anything that is cut off. -/
theorem skips_field {f : TextField} (hf : f ∈ textRecord.fields) : Skips f.read := by
  simp only [textRecord, List.mem_append, List.mem_cons, List.mem_map, List.not_mem_nil,
    or_false] at hf
  rcases hf with ((rfl | rfl | rfl) | ⟨name, hname, rfl⟩) | rfl
  · exact Json.skips_asText.map _
  · exact (Json.skips_asChoice _ _).optional.map _
  · exact ((Json.skips_asChoice _ _).asList _).optional.map _
  · exact Json.skips_asText.optional.map _
  · exact Json.skips_value _

theorem skip_of_readMembers : ∀ {members : Members} {read w : Object},
    textRecord.readMembers read members = .ok w → members.skip = .ok ()
  | .done ending, read, w, h => by
    simp only [Json.TextRecord.readMembers, bind_eq_ok_iff, Json.orFault_eq_ok_iff] at h
    obtain ⟨_, hend, -⟩ := h
    rw [Members.skip, Json.Fault.raise_eq_ok_iff]
    exact Json.Ending.skippedMemberFault_of_memberFault (Json.Fault.raise_eq_ok_iff.1 hend)
  | .member l d tail, read, w, h => by
    simp only [Json.TextRecord.readMembers, bind_eq_ok_iff, Json.orFault_eq_ok_iff] at h
    obtain ⟨name, hname, h⟩ := h
    have hclosed := Json.Literal.check_eq_ok_iff.2 (Json.Literal.isClosed_of_text hname)
    simp only [Members.skip, bind_eq_ok_iff]
    split at h
    · obtain ⟨_, hskip, h⟩ := bind_eq_ok_iff.1 h
      exact ⟨(), hclosed, (), Json.orFault_eq_ok_iff.1 hskip, skip_of_readMembers h⟩
    · next f hfind =>
      split at h
      · cases h
      · obtain ⟨v, hv, h⟩ := bind_eq_ok_iff.1 h
        have hskip := skips_field (List.mem_of_find?_eq_some hfind) d v hv
        exact ⟨(), hclosed, (), hskip, skip_of_readMembers h⟩

theorem skip_of_ofItems : ∀ {fields : List TextField} (_ : ∀ f ∈ fields, f ∈ textRecord.fields)
    {items : Items} {index : Nat} {w : Object},
    textRecord.ofItems index fields items = .ok w → items.skip = .ok ()
  | [], _, items, index, w, h => by
    simp only [Json.TextRecord.ofItems, bind_eq_ok_iff, Json.orFault_eq_ok_iff] at h
    obtain ⟨_, hend, -⟩ := h
    cases items with
    | done ending => cases ending <;> first | rfl | cases hend
    | item head tail => cases hend
  | f :: fields, _, .done ending, index, w, h => by
    simp only [Json.TextRecord.ofItems, bind_eq_ok_iff] at h
    obtain ⟨_, -, h⟩ := h
    cases h
  | f :: fields, hfields, .item head tail, index, w, h => by
    rw [List.forall_mem_cons] at hfields
    simp only [Json.TextRecord.ofItems, bind_eq_ok_iff] at h
    obtain ⟨v, hv, o, ho, -⟩ := h
    rw [Items.skip, bind_eq_ok_iff]
    exact ⟨(), skips_field hfields.1 head v hv, skip_of_ofItems hfields.2 ho⟩

theorem skips_read_textRecord : Skips textRecord.read := by
  intro d w h
  cases d with
  | object members =>
    obtain ⟨o, ho, -⟩ := bind_eq_ok_iff.1 h
    exact skip_of_readMembers ho
  | array items => exact skip_of_ofItems (fun _ hf => hf) h
  | _ => simp [Json.TextRecord.read, Document.refuse_ne_ok] at h

/-- The document of a text is that of the fields that it writes. -/
theorem ofText_eq_ok_iff {text : String} {j : Jwk} :
    ofText text = .ok j ↔
      ∃ d o, d.IsText (Bytes.ofString text) ∧ Writes d o ∧ ofObject o = .ok j := by
  simp only [ofText, orMalformed, bind_eq_ok_iff, mapError_eq_ok_iff, Json.readText,
    Json.readAll_eq_ok_iff skips_read_textRecord, ofObject_eq_ok_iff]
  constructor
  · intro h
    rcases h with ⟨w, ⟨d, htext, hw⟩, hj⟩
    cases hj
    obtain ⟨o, ho, hcheck, rfl⟩ := (read_textRecord_eq_ok_iff htext.whole).1 hw
    exact ⟨d, o, htext, ho, hcheck, (ofMembers_keptMembers o).symm⟩
  · intro h
    rcases h with ⟨d, o, htext, ho, hcheck, hj⟩
    subst hj
    refine ⟨keptMembers o, ⟨d, htext, ?_⟩, congrArg Except.ok (ofMembers_keptMembers o)⟩
    exact (read_textRecord_eq_ok_iff htext.whole).2 ⟨o, ho, hcheck, rfl⟩

end Jwk

end WebToken
