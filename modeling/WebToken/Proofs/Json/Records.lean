import WebToken.Json.Record
import WebToken.Proofs.Except
import WebToken.Proofs.Json.Same
import WebToken.Proofs.Json.WellFormed

/-!
# What a record accepts

An object is accepted as a record if its members pass the checks of the fields and no field that
must be there is missing; nothing else about it counts.

* `Record.checkObject_eq_ok_iff` and `Record.checkObject_eq_ok_iff_accepts` : when an object is
  accepted;
* `Record.ofItems_eq_ok_iff` : when an array of fields is accepted;
* `Object.exists_text_of_checkObject` : an accepted object holds the texts that must be there.
-/

namespace WebToken

namespace Json

namespace Record

theorem checkMembers_eq_ok_iff {r : Record} {o : Object} :
    r.checkMembers o = .ok () ↔ ∀ m ∈ o, r.checkMember m.1 m.2 = .ok () := by
  induction o with
  | nil => exact ⟨nofun, fun _ => rfl⟩
  | cons m o ih =>
    rw [checkMembers, bind_eq_ok_iff, List.forall_mem_cons]
    constructor
    · rintro ⟨_, hm, ho⟩
      exact ⟨hm, ih.1 ho⟩
    · rintro ⟨hm, ho⟩
      exact ⟨(), hm, ih.2 ho⟩

theorem missing?_eq_none_iff {r : Record} {o : Object} :
    r.missing? o = none ↔ ∀ f ∈ r.fields, f.presence = .required → f.name ∈ o.names := by
  rw [missing?, List.find?_eq_none]
  constructor
  · intro h f hf hp
    have hnot := h f hf
    rw [hp, Bool.and_eq_true, not_and, Bool.not_eq_true', Bool.not_eq_false,
      Object.contains_iff] at hnot
    exact hnot rfl
  · intro h f hf hnot
    rw [Bool.and_eq_true, beq_iff_eq, Bool.not_eq_true'] at hnot
    have hc := Object.contains_iff.2 (h f hf hnot.1)
    rw [hnot.2] at hc
    cases hc

/-- An object is accepted if its members are, and nothing is missing. -/
theorem checkObject_eq_ok_iff {r : Record} {o : Object} :
    r.checkObject o = .ok () ↔ (∀ m ∈ o, r.checkMember m.1 m.2 = .ok ()) ∧
      ∀ f ∈ r.fields, f.presence = .required → f.name ∈ o.names := by
  rw [checkObject, bind_eq_ok_iff, ← checkMembers_eq_ok_iff, ← missing?_eq_none_iff]
  constructor
  · rintro ⟨_, hm, h⟩
    refine ⟨hm, ?_⟩
    cases hf : r.missing? o with
    | none => rfl
    | some f =>
      rw [hf] at h
      cases h
  · rintro ⟨hm, hf⟩
    refine ⟨(), hm, ?_⟩
    rw [hf]

theorem read_object_eq_ok_iff {r : Record} {o members : Object} :
    r.read (.object o) = .ok members ↔ r.checkObject o = .ok () ∧ members = o := by
  rw [Record.read, bind_eq_ok_iff]
  constructor
  · rintro ⟨_, hcheck, h⟩
    cases h
    exact ⟨hcheck, rfl⟩
  · rintro ⟨hcheck, rfl⟩
    exact ⟨(), hcheck, rfl⟩

/-- The records in a list are those of its items, if the list is accepted. -/
theorem filterMap_read_of_mapM {r : Record} {vs : List Value} {os : List Object}
    (h : vs.mapM r.read = .ok os) : vs.filterMap (fun v => (r.read v).toOption) = os := by
  induction vs generalizing os with
  | nil =>
    cases h
    rfl
  | cons v vs ih =>
    rw [List.mapM_cons, bind_eq_ok_iff] at h
    obtain ⟨o, ho, h⟩ := h
    obtain ⟨rest, hrest, h⟩ := bind_eq_ok_iff.1 h
    cases h
    rw [List.filterMap_cons, ho, ih hrest]
    rfl

end Record

/-! ## Texts -/

theorem Value.asText_eq_ok_iff {v : Value} {s : String} : v.asText = .ok s ↔ v = .string s := by
  cases v with
  | string t => exact ⟨fun h => Except.ok.inj h ▸ rfl, fun h => Value.string.inj h ▸ rfl⟩
  | _ => exact ⟨nofun, nofun⟩

theorem Field.exists_eq_string {name : String} {v : Value}
    (h : (Field.text name).check v = .ok ()) : ∃ s, v = .string s := by
  obtain ⟨s, hs, -⟩ := bind_eq_ok_iff.1 h
  exact ⟨s, Value.asText_eq_ok_iff.1 hs⟩

/-- An accepted object holds the texts that must be there. -/
theorem Object.exists_text_of_checkObject {r : Record} {o : Object} {name : String}
    (h : r.checkObject o = .ok ())
    (hfield : r.fields.find? (·.name == name) = some (Field.text name)) :
    ∃ s, o.text? name = some s := by
  obtain ⟨hchecks, hpresent⟩ := Record.checkObject_eq_ok_iff.1 h
  have hmem := hpresent _ (List.mem_of_find?_eq_some hfield) rfl
  rw [← Object.contains_iff, Object.contains_eq_isSome, Option.isSome_iff_exists] at hmem
  obtain ⟨v, hv⟩ := hmem
  have hcheck : r.checkMember name v = .ok () := hchecks _ (Object.mem_of_get? hv)
  rw [Record.checkMember, hfield] at hcheck
  obtain ⟨s, rfl⟩ := Field.exists_eq_string hcheck
  refine ⟨s, ?_⟩
  rw [Object.text?, show o.get? name = some (.string s) from hv]

/-! ## Lists -/

/-- An accepted object that holds one record in a list holds a list of one item. -/
theorem Object.exists_item_of_records_eq {r entries : Record} {o entry : Object} {name : String}
    (h : r.checkObject o = .ok ())
    (hfield : r.fields.find? (·.name == name) = some (Field.list name entries))
    (hone : o.records name entries = [entry]) :
    ∃ v, o.get? name = some (.array [v]) ∧ entries.read v = .ok entry := by
  unfold records at hone
  split at hone
  · next vs hvs =>
    obtain ⟨hchecks, -⟩ := Record.checkObject_eq_ok_iff.1 h
    have hcheck : r.checkMember name (.array vs) = .ok () := hchecks _ (Object.mem_of_get? hvs)
    rw [Record.checkMember, hfield] at hcheck
    obtain ⟨os, hos, -⟩ := bind_eq_ok_iff.1 hcheck
    have hread : vs.mapM entries.read = .ok os := hos
    rw [Record.filterMap_read_of_mapM hread] at hone
    subst hone
    -- as many items are read as there are records, so there is exactly one
    cases vs with
    | nil => cases hread
    | cons v vs =>
      rw [List.mapM_cons, bind_eq_ok_iff] at hread
      obtain ⟨o', ho', hread⟩ := hread
      obtain ⟨rest, hrest, hread⟩ := bind_eq_ok_iff.1 hread
      cases hread
      cases vs with
      | nil => exact ⟨v, hvs, ho'⟩
      | cons w vs =>
        rw [List.mapM_cons, bind_eq_ok_iff] at hrest
        obtain ⟨_, -, hrest⟩ := hrest
        obtain ⟨_, -, hrest⟩ := bind_eq_ok_iff.1 hrest
        cases hrest
  · cases hone

/-- In a list of one item, the record is what is read of it. -/
theorem Object.records_eq_singleton_iff {r : Record} {o entry : Object} {name : String} {v : Value}
    (hget : o.get? name = some (.array [v])) :
    o.records name r = [entry] ↔ r.read v = .ok entry := by
  rw [records, hget]
  cases h : r.read v <;> simp [h, Except.toOption]

/-- A list of one item is accepted if the item is. -/
theorem Field.check_list_singleton_iff {r : Record} {v : Value} (name : String) :
    (Field.list name r).check (.array [v]) = .ok () ↔ ∃ entry, r.read v = .ok entry := by
  show ([v].mapM r.read >>= fun _ => Except.ok ()) = .ok () ↔ _
  rw [List.mapM_cons]
  cases r.read v with
  | ok entry => exact ⟨fun _ => ⟨entry, rfl⟩, fun _ => rfl⟩
  | error e => exact ⟨nofun, nofun⟩

/-- A list of one accepted object is accepted. -/
theorem Field.check_list_singleton {r : Record} {o : Object} (name : String)
    (h : r.checkObject o = .ok ()) : (Field.list name r).check (.array [.object o]) = .ok () :=
  (Field.check_list_singleton_iff name).2 ⟨o, Record.read_object_eq_ok_iff.2 ⟨h, rfl⟩⟩

/-- The record in a list of one accepted object is that object. -/
theorem Object.records_singleton {r : Record} {o entry : Object} {name : String}
    (hget : o.get? name = some (.array [.object entry])) (h : r.checkObject entry = .ok ()) :
    o.records name r = [entry] :=
  (records_eq_singleton_iff hget).2 (Record.read_object_eq_ok_iff.2 ⟨h, rfl⟩)

/-! ## What is read from well-formed values -/

theorem Record.wellFormed_of_ofItems {r : Record} {count index : Nat} {fields : List Field}
    {vs : List Value} {o : Object} (h : r.ofItems count index fields vs = .ok o)
    (hvs : ∀ v ∈ vs, v.WellFormed) : ∀ m ∈ o, m.2.WellFormed := by
  -- on the fields, each of which takes an item off the list or is left out
  induction fields generalizing index vs o with
  | nil =>
    cases vs with
    | nil =>
      cases h
      exact nofun
    | cons v vs => cases h
  | cons f fields ih =>
    cases vs with
    | nil =>
      rw [ofItems] at h
      split at h
      · exact ih h hvs
      · cases h
    | cons v vs =>
      rw [List.forall_mem_cons] at hvs
      obtain ⟨_, -, h⟩ := bind_eq_ok_iff.1 h
      obtain ⟨rest, hrest, h⟩ := bind_eq_ok_iff.1 h
      cases h
      exact List.forall_mem_cons.2 ⟨hvs.1, ih hrest hvs.2⟩

/-- The members of a record are values of what it was read from. -/
theorem Record.wellFormed_of_read {r : Record} {v : Value} {o : Object} (h : r.read v = .ok o)
    (hv : v.WellFormed) : ∀ m ∈ o, m.2.WellFormed := by
  cases v with
  | object ms =>
    obtain ⟨-, rfl⟩ := read_object_eq_ok_iff.1 h
    exact (Value.all_object.1 hv).2
  | array vs => exact wellFormed_of_ofItems h (Value.all_array.1 hv).2
  | _ => cases h

/-- A record in a list is read from an item of the list. -/
theorem Object.wellFormed_of_mem_records {r : Record} {o entry : Object} {name : String}
    (h : entry ∈ o.records name r) (ho : ∀ m ∈ o, m.2.WellFormed) :
    ∀ m ∈ entry, m.2.WellFormed := by
  unfold records at h
  split at h
  · next vs hvs =>
    have harray : (Value.array vs).WellFormed := ho _ (mem_of_get? hvs)
    obtain ⟨v, hv, hread⟩ := List.mem_filterMap.1 h
    cases hr : r.read v with
    | error e =>
      rw [hr] at hread
      cases hread
    | ok os =>
      rw [hr] at hread
      cases hread
      exact Record.wellFormed_of_read hr ((Value.all_array.1 harray).2 v hv)
  · cases h

theorem Object.wellFormed_of_object? {o ms : Object} {name : String}
    (h : o.object? name = some ms) (ho : ∀ m ∈ o, m.2.WellFormed) :
    (Value.object ms).WellFormed := by
  unfold object? at h
  split at h
  · next hget =>
    cases h
    exact ho _ (mem_of_get? hget)
  · cases h

/-! ## Fields -/

/-- A member of an object with distinct names is found under its name. -/
theorem Object.get?_of_mem {o : Object} {m : String × Value} (ho : o.names.Nodup) (h : m ∈ o) :
    o.get? m.1 = some m.2 := by
  induction o with
  | nil => cases h
  | cons n o ih =>
    rw [names, List.map_cons, List.nodup_cons] at ho
    rw [get?_cons]
    rcases List.mem_cons.1 h with rfl | h
    · rw [if_pos rfl]
    · have hne : m.1 ≠ n.1 := fun heq => ho.1 (heq ▸ List.mem_map_of_mem h)
      rw [if_neg hne]
      exact ih ho.2 h

/-- Whether a field accepts what stands in its place. -/
def Field.Accepts (f : Field) : Option Value → Prop
  | some v => f.check v = .ok ()
  | none => f.presence ≠ .required

/-- Fields of distinct names are found under their names. -/
theorem Record.find?_eq_some_iff {r : Record} {name : String} {f : Field}
    (hr : (r.fields.map Field.name).Nodup) :
    r.fields.find? (·.name == name) = some f ↔ f ∈ r.fields ∧ f.name = name := by
  constructor
  · intro h
    exact ⟨List.mem_of_find?_eq_some h, by simpa using List.find?_some h⟩
  · rintro ⟨hf, rfl⟩
    obtain ⟨g, hg⟩ : ∃ g, r.fields.find? (·.name == f.name) = some g := by
      rw [← Option.isSome_iff_exists, List.find?_isSome]
      exact ⟨f, hf, by simp⟩
    have hname : g.name = f.name := by simpa using List.find?_some hg
    rw [hg, List.inj_on_of_nodup_map hr (List.mem_of_find?_eq_some hg) hf hname]

/-- An object with distinct names is accepted if each field accepts what stands under its name. -/
theorem Record.checkObject_eq_ok_iff_accepts {r : Record} {o : Object}
    (hr : (r.fields.map Field.name).Nodup) (ho : o.names.Nodup) :
    r.checkObject o = .ok () ↔ ∀ f ∈ r.fields, f.Accepts (o.get? f.name) := by
  rw [checkObject_eq_ok_iff]
  constructor
  · rintro ⟨hchecks, hpresent⟩ f hf
    cases hget : o.get? f.name with
    | none => exact fun hrequired => Object.get?_eq_none_iff.1 hget (hpresent f hf hrequired)
    | some v =>
      have hcheck : r.checkMember f.name v = .ok () := hchecks _ (Object.mem_of_get? hget)
      rwa [checkMember, (find?_eq_some_iff hr).2 ⟨hf, rfl⟩] at hcheck
  · intro haccepts
    refine ⟨fun m hm => ?_, fun f hf hrequired => ?_⟩
    · rw [checkMember]
      split
      · next f hfind =>
        obtain ⟨hf, hname⟩ := (find?_eq_some_iff hr).1 hfind
        have haccept := haccepts f hf
        rwa [hname, Object.get?_of_mem ho hm] at haccept
      · rfl
    · have haccept := haccepts f hf
      by_contra hnot
      rw [Object.get?_eq_none_iff.2 hnot] at haccept
      exact haccept hrequired

/-- An array of fields is accepted if it has no more items than there are fields, those without an
item have a default, and each of the others accepts its item. -/
theorem Record.ofItems_eq_ok_iff {r : Record} {count index : Nat} {fields : List Field}
    {vs : List Value} {o : Object} :
    r.ofItems count index fields vs = .ok o ↔
      (vs.length ≤ fields.length ∧ ∀ f ∈ fields.drop vs.length, f.presence = .defaulted) ∧
        (∀ p ∈ fields.zip vs, p.1.check p.2 = .ok ()) ∧
        o = (fields.zip vs).map fun p => (p.1.name, p.2) := by
  induction fields generalizing index vs o with
  | nil => cases vs <;> simp [ofItems, eq_comm]
  | cons f fields ih =>
    cases vs with
    | nil =>
      rw [ofItems]
      by_cases hf : f.presence = .defaulted
      · rw [if_pos hf, ih]
        simp [hf]
      · simp [hf]
    | cons v vs =>
      constructor
      · intro h
        obtain ⟨_, hcheck, h⟩ := bind_eq_ok_iff.1 h
        obtain ⟨rest, hrest, h⟩ := bind_eq_ok_iff.1 h
        cases h
        obtain ⟨⟨hlength, hdrop⟩, hchecks, rfl⟩ := ih.1 hrest
        exact ⟨⟨Nat.succ_le_succ hlength, hdrop⟩, List.forall_mem_cons.2 ⟨hcheck, hchecks⟩, rfl⟩
      · rintro ⟨⟨hlength, hdrop⟩, hchecks, rfl⟩
        rw [List.zip_cons_cons, List.forall_mem_cons] at hchecks
        have hrest : r.ofItems count (index + 1) fields vs = .ok _ :=
          ih.2 ⟨⟨Nat.le_of_succ_le_succ hlength, hdrop⟩, hchecks.2, rfl⟩
        exact bind_eq_ok_iff.2 ⟨(), hchecks.1, bind_eq_ok_iff.2 ⟨_, hrest, rfl⟩⟩

theorem Field.accepts_text_iff {name : String} {v? : Option Value} :
    (Field.text name).Accepts v? ↔ ∃ s, v? = some (.string s) := by
  constructor
  · intro h
    cases v? with
    | none => exact absurd rfl h
    | some v =>
      obtain ⟨s, rfl⟩ := Field.exists_eq_string h
      exact ⟨s, rfl⟩
  · rintro ⟨s, rfl⟩
    rfl

theorem Object.text?_congr {o o' : Object} {name : String} (h : o.get? name = o'.get? name) :
    o.text? name = o'.text? name := by
  rw [text?, text?, h]

theorem Object.object?_congr {o o' : Object} {name : String} (h : o.get? name = o'.get? name) :
    o.object? name = o'.object? name := by
  rw [object?, object?, h]

/-- What stands in the place of a field: the member of an object, or the item of an array. -/
def Value.field? (v : Value) (name : String) (index : Nat) : Option Value :=
  match v with
  | .object o => Object.get? o name
  | .array vs => vs[index]?
  | _ => none

/-- An object that may be null or missing, as it stands in the place of a field. -/
inductive HoldsOptional : Option Value → Option Object → Prop
  | missing : HoldsOptional none none
  | null : HoldsOptional (some .null) none
  | object (ms : Object) : HoldsOptional (some (.object ms)) (some ms)

theorem Field.accepts_optionalObject_iff {name : String} {v? : Option Value} :
    (Field.optionalObject name).Accepts v? ↔ ∃ ms?, HoldsOptional v? ms? := by
  constructor
  · intro h
    match v?, h with
    | none, _ => exact ⟨none, .missing⟩
    | some .null, _ => exact ⟨none, .null⟩
    | some (.object ms), _ => exact ⟨some ms, .object ms⟩
  · rintro ⟨_, h⟩
    cases h with
    | missing => exact nofun
    | null => rfl
    | object ms => rfl

theorem HoldsOptional.object?_eq {o : Object} {name : String} {ms? : Option Object}
    (h : HoldsOptional (o.get? name) ms?) : o.object? name = ms? := by
  unfold Object.object?
  generalize o.get? name = v? at h
  cases h <;> rfl

/-! ## Values that stand for records -/

/-- The names of the fields. -/
def Record.names (r : Record) : List String := r.fields.map Field.name

/-- Whether a value stands for these members of a record: an object, in which nothing but the fields
counts, or the array of their values in order, from which those with a default may be left off at
the end. -/
inductive Record.Spells (r : Record) : Value → Object → Prop
  | object (o : Object) : r.Spells (.object o) (o.filter fun m => m.1 ∈ r.names)
  | array (vs : List Value) (hlength : vs.length ≤ r.fields.length)
      (hdrop : ∀ f ∈ r.fields.drop vs.length, f.presence = .defaulted) :
      r.Spells (.array vs) (r.names.zip vs)

theorem Object.get?_filter (p : String → Bool) (o : Object) (name : String) :
    Object.get? (o.filter fun m => p m.1) name = if p name then o.get? name else none := by
  induction o with
  | nil => simp [get?]
  | cons m o ih =>
    rw [List.filter_cons, get?_cons]
    by_cases hname : name = m.1
    · subst hname
      cases hp : p m.1 with
      | true => simp [get?_cons]
      | false => simpa [hp] using ih
    · rw [if_neg hname, ← ih]
      split
      · rw [get?_cons, if_neg hname]
      · rfl

theorem Object.get?_erase_of_ne {o : Object} {name other : String} (h : name ≠ other) :
    (o.erase other).get? name = o.get? name := by
  rw [erase, get?_filter fun n => n != other, if_pos (bne_iff_ne.2 h)]

theorem Object.get?_append (o ms : Object) (name : String) :
    Object.get? (o ++ ms) name = (o.get? name).or (ms.get? name) := List.lookup_append

/-- The member of a name is the last one that was set. -/
theorem Object.get?_insertAll (o : Object) (ms : List (String × Value)) (name : String) :
    (o.insertAll ms).get? name = (Object.get? ms.reverse name).or (o.get? name) := by
  induction ms generalizing o with
  | nil => rfl
  | cons m ms ih =>
    obtain ⟨n, v⟩ := m
    show ((o.insert n v).insertAll ms).get? name = _
    rw [ih, List.reverse_cons, get?_append, Option.or_assoc]
    congr 1
    by_cases hname : name = n
    · subst hname
      rw [get?_insert_self, get?_cons, if_pos rfl]
      rfl
    · rw [get?_insert_of_ne v hname, get?_cons, if_neg hname]
      rfl

/-- The order of members with distinct names does not count. -/
theorem Object.get?_of_perm {o o' : Object} (h : o.Perm o') (ho : o.names.Nodup) (name : String) :
    o.get? name = o'.get? name := by
  have ho' : o'.names.Nodup := (h.map _).nodup_iff.1 ho
  cases hget : o.get? name with
  | some v => exact (get?_of_mem ho' (h.subset (mem_of_get? hget))).symm
  | none =>
    rw [get?_eq_none_iff] at hget
    exact (get?_eq_none_iff.2 fun hmem => hget ((h.map _).mem_iff.2 hmem)).symm

theorem Record.mem_names_iff {r : Record} {name : String} :
    name ∈ r.names ↔ ∃ f ∈ r.fields, f.name = name := List.mem_map

/-- The members that a value stands for have the names of fields. -/
theorem Record.Spells.names_subset {r : Record} {v : Value} {entry : Object}
    (h : r.Spells v entry) : entry.names ⊆ r.names := by
  intro name hname
  obtain ⟨m, hm, rfl⟩ := List.mem_map.1 hname
  cases h with
  | object o => exact of_decide_eq_true (List.mem_filter.1 hm).2
  | array vs => exact (List.of_mem_zip hm).1

/-- Items are given names as far as there are any. -/
theorem Object.names_zip (names : List String) (vs : List Value) :
    Object.names (names.zip vs) = names.take vs.length := by
  induction names generalizing vs with
  | nil => simp [Object.names]
  | cons name names ih =>
    cases vs with
    | nil => rfl
    | cons v vs => exact congrArg (name :: ·) (ih vs)

/-- The members that a value stands for have distinct names. -/
theorem Record.Spells.nodup_names {r : Record} {v : Value} {entry : Object} (h : r.Spells v entry)
    (hr : r.names.Nodup) (hv : v.WellFormed) : entry.names.Nodup := by
  cases h with
  | object o => exact (Value.all_object.1 hv).1.sublist (List.filter_sublist.map _)
  | array vs =>
    rw [Object.names_zip]
    exact hr.sublist (List.take_sublist ..)

/-- The check of a field's member is the field's. -/
theorem Record.checkMember_of_mem {r : Record} {f : Field} (hr : r.names.Nodup) (hf : f ∈ r.fields)
    (v : Value) : r.checkMember f.name v = f.check v := by
  rw [checkMember, (find?_eq_some_iff hr).2 ⟨hf, rfl⟩]

theorem Record.checkMember_of_notMem {r : Record} {name : String} (hname : name ∉ r.names)
    (v : Value) : r.checkMember name v = .ok () := by
  rw [checkMember]
  split
  · next f hfind =>
    have hfound : f.name = name := by simpa using List.find?_some hfind
    exact absurd (mem_names_iff.2 ⟨f, List.mem_of_find?_eq_some hfind, hfound⟩) hname
  · rfl

/-- Members that are no fields do not count. -/
theorem Record.checkObject_filter_names {r : Record} (o : Object) :
    r.checkObject (o.filter fun m => m.1 ∈ r.names) = .ok () ↔ r.checkObject o = .ok () := by
  rw [checkObject_eq_ok_iff, checkObject_eq_ok_iff]
  apply and_congr
  · constructor
    · intro h m hm
      by_cases hname : m.1 ∈ r.names
      · exact h m (List.mem_filter.2 ⟨hm, decide_eq_true hname⟩)
      · exact checkMember_of_notMem hname m.2
    · exact fun h m hm => h m (List.mem_of_mem_filter hm)
  · refine forall₃_congr fun f hf _ => ?_
    rw [← Object.contains_iff, ← Object.contains_iff, Object.contains_eq_isSome,
      Object.contains_eq_isSome, Object.get?_filter (fun name => decide (name ∈ r.names)),
      if_pos (decide_eq_true (mem_names_iff.2 ⟨f, hf, rfl⟩))]

/-- What an array stands for is accepted if each field accepts its item. -/
theorem Record.checkObject_zip {r : Record} {vs : List Value} (hr : r.names.Nodup)
    (hdrop : ∀ f ∈ r.fields.drop vs.length, f.presence = .defaulted) :
    r.checkObject (r.names.zip vs) = .ok () ↔
      ∀ p ∈ r.fields.zip vs, p.1.check p.2 = .ok () := by
  have hmembers : (∀ m ∈ r.names.zip vs, r.checkMember m.1 m.2 = .ok ()) ↔
      ∀ p ∈ r.fields.zip vs, p.1.check p.2 = .ok () := by
    rw [names, List.zip_map_left, List.forall_mem_map]
    refine forall₂_congr fun p hp => ?_
    rw [← checkMember_of_mem hr (List.of_mem_zip hp).1 p.2]
    rfl
  rw [checkObject_eq_ok_iff, hmembers, and_iff_left_iff_imp]
  intro _ f hf hrequired
  -- a field that must be there is not among those that are left off
  rw [← List.take_append_drop vs.length r.fields, List.mem_append] at hf
  rcases hf with hf | hf
  · rw [Object.names_zip, names, ← List.map_take]
    exact List.mem_map_of_mem hf
  · rw [hdrop f hf] at hrequired
    cases hrequired

/-- Objects that hold the same under the names of the fields are accepted alike. -/
theorem Record.checkObject_congr {r : Record} {o o' : Object} (hr : r.names.Nodup) (ho : o.names.Nodup)
    (ho' : o'.names.Nodup) (h : ∀ name ∈ r.names, o.get? name = o'.get? name) :
    r.checkObject o = .ok () ↔ r.checkObject o' = .ok () := by
  rw [checkObject_eq_ok_iff_accepts hr ho,
    checkObject_eq_ok_iff_accepts hr ho']
  refine forall₂_congr fun f hf => ?_
  rw [h f.name (List.mem_map_of_mem hf)]

/-- A value is read if what it stands for is accepted. -/
theorem Record.Spells.read_isOk_iff {r : Record} {v : Value} {entry : Object} (h : r.Spells v entry)
    (hr : r.names.Nodup) : (∃ o, r.read v = .ok o) ↔ r.checkObject entry = .ok () := by
  cases h with
  | object o =>
    rw [checkObject_filter_names]
    constructor
    · rintro ⟨_, h⟩
      exact (read_object_eq_ok_iff.1 h).1
    · exact fun h => ⟨o, read_object_eq_ok_iff.2 ⟨h, rfl⟩⟩
  | array vs hlength hdrop =>
    rw [checkObject_zip hr hdrop]
    constructor
    · rintro ⟨_, h⟩
      exact (ofItems_eq_ok_iff.1 h).2.1
    · exact fun h => ⟨_, ofItems_eq_ok_iff.2 ⟨⟨hlength, hdrop⟩, h, rfl⟩⟩

/-- What is read of a value is what it stands for. -/
theorem Record.Spells.get?_of_read {r : Record} {v : Value} {entry o : Object}
    (h : r.Spells v entry) (hread : r.read v = .ok o) {name : String} (hname : name ∈ r.names) :
    o.get? name = entry.get? name := by
  cases h with
  | object ms =>
    obtain ⟨-, rfl⟩ := read_object_eq_ok_iff.1 hread
    rw [Object.get?_filter (fun name => decide (name ∈ r.names)), if_pos (decide_eq_true hname)]
  | array vs =>
    obtain ⟨-, -, rfl⟩ := ofItems_eq_ok_iff.1 hread
    rw [names, List.zip_map_left]
    rfl

theorem Record.exists_spells_of_read {r : Record} {v : Value} {o : Object}
    (hread : r.read v = .ok o) : ∃ entry, r.Spells v entry := by
  cases v with
  | object ms => exact ⟨_, .object ms⟩
  | array vs =>
    obtain ⟨⟨hlength, hdrop⟩, -⟩ := ofItems_eq_ok_iff.1 hread
    exact ⟨_, .array vs hlength hdrop⟩
  | _ => cases hread

end Json

end WebToken
