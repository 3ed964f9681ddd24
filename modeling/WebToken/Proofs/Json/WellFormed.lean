import WebToken.Json.Document
import WebToken.Proofs.Except

/-!
# Values that a JSON text can denote

A reader gives whole numbers of 64 bits only, and objects in which no name stands twice. This is a
property of a value and of every value inside it (`Value.All`), and so is the absence of doubles,
which are not always read as they were printed.

* `Value.wellFormed_of_parse` : whatever is read is well formed.
-/

namespace WebToken

namespace Json

/-! ## Properties of a value and all values inside it -/

mutual

/-- Whether a property holds of a value and of every value inside it. -/
def Value.All (p : Value → Prop) : Value → Prop
  | .array vs => p (.array vs) ∧ Value.AllItems p vs
  | .object ms => p (.object ms) ∧ Value.AllMembers p ms
  | v => p v

/-- Whether a property holds of the items and of every value inside them. -/
def Value.AllItems (p : Value → Prop) : List Value → Prop
  | [] => True
  | v :: vs => v.All p ∧ Value.AllItems p vs

/-- Whether a property holds of the members and of every value inside them. -/
def Value.AllMembers (p : Value → Prop) : List (String × Value) → Prop
  | [] => True
  | (_, v) :: ms => v.All p ∧ Value.AllMembers p ms

end

namespace Value

theorem allItems_iff {p : Value → Prop} {vs : List Value} :
    AllItems p vs ↔ ∀ v ∈ vs, v.All p := by
  induction vs with
  | nil => simp [AllItems]
  | cons v vs ih => simp [AllItems, ih]

theorem allMembers_iff {p : Value → Prop} {ms : Object} :
    AllMembers p ms ↔ ∀ m ∈ ms, m.2.All p := by
  induction ms with
  | nil => simp [AllMembers]
  | cons m ms ih =>
    obtain ⟨name, v⟩ := m
    simp [AllMembers, ih]

theorem all_array {p : Value → Prop} {vs : List Value} :
    (Value.array vs).All p ↔ p (.array vs) ∧ ∀ v ∈ vs, v.All p := by
  rw [All, allItems_iff]

theorem all_object {p : Value → Prop} {ms : Object} :
    (Value.object ms).All p ↔ p (.object ms) ∧ ∀ m ∈ ms, m.2.All p := by
  rw [All, allMembers_iff]

mutual

/-- A property that follows from another follows everywhere in a value. -/
theorem All.mono {p q : Value → Prop} (hpq : ∀ v, p v → q v) : ∀ {v : Value}, v.All p → v.All q
  | .null, h => hpq _ h
  | .bool _, h => hpq _ h
  | .integer _, h => hpq _ h
  | .float _, h => hpq _ h
  | .string _, h => hpq _ h
  | .array _, h => ⟨hpq _ h.1, AllItems.mono hpq h.2⟩
  | .object _, h => ⟨hpq _ h.1, AllMembers.mono hpq h.2⟩

theorem AllItems.mono {p q : Value → Prop} (hpq : ∀ v, p v → q v) :
    ∀ {vs : List Value}, AllItems p vs → AllItems q vs
  | [], _ => trivial
  | _ :: _, h => ⟨All.mono hpq h.1, AllItems.mono hpq h.2⟩

theorem AllMembers.mono {p q : Value → Prop} (hpq : ∀ v, p v → q v) :
    ∀ {ms : List (String × Value)}, AllMembers p ms → AllMembers q ms
  | [], _ => trivial
  | (_, _) :: _, h => ⟨All.mono hpq h.1, AllMembers.mono hpq h.2⟩

end

/-- What a text can denote at one place: whole numbers of 64 bits, and distinct names. -/
def Regular : Value → Prop
  | .integer n => -2 ^ 63 ≤ n ∧ n < 2 ^ 64
  | .object ms => (Object.names ms).Nodup
  | _ => True

/-- Whether all whole numbers in a value have 64 bits and no object has a name twice. -/
def WellFormed (v : Value) : Prop := v.All Regular

/-- Whether no double occurs in a value. -/
def FloatFree (v : Value) : Prop := v.All fun w => ∀ x, w ≠ .float x

/-! ## Nesting -/

end Value

mutual

/-- How deep arrays and objects are nested in a value. -/
def Value.depth : Value → Nat
  | .array vs => Value.depthItems vs + 1
  | .object ms => Value.depthMembers ms + 1
  | _ => 0

/-- How deep arrays and objects are nested in the items. -/
def Value.depthItems : List Value → Nat
  | [] => 0
  | v :: vs => max v.depth (Value.depthItems vs)

/-- How deep arrays and objects are nested in the members. -/
def Value.depthMembers : List (String × Value) → Nat
  | [] => 0
  | (_, v) :: ms => max v.depth (Value.depthMembers ms)

end

namespace Value

theorem depthItems_le_iff {vs : List Value} {n : Nat} :
    depthItems vs ≤ n ↔ ∀ v ∈ vs, v.depth ≤ n := by
  induction vs with
  | nil => simp [depthItems]
  | cons v vs ih => simp [depthItems, ih]

theorem depthMembers_le_iff {ms : Object} {n : Nat} :
    depthMembers ms ≤ n ↔ ∀ m ∈ ms, m.2.depth ≤ n := by
  induction ms with
  | nil => simp [depthMembers]
  | cons m ms ih =>
    obtain ⟨name, v⟩ := m
    simp [depthMembers, ih]

end Value

/-! ## Members of objects -/

namespace Object

theorem mem_of_get? {o : Object} {name : String} {v : Value} (h : o.get? name = some v) :
    (name, v) ∈ o := by
  obtain ⟨l₁, l₂, rfl, -⟩ := List.lookup_eq_some_iff.1 h
  simp

/-- A member that is set is there afterwards, and the others are those of before. -/
theorem mem_insert {o : Object} {name : String} {v : Value} {m : String × Value}
    (h : m ∈ o.insert name v) : m = (name, v) ∨ m ∈ o := by
  induction o with
  | nil => exact .inl (List.mem_singleton.1 h)
  | cons n o ih =>
    obtain ⟨n, w⟩ := n
    unfold insert at h
    split at h
    · next hn =>
      subst hn
      rcases List.mem_cons.1 h with rfl | h
      · exact .inl rfl
      · exact .inr (List.mem_cons_of_mem _ h)
    · rcases List.mem_cons.1 h with rfl | h
      · exact .inr (List.mem_cons_self ..)
      · exact (ih h).imp_right (List.mem_cons_of_mem _)

/-- Setting several members keeps names distinct, and puts in nothing else. -/
theorem insertAll_invariant {p : Value → Prop} (ms : List (String × Value)) {o : Object}
    (ho : o.names.Nodup ∧ ∀ m ∈ o, p m.2) (hms : ∀ m ∈ ms, p m.2) :
    (o.insertAll ms).names.Nodup ∧ ∀ m ∈ o.insertAll ms, p m.2 := by
  induction ms generalizing o with
  | nil => exact ho
  | cons m ms ih =>
    refine ih ⟨nodup_names_insert _ _ ho.1, fun k hk => ?_⟩ fun k hk => hms k (by simp [hk])
    rcases mem_insert hk with rfl | hk
    · exact hms m (by simp)
    · exact ho.2 k hk

/-- Members of distinct names are set one after the other. -/
theorem insertAll_of_nodup {o ms : Object} (h : (o ++ ms).names.Nodup) :
    o.insertAll ms = o ++ ms := by
  induction ms generalizing o with
  | nil => simp [insertAll]
  | cons m ms ih =>
    obtain ⟨name, v⟩ := m
    have hn : name ∉ o.names := by
      intro hmem
      simp only [names, List.map_append, List.map_cons] at h
      exact (List.nodup_append.1 h).2.2 name hmem name (by simp) rfl
    -- a new name is put behind the others
    have hins : o.insert name v = o ++ [(name, v)] := insert_of_notMem v hn
    show (o.insert name v).insertAll ms = _
    rw [hins, ih (by simpa using h)]
    simp

/-- Objects without a common name, each with distinct names, have distinct names together. -/
theorem nodup_names_append {o ms : Object} (ho : o.names.Nodup) (hm : ms.names.Nodup)
    (hd : ∀ name ∈ ms.names, name ∉ o.names) : (o ++ ms).names.Nodup := by
  simp only [names, List.map_append]
  refine List.nodup_append.2 ⟨ho, hm, ?_⟩
  rintro a ha b hb rfl
  exact hd a hb ha

end Object

/-! ## Whatever is read is well formed -/

theorem Value.wellFormed_integer {n : Int} :
    (Value.integer n).WellFormed ↔ -2 ^ 63 ≤ n ∧ n < 2 ^ 64 := Iff.rfl

/-- A whole number that a numeral denotes has 64 bits. -/
theorem Numeral.bounds_toInteger? {x : Numeral} {n : Int} (h : x.toInteger? = some n) :
    -2 ^ 63 ≤ n ∧ n < 2 ^ 64 := by
  unfold toInteger? at h
  split at h
  · cases h
  · simp only at h
    split at h
    · split at h
      · rw [← Option.some.inj h]; omega
      · cases h
    · split at h
      · rw [← Option.some.inj h]; omega
      · cases h

/-- A numeral denotes a whole number or a double. -/
theorem Numeral.number_of_value {x : Numeral} {v : Value} (h : x.value = .ok v) :
    (∃ n, x.toInteger? = some n ∧ v = .integer n) ∨
      ∃ d, x.toDouble? = some d ∧ v = .float d := by
  rw [value.eq_def] at h
  cases hn : x.toInteger? with
  | some n =>
    rw [hn] at h
    exact .inl ⟨n, rfl, (Except.ok.inj h).symm⟩
  | none =>
    rw [hn] at h
    cases hd : x.toDouble? with
    | some d =>
      rw [hd] at h
      exact .inr ⟨d, rfl, (Except.ok.inj h).symm⟩
    | none => rw [hd] at h; cases h

theorem Numeral.wellFormed_value {x : Numeral} {v : Value} (h : x.value = .ok v) :
    v.WellFormed := by
  rcases number_of_value h with ⟨n, hn, rfl⟩ | ⟨d, -, rfl⟩
  · exact Value.wellFormed_integer.2 (bounds_toInteger? hn)
  · exact trivial

/-- A property that holds of every scalar that is read, of every array, and of every object with
distinct names. -/
structure Value.HoldsAsRead (p : Value → Prop) : Prop where
  null : p .null
  bool : ∀ b, p (.bool b)
  number : ∀ (x : Numeral) (v : Value), x.value = .ok v → v.All p
  string : ∀ s, p (.string s)
  array : ∀ vs, p (.array vs)
  object : ∀ ms : Object, ms.names.Nodup → p (.object ms)

section

variable {p : Value → Prop}

mutual

/-- Such a property holds everywhere in the value of a document. -/
theorem Document.all_value (hp : Value.HoldsAsRead p) : ∀ (d : Document) {depth : Nat} {v : Value},
    d.value depth = .ok v → v.All p
  | .null, depth, v, h => by
    rw [Document.value] at h
    cases h
    exact hp.null
  | .bool b, depth, v, h => by
    rw [Document.value] at h
    cases h
    exact hp.bool b
  | .number x, depth, v, h => by
    rw [Document.value] at h
    exact hp.number x v h
  | .string l, depth, v, h => by
    rw [Document.value] at h
    obtain ⟨s, -, rfl⟩ := map_eq_ok_iff.1 h
    exact hp.string s
  | .array items, 0, v, h => by
    rw [Document.value] at h
    cases h
  | .array items, depth + 1, v, h => by
    rw [Document.value] at h
    obtain ⟨vs, hvs, rfl⟩ := map_eq_ok_iff.1 h
    exact Value.all_array.2 ⟨hp.array vs, Items.all_values hp items hvs⟩
  | .object members, 0, v, h => by
    rw [Document.value] at h
    cases h
  | .object members, depth + 1, v, h => by
    rw [Document.value] at h
    obtain ⟨ms, hms, rfl⟩ := map_eq_ok_iff.1 h
    -- setting the members one after the other makes their names distinct
    obtain ⟨hnames, hvalues⟩ := Object.insertAll_invariant (p := Value.All p) ms (o := [])
      ⟨by simp [Object.names], by simp⟩ (Members.all_values hp members hms)
    exact Value.all_object.2 ⟨hp.object _ hnames, hvalues⟩
  | .brokenNull _, depth, v, h => by
    rw [Document.value] at h
    cases h
  | .brokenWord _, depth, v, h => by
    rw [Document.value] at h
    cases h
  | .brokenNumber _, depth, v, h => by
    rw [Document.value] at h
    cases h
  | .cut _, depth, v, h => by
    rw [Document.value] at h
    cases h

theorem Items.all_values (hp : Value.HoldsAsRead p) : ∀ (items : Items) {depth : Nat}
    {vs : List Value}, items.values depth = .ok vs → ∀ v ∈ vs, v.All p
  | .done ending, depth, vs, h => by
    rw [Items.values, bind_eq_ok_iff] at h
    obtain ⟨_, -, h⟩ := h
    cases h
    exact nofun
  | .item head tail, depth, vs, h => by
    simp only [Items.values, bind_eq_ok_iff] at h
    obtain ⟨v, hv, ws, hws, h⟩ := h
    cases h
    exact List.forall_mem_cons.2
      ⟨Document.all_value hp head hv, Items.all_values hp tail hws⟩

theorem Members.all_values (hp : Value.HoldsAsRead p) : ∀ (members : Members) {depth : Nat}
    {ms : List (String × Value)}, members.values depth = .ok ms → ∀ m ∈ ms, m.2.All p
  | .done ending, depth, ms, h => by
    rw [Members.values, bind_eq_ok_iff] at h
    obtain ⟨_, -, h⟩ := h
    cases h
    exact nofun
  | .member name value tail, depth, ms, h => by
    simp only [Members.values, bind_eq_ok_iff] at h
    obtain ⟨n, -, v, hv, ns, hns, h⟩ := h
    cases h
    exact List.forall_mem_cons.2
      ⟨Document.all_value hp value hv, Members.all_values hp tail hns⟩

end

end

theorem Value.holdsAsRead_regular : HoldsAsRead Regular where
  null := trivial
  bool := fun _ => trivial
  number := fun _ _ h => Numeral.wellFormed_value h
  string := fun _ => trivial
  array := fun _ => trivial
  object := fun _ h => h

/-- The value of a document is well formed. -/
theorem Document.wellFormed_value (d : Document) {depth : Nat} {v : Value}
    (h : d.value depth = .ok v) : v.WellFormed :=
  all_value Value.holdsAsRead_regular d h

/-- The values of members are well formed. -/
theorem Members.wellFormed_values (members : Members) {depth : Nat} {ms : List (String × Value)}
    (h : members.values depth = .ok ms) : ∀ m ∈ ms, m.2.WellFormed :=
  all_values Value.holdsAsRead_regular members h

/-- Reading a whole text gives what its document is decoded as. -/
theorem decode_of_readAll {ε α : Type} {fault : Fault → ε} {decode : Document → Except ε α}
    {text : Bytes} {a : α} (h : readAll fault decode text = .ok a) :
    decode (Document.read text).1 = .ok a := by
  obtain ⟨b, hb, h⟩ := bind_eq_ok_iff.1 h
  split at h
  · cases h
  · exact hb.trans h

/-- A whole text is read as its document is decoded, if nothing stands behind that. -/
theorem readAll_of_read {ε α : Type} {fault : Fault → ε} {decode : Document → Except ε α}
    {text : Bytes} {d : Document} {a : α} (hread : Document.read text = (d, some []))
    (ha : decode d = .ok a) : readAll fault decode text = .ok a := by
  unfold readAll
  rw [hread]
  simp only [ha, bind, Except.bind]
  rfl

/-- Whatever is read is well formed. -/
theorem Value.wellFormed_of_parse {text : Bytes} {v : Value} (h : parse text = .ok v) :
    v.WellFormed :=
  Document.wellFormed_value _ (decode_of_readAll h)

end Json

end WebToken
