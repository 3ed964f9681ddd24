import WebToken.Proofs.Json.Documents

/-!
# Typed values in texts

A reader of documents goes along with the text and stops where it meets something else than it
wants. It takes what a reader of values takes of the value that is written, unless a name occurs
twice in an object: the text has both members, the value only one of them.

* `Agrees` : two readers that agree in this way;
* `agrees_asText`, `Agrees.optional`, `Agrees.asList` and `agrees_asChoice` : those of single values;
* `Skips` : nothing is taken that is cut off.
-/

namespace WebToken

namespace Json

/-! ## Typed values -/

/-- Whether a reader of documents takes what a reader of values takes of their values, unless a name
occurs twice in an object inside. -/
def Agrees {α : Type} (depth : Nat) (read : Document → Except ReadError α)
    (ofValue : Value → Except ReadError α) : Prop :=
  ∀ d : Document, d.Whole → ∀ a,
    read d = .ok a ↔ ∃ v, d.value depth = .ok v ∧ d.Distinct ∧ ofValue v = .ok a

theorem orFault_eq_ok_iff {α : Type} {r : Except Fault α} {a : α} :
    orFault r = .ok a ↔ r = .ok a := mapError_eq_ok_iff

theorem Document.refuse_ne_ok {α : Type} (d : Document) (expected : String) (a : α) :
    d.refuse expected ≠ .ok a := by
  rw [refuse]
  split <;> nofun

theorem Document.asText_eq_ok_iff {d : Document} {s : String} :
    d.asText = .ok s ↔ ∃ l, d = .string l ∧ l.text = .ok s := by
  cases d <;> simp [asText, refuse_ne_ok, orFault_eq_ok_iff]

theorem agrees_asText (depth : Nat) : Agrees depth Document.asText Value.asText := by
  intro d _ s
  rw [Document.asText_eq_ok_iff]
  simp only [Value.asText_eq_ok_iff]
  constructor
  · intro h
    rcases h with ⟨l, hd, hl⟩
    subst hd
    exact ⟨.string s, Document.value_eq_string_iff.2 ⟨l, rfl, hl⟩, trivial, rfl⟩
  · intro h
    rcases h with ⟨v, hv, _, hs⟩
    subst hs
    exact Document.value_eq_string_iff.1 hv

theorem Document.optional_of_ne_null {α : Type} (read : Document → Except ReadError α)
    {d : Document} (hd : d.Whole) (hnull : d ≠ .null) : d.optional read = (read d).map some := by
  cases d <;> first | rfl | exact absurd rfl hnull | exact absurd hd id

theorem Value.optional_of_ne_null {α : Type} (read : Value → Except ReadError α) {v : Value}
    (hnull : v ≠ .null) : v.optional read = (read v).map some := by
  cases v <;> first | rfl | exact absurd rfl hnull

variable {α : Type} {depth : Nat} {read : Document → Except ReadError α}
  {ofValue : Value → Except ReadError α}

theorem Agrees.optional (h : Agrees depth read ofValue) :
    Agrees depth (Document.optional read) (Value.optional ofValue) := by
  intro d hd a
  by_cases hnull : d = .null
  · subst hnull
    constructor
    · exact fun ha => ⟨.null, rfl, trivial, ha⟩
    · intro h
      rcases h with ⟨v, hv, _, ha⟩
      cases hv
      exact ha
  · rw [Document.optional_of_ne_null read hd hnull, map_eq_ok_iff]
    -- what is not written as null does not denote null
    have hne : ∀ v, d.value depth = .ok v → v ≠ .null := by
      intro v hv heq
      subst heq
      exact hnull (Document.value_eq_null_iff.1 hv)
    constructor
    · intro h
      rcases h with ⟨b, hb, hab⟩
      obtain ⟨v, hv, hdistinct, hb⟩ := (h d hd b).1 hb
      refine ⟨v, hv, hdistinct, ?_⟩
      rw [Value.optional_of_ne_null ofValue (hne v hv), map_eq_ok_iff]
      exact ⟨b, hb, hab⟩
    · intro h
      rcases h with ⟨v, hv, hdistinct, ha⟩
      rw [Value.optional_of_ne_null ofValue (hne v hv), map_eq_ok_iff] at ha
      obtain ⟨b, hb, hab⟩ := ha
      exact ⟨b, (h d hd b).2 ⟨v, hv, hdistinct, hb⟩, hab⟩

theorem Items.readAll_eq_ok_iff (h : Agrees depth read ofValue) {items : Items}
    (hitems : items.Whole) {as : List α} :
    items.readAll read = .ok as ↔
      ∃ vs, items.values depth = .ok vs ∧ items.Distinct ∧ vs.mapM ofValue = .ok as := by
  match items, hitems with
  | .done ending, hending =>
    rw [show ending = .closed from hending]
    constructor
    · exact fun has => ⟨[], rfl, trivial, has⟩
    · intro h
      rcases h with ⟨vs, hvs, _, has⟩
      cases hvs
      exact has
  | .item head tail, ⟨hhead, htail⟩ =>
    simp only [readAll, values, bind_eq_ok_iff, h head hhead, readAll_eq_ok_iff h htail]
    constructor
    · intro h
      rcases h with ⟨a, ⟨v, hv, hd, ha⟩, bs, ⟨vs, hvs, hds, hbs⟩, has⟩
      refine ⟨v :: vs, ⟨v, hv, vs, hvs, rfl⟩, ⟨hd, hds⟩, ?_⟩
      rw [List.mapM_cons, ha, hbs]
      exact has
    · intro h
      rcases h with ⟨_, ⟨v, hv, vs, hvs, heq⟩, ⟨hd, hds⟩, has⟩
      cases heq
      rw [List.mapM_cons, bind_eq_ok_iff] at has
      obtain ⟨a, ha, has⟩ := has
      obtain ⟨bs, hbs, has⟩ := bind_eq_ok_iff.1 has
      exact ⟨a, ⟨v, hv, hd, ha⟩, bs, ⟨vs, hvs, hds, hbs⟩, has⟩

theorem Value.asList_eq_ok_iff {v : Value} {as : List α} :
    v.asList ofValue = .ok as ↔ ∃ vs, v = .array vs ∧ vs.mapM ofValue = .ok as := by
  rw [asList, bind_eq_ok_iff]
  cases v with
  | array vs =>
    constructor
    · intro h
      rcases h with ⟨_, hvs, has⟩
      cases hvs
      exact ⟨vs, rfl, has⟩
    · intro h
      rcases h with ⟨_, hvs, has⟩
      cases hvs
      exact ⟨vs, rfl, has⟩
  | _ => simp [asItems, refuse]

theorem Agrees.asList (h : Agrees depth read ofValue) :
    Agrees (depth + 1) (Document.asList (depth + 1) read) (Value.asList ofValue) := by
  intro d hd as
  simp only [Value.asList_eq_ok_iff]
  constructor
  · intro has
    cases d with
    | array items =>
      have hread : items.readAll read = .ok as := has
      obtain ⟨vs, hvs, hdistinct, has⟩ := (Items.readAll_eq_ok_iff h hd).1 hread
      exact ⟨.array vs, Document.value_eq_array_iff.2 ⟨items, rfl, hvs⟩, hdistinct, vs, rfl, has⟩
    | _ => simp [Document.asList, Document.refuse_ne_ok] at has
  · intro h
    rcases h with ⟨v, hv, hdistinct, vs, hvs, has⟩
    subst hvs
    obtain ⟨items, hitems, hvs⟩ := Document.value_eq_array_iff.1 hv
    subst hitems
    exact (Items.readAll_eq_ok_iff h hd).2 ⟨vs, hvs, hdistinct, has⟩

/-! ## Choices -/

/-- A choice is a name, or an object with the name as its only member and null under it. -/
theorem Value.asChoice_eq_ok_iff {table : List (String × α)} {v : Value} {a : α} :
    v.asChoice table = .ok a ↔
      ∃ name, (v = .string name ∨ v = .object [(name, .null)]) ∧ choose table name = .ok a := by
  match v with
  | .string s => simp [asChoice]
  | .object [(name, content)] =>
    simp only [asChoice, bind_eq_ok_iff]
    cases content <;> simp [refuse]
  | .object [] => simp [asChoice]
  | .object (_ :: _ :: _) => simp [asChoice]
  | .null | .bool _ | .integer _ | .float _ | .array _ => simp [asChoice, refuse]

/-- The same for documents, in which the one member is written once. -/
theorem Document.asChoice_eq_ok_iff {table : List (String × α)} {d : Document} {a : α} :
    d.asChoice depth table = .ok a ↔
      ∃ l name, l.text = .ok name ∧ choose table name = .ok a ∧
        (d = .string l ∨ depth ≠ 0 ∧ d = .object (.member l .null (.done .closed))) := by
  cases d with
  | string l =>
    simp only [asChoice, bind_eq_ok_iff, orFault_eq_ok_iff]
    simp
  | object members =>
    cases depth with
    | zero => simp [asChoice]
    | succ n =>
      cases members with
      | done ending => cases ending <;> simp [asChoice]
      | member l content tail =>
        simp only [asChoice, bind_eq_ok_iff, orFault_eq_ok_iff]
        cases content with
        | null =>
          cases tail with
          | done ending => cases ending <;> simp
          | member _ _ _ => simp
        | _ => simp [refuse_ne_ok]
  | _ => simp [asChoice]

/-- The names of members that have values are those of the values. -/
theorem Members.names_of_values : ∀ {members : Members} {ms : List (String × Value)},
    members.values depth = .ok ms → members.names = ms.map fun m => .ok m.1
  | .done ending, ms, h => by
    rw [values, bind_eq_ok_iff] at h
    obtain ⟨_, _, h⟩ := h
    cases h
    rfl
  | .member l d tail, ms, h => by
    simp only [values, bind_eq_ok_iff] at h
    obtain ⟨name, hname, v, hv, ns, hns, h⟩ := h
    cases h
    rw [names, hname, names_of_values hns]
    rfl

/-- Members of distinct names denote an object of as many. -/
theorem Members.insertAll_of_distinct {members : Members} {ms : List (String × Value)}
    (h : members.values depth = .ok ms) (hnames : members.names.Nodup) :
    Object.insertAll [] ms = ms := by
  have hmap : ((Object.names ms).map (Except.ok : String → Except Fault String)).Nodup := by
    rw [Object.names, List.map_map]
    rwa [names_of_values h] at hnames
  have hnodup : Object.names ([] ++ ms) = Object.names ms := rfl
  rw [Object.insertAll_of_nodup (hnodup ▸ hmap.of_map _), List.nil_append]

/-- An object with a name as its only member, and null under it, is written so if no name is written
twice. -/
theorem Document.value_eq_single_iff {d : Document} (hd : d.Whole) {name : String} :
    (d.value depth = .ok (.object [(name, .null)]) ∧ d.Distinct) ↔
      ∃ l, l.text = .ok name ∧ depth ≠ 0 ∧ d = .object (.member l .null (.done .closed)) := by
  cases depth with
  | zero => cases d <;> simp [value, value_number_ne, map_eq_ok_iff]
  | succ n =>
    rw [value_eq_object_iff]
    constructor
    · intro h
      rcases h with ⟨⟨members, ms, hmembers, hms, ho⟩, hdistinct⟩
      subst hmembers
      -- no name is written twice, so as many members are written as the object has
      rw [Members.insertAll_of_distinct hms hdistinct.1] at ho
      subst ho
      cases members with
      | done ending =>
        rw [Members.values, bind_eq_ok_iff] at hms
        obtain ⟨_, _, hms⟩ := hms
        cases hms
      | member l content tail =>
        simp only [Members.values, bind_eq_ok_iff] at hms
        obtain ⟨_, hl, _, hcontent, rest, hrest, hms⟩ := hms
        cases hms
        cases value_eq_null_iff.1 hcontent
        cases tail with
        | done ending =>
          rw [show ending = .closed from hd.2.2]
          exact ⟨l, hl, Nat.succ_ne_zero n, rfl⟩
        | member _ _ _ =>
          simp only [Members.values, bind_eq_ok_iff] at hrest
          obtain ⟨_, _, _, _, _, _, hrest⟩ := hrest
          cases hrest
    · intro h
      rcases h with ⟨l, hl, _, hd⟩
      subst hd
      refine ⟨⟨_, [(name, .null)], rfl, ?_, rfl⟩, List.nodup_singleton _, trivial, trivial⟩
      rw [Members.values, hl]
      rfl

theorem agrees_asChoice (depth : Nat) (table : List (String × α)) :
    Agrees depth (Document.asChoice depth table) (Value.asChoice table) := by
  intro d hd a
  simp only [Document.asChoice_eq_ok_iff, Value.asChoice_eq_ok_iff]
  constructor
  · intro h
    rcases h with ⟨l, name, hl, hchoose, hform⟩
    rcases hform with rfl | ⟨hdepth, rfl⟩
    · exact ⟨.string name, Document.value_eq_string_iff.2 ⟨l, rfl, hl⟩, trivial, name, .inl rfl,
        hchoose⟩
    · obtain ⟨hv, hdistinct⟩ := (Document.value_eq_single_iff hd).2 ⟨l, hl, hdepth, rfl⟩
      exact ⟨_, hv, hdistinct, name, .inr rfl, hchoose⟩
  · intro h
    rcases h with ⟨v, hv, hdistinct, name, hform, hchoose⟩
    rcases hform with rfl | rfl
    · obtain ⟨l, hl, htext⟩ := Document.value_eq_string_iff.1 hv
      exact ⟨l, name, htext, hchoose, .inl hl⟩
    · obtain ⟨l, htext, hdepth, hl⟩ := (Document.value_eq_single_iff hd).1 ⟨hv, hdistinct⟩
      exact ⟨l, name, htext, hchoose, .inr ⟨hdepth, hl⟩⟩

/-! ## Nothing that is cut off -/

/-- Whether a reader takes nothing that cannot be passed over. -/
def Skips (read : Document → Except ReadError α) : Prop :=
  ∀ d a, read d = .ok a → d.skip = .ok ()

theorem skips_asText : Skips Document.asText := by
  intro d s h
  obtain ⟨l, rfl, hl⟩ := Document.asText_eq_ok_iff.1 h
  exact Literal.check_eq_ok_iff.2 (Literal.isClosed_of_text hl)

theorem skips_value (depth : Nat) : Skips fun d => orFault (d.value depth) := by
  intro d v h
  exact Document.skip_of_value d (orFault_eq_ok_iff.1 h)

theorem Skips.map {β : Type} (h : Skips read) (f : α → β) : Skips fun d => (read d).map f := by
  intro d b hb
  obtain ⟨a, ha, -⟩ := map_eq_ok_iff.1 hb
  exact h d a ha

theorem Skips.optional (h : Skips read) : Skips (Document.optional read) := by
  intro d a ha
  cases d with
  | null => rfl
  | brokenNull fault => cases ha
  | _ => exact h.map some _ a ha

theorem skips_asChoice (depth : Nat) (table : List (String × α)) :
    Skips (Document.asChoice depth table) := by
  intro d a h
  obtain ⟨l, name, hl, -, hform⟩ := Document.asChoice_eq_ok_iff.1 h
  have hclosed := Literal.check_eq_ok_iff.2 (Literal.isClosed_of_text hl)
  rcases hform with rfl | ⟨-, rfl⟩
  · exact hclosed
  · show (l.ending.check >>= fun _ => _) = _
    rw [hclosed]
    rfl

theorem Skips.readAll (h : Skips read) : ∀ (items : Items) {as : List α},
    items.readAll read = .ok as → items.skip = .ok ()
  | .done ending, as, has => by
    simp only [Items.readAll, bind_eq_ok_iff, orFault_eq_ok_iff] at has
    obtain ⟨_, hend, -⟩ := has
    rw [Items.skip, Fault.raise_eq_ok_iff]
    exact Ending.skippedItemFault_of_itemFault (Fault.raise_eq_ok_iff.1 hend)
  | .item head tail, as, has => by
    simp only [Items.readAll, bind_eq_ok_iff] at has
    obtain ⟨a, ha, bs, hbs, -⟩ := has
    rw [Items.skip, bind_eq_ok_iff]
    exact ⟨(), h head a ha, h.readAll tail hbs⟩

theorem Skips.asList (h : Skips read) (depth : Nat) : Skips (Document.asList depth read) := by
  intro d as has
  cases d with
  | array items =>
    rw [Document.asList] at has
    split at has
    · cases has
    · exact h.readAll items has
  | _ => simp [Document.asList, Document.refuse_ne_ok] at has

end Json

end WebToken
