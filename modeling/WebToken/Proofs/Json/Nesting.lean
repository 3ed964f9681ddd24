import WebToken.Proofs.Json.RoundTrip

/-!
# Documents that are nested too deep

A reader gives up where arrays and objects are nested deeper than it goes. A document that has a
value for some reader has the same value for every other reader that goes deep enough, and is nested
too deep for all others. A printer does not look at the nesting, so the texts of values that are
nested deeper than the reader goes are written, but not read.

* `Document.fits_of_value` : one document and readers that go to different depths;
* `parse_encode_of_depth` : what is read of the text of a value, whatever its nesting.
-/

namespace WebToken

namespace Json

/-! ## Values read back -/

mutual

/-- A value that is read back is nested as deep as before. -/
theorem Value.depth_reread : ∀ v : Value, v.reread.depth = v.depth
  | .null => by simp only [Value.reread, Value.depth]
  | .bool _ => by simp only [Value.reread, Value.depth]
  | .integer _ => by simp only [Value.reread, Value.depth]
  | .float _ => by simp only [Value.reread, Value.depth]
  | .string _ => by simp only [Value.reread, Value.depth]
  | .array vs => by
    rw [Value.reread, Value.depth, Value.depth_rereadItems vs, Value.depth]
  | .object ms => by
    rw [Value.reread, Value.depth, Value.depth_rereadMembers ms, Value.depth]

theorem Value.depth_rereadItems : ∀ vs : List Value,
    Value.depthItems (Value.rereadItems vs) = Value.depthItems vs
  | [] => rfl
  | v :: vs => by
    rw [Value.rereadItems, Value.depthItems, Value.depth_reread v, Value.depth_rereadItems vs,
      Value.depthItems]

theorem Value.depth_rereadMembers : ∀ ms : List (String × Value),
    Value.depthMembers (Value.rereadMembers ms) = Value.depthMembers ms
  | [] => rfl
  | (_, v) :: ms => by
    rw [Value.rereadMembers, Value.depthMembers, Value.depth_reread v,
      Value.depth_rereadMembers ms, Value.depthMembers]

end

/-! ## Readers of different depths -/

/-- Whether a reader reads something that fits, or finds it nested too deep. -/
def Fits {α : Type} (r : Except Fault α) (a : α) (fits : Prop) : Prop :=
  r = .ok a ∧ fits ∨ r = .error .nestedTooDeep

namespace Fits

variable {α β : Type} {r : Except Fault α} {a : α} {b : β} {p q : Prop}

theorem map {f : α → β} (h : Fits r a p) (hpq : p → q) : Fits (r.map f) (f a) q := by
  rcases h with ⟨rfl, hp⟩ | rfl
  · exact .inl ⟨rfl, hpq hp⟩
  · exact .inr rfl

/-- What is read one after the other fits if each part does. -/
theorem bind {f : α → Except Fault β} (h : Fits r a p) (hf : p → Fits (f a) b q) :
    Fits (r >>= f) b q := by
  rcases h with ⟨rfl, hp⟩ | rfl
  · exact hf hp
  · exact .inr rfl

end Fits

mutual

/-- A document that has a value for one reader has it for another one that goes deep enough, and is
nested too deep for it otherwise. -/
theorem Document.fits_of_value (depth : Nat) : ∀ (d : Document) {k : Nat} {v : Value},
    d.value k = .ok v → Fits (d.value depth) v (v.depth ≤ depth)
  | .null, k, v, h => by
    rw [Document.value] at h ⊢
    cases h
    exact .inl ⟨rfl, Nat.zero_le _⟩
  | .bool b, k, v, h => by
    rw [Document.value] at h ⊢
    cases h
    exact .inl ⟨rfl, Nat.zero_le _⟩
  | .number x, k, v, h => by
    rw [Document.value] at h ⊢
    refine .inl ⟨h, ?_⟩
    rcases Numeral.number_of_value h with ⟨n, -, rfl⟩ | ⟨y, -, rfl⟩ <;> exact Nat.zero_le _
  | .string l, k, v, h => by
    rw [Document.value] at h ⊢
    obtain ⟨s, -, rfl⟩ := map_eq_ok_iff.1 h
    exact .inl ⟨h, Nat.zero_le _⟩
  | .array items, 0, v, h => by
    rw [Document.value] at h
    cases h
  | .array items, k + 1, v, h => by
    rw [Document.value] at h
    obtain ⟨vs, hvs, rfl⟩ := map_eq_ok_iff.1 h
    cases depth with
    | zero =>
      rw [Document.value]
      exact .inr rfl
    | succ depth =>
      rw [Document.value]
      exact (Items.fits_of_values depth items hvs).map fun hfits =>
        Nat.succ_le_succ (Value.depthItems_le_iff.2 hfits)
  | .object members, 0, v, h => by
    rw [Document.value] at h
    cases h
  | .object members, k + 1, v, h => by
    rw [Document.value] at h
    obtain ⟨ms, hms, rfl⟩ := map_eq_ok_iff.1 h
    cases depth with
    | zero =>
      rw [Document.value]
      exact .inr rfl
    | succ depth =>
      rw [Document.value]
      refine (Members.fits_of_values depth members hms).map fun hfits => ?_
      -- the members that are set are among those that were read
      have hset := Object.insertAll_invariant (p := fun w => w.depth ≤ depth) ms (o := [])
        ⟨List.nodup_nil, List.forall_mem_nil _⟩ hfits
      exact Nat.succ_le_succ (Value.depthMembers_le_iff.2 hset.2)
  | .brokenNull _, k, v, h => by
    rw [Document.value] at h
    cases h
  | .brokenWord _, k, v, h => by
    rw [Document.value] at h
    cases h
  | .brokenNumber _, k, v, h => by
    rw [Document.value] at h
    cases h
  | .cut _, k, v, h => by
    rw [Document.value] at h
    cases h

theorem Items.fits_of_values (depth : Nat) : ∀ (items : Items) {k : Nat} {vs : List Value},
    items.values k = .ok vs → Fits (items.values depth) vs (∀ v ∈ vs, v.depth ≤ depth)
  | .done ending, k, vs, h => by
    rw [Items.values] at h ⊢
    obtain ⟨_, -, hnil⟩ := bind_eq_ok_iff.1 h
    cases hnil
    exact .inl ⟨h, List.forall_mem_nil _⟩
  | .item head tail, k, vs, h => by
    simp only [Items.values, bind_eq_ok_iff] at h
    obtain ⟨v, hv, ws, hws, h⟩ := h
    cases h
    rw [Items.values]
    refine (Document.fits_of_value depth head hv).bind fun hhead => ?_
    refine (Items.fits_of_values depth tail hws).bind fun htail => ?_
    exact .inl ⟨rfl, List.forall_mem_cons.2 ⟨hhead, htail⟩⟩

theorem Members.fits_of_values (depth : Nat) : ∀ (members : Members) {k : Nat}
    {ms : List (String × Value)}, members.values k = .ok ms →
    Fits (members.values depth) ms (∀ m ∈ ms, m.2.depth ≤ depth)
  | .done ending, k, ms, h => by
    rw [Members.values] at h ⊢
    obtain ⟨_, -, hnil⟩ := bind_eq_ok_iff.1 h
    cases hnil
    exact .inl ⟨h, List.forall_mem_nil _⟩
  | .member name value tail, k, ms, h => by
    simp only [Members.values, bind_eq_ok_iff] at h
    obtain ⟨n, hn, v, hv, ns, hns, h⟩ := h
    cases h
    rw [Members.values, hn]
    refine (Document.fits_of_value depth value hv).bind fun hvalue => ?_
    refine (Members.fits_of_values depth tail hns).bind fun htail => ?_
    exact .inl ⟨rfl, List.forall_mem_cons.2 ⟨hvalue, htail⟩⟩

end

/-- A document is nested too deep for a reader that does not go as deep as its value is nested. -/
theorem Document.value_eq_nestedTooDeep {d : Document} {k depth : Nat} {v : Value}
    (h : d.value k = .ok v) (hd : depth < v.depth) : d.value depth = .error .nestedTooDeep :=
  (fits_of_value depth d h).resolve_left fun hfits => Nat.not_le.2 hd hfits.2

/-! ## Texts of values -/

/-- The text of a value denotes the value read back, unless the value is nested too deep. -/
theorem parse_encode_of_depth {v : Value} (hw : v.WellFormed) (hf : v.FiniteDoubles) :
    parse v.encode =
      if v.depth ≤ Document.maxDepth then .ok v.reread else .error .nestedTooDeep := by
  by_cases hd : v.depth ≤ Document.maxDepth
  · rw [if_pos hd]
    exact parse_encode_reread hw hf hd
  · obtain ⟨fuel, hfuel, hdoc⟩ := Document.read_encode v
    obtain ⟨d, hread, hvalue⟩ := Document.readValue_chars v hw hf fuel [] hfuel Numeral.ends_nil
    have hdeep : d.value Document.maxDepth = .error .nestedTooDeep := by
      refine Document.value_eq_nestedTooDeep (hvalue _ (le_refl _)) ?_
      rw [Value.depth_reread]
      exact Nat.not_le.1 hd
    rw [if_neg hd, parse, readAll, hdoc, hread]
    show (d.value Document.maxDepth >>= fun _ => _) = _
    rw [hdeep]
    rfl

end Json

end WebToken
