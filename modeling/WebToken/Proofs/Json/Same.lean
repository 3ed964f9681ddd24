import Mathlib
import WebToken.Json.Value

/-!
# Objects that are the same

Two objects that differ in the order of their members only cannot be told apart by looking for
members, and a text among the members is the same text.

* `Object.get?_of_same` : a member of one object is found in the other, with the same value;
* `Object.text?_of_same` and `Object.contains_of_same` : what is read from both is equal.
-/

namespace WebToken

namespace Json

namespace Object

/-! ## Looking for members -/

theorem get?_cons (m : String × Value) (o : Object) (name : String) :
    get? (m :: o) name = if name = m.1 then some m.2 else get? o name := by
  show List.lookup name (m :: o) = _
  rw [List.lookup_cons]
  by_cases h : name = m.1
  · rw [if_pos h, beq_iff_eq.2 h]
  · rw [if_neg h, beq_eq_false_iff_ne.2 h]
    rfl

theorem get?_eq_none_iff {o : Object} {name : String} : o.get? name = none ↔ name ∉ o.names := by
  induction o with
  | nil => exact ⟨fun _ => List.not_mem_nil, fun _ => rfl⟩
  | cons m o ih =>
    rw [get?_cons, names, List.map_cons, List.mem_cons, not_or]
    by_cases h : name = m.1
    · rw [if_pos h]
      constructor
      · intro hsome
        cases hsome
      · intro hn
        exact absurd h hn.1
    · rw [if_neg h]
      constructor
      · intro hn
        exact ⟨h, ih.1 hn⟩
      · intro hn
        exact ih.2 hn.2

/-- A member is present if looking for it gives a value. -/
theorem contains_eq_isSome (o : Object) (name : String) :
    o.contains name = (o.get? name).isSome := by
  rw [Bool.eq_iff_iff, contains_iff]
  cases h : o.get? name with
  | none => simp [get?_eq_none_iff.1 h]
  | some v =>
    have hm : name ∈ o.names := by
      apply Decidable.byContradiction
      intro hn
      rw [get?_eq_none_iff.2 hn] at h
      cases h
    simp [hm]

/-! ## Equality up to the order of members -/

/-- Every member on the left is found on the right, with the same value. -/
theorem get?_of_sameMembers {ms ns : Object} (h : Value.sameMembers ms ns = true) {name : String}
    {v : Value} (hv : ms.get? name = some v) :
    ∃ w, ns.get? name = some w ∧ v.same w = true := by
  -- on the members of the left object, which are looked for one after the other
  induction ms with
  | nil => cases hv
  | cons m ms ih =>
    rw [Value.sameMembers, Bool.and_eq_true] at h
    rw [get?_cons] at hv
    split at hv
    · next hname =>
      have hm := h.1
      rw [← hname, Option.some.inj hv] at hm
      split at hm
      · next w hw => exact ⟨w, hw, hm⟩
      · cases hm
    · exact ih h.2 hv

variable {ms ns : Object}

/-- The names on the left stand on the right. -/
theorem names_subset_of_sameMembers (h : Value.sameMembers ms ns = true) :
    ms.names ⊆ ns.names := by
  intro name hname
  have hsome := contains_iff.2 hname
  rw [contains_eq_isSome, Option.isSome_iff_exists] at hsome
  obtain ⟨v, hv⟩ := hsome
  obtain ⟨w, hw, -⟩ := get?_of_sameMembers h hv
  rw [← contains_iff, contains_eq_isSome, hw]
  rfl

/-- Nothing stands on the right that is not on the left: there would be more names than members,
if those on the left are distinct. -/
theorem names_subset_of_same (hn : ms.names.Nodup)
    (h : (Value.object ms).same (.object ns) = true) : ns.names ⊆ ms.names := by
  rw [Value.same, Bool.and_eq_true, beq_iff_eq] at h
  have hsub := names_subset_of_sameMembers h.2
  intro name hname
  apply Decidable.byContradiction
  intro hnot
  have hcons : (name :: ms.names).Nodup := List.nodup_cons.2 ⟨hnot, hn⟩
  have hle := hcons.length_le_of_subset (List.cons_subset.2 ⟨hname, hsub⟩)
  rw [List.length_cons, names, names, List.length_map, List.length_map] at hle
  omega

/-- Looking for a member in two objects that are the same gives the same value, or none in
both. -/
theorem get?_of_same (hn : ms.names.Nodup) (h : (Value.object ms).same (.object ns) = true)
    (name : String) :
    (ms.get? name = none ∧ ns.get? name = none) ∨
      ∃ v w, ms.get? name = some v ∧ ns.get? name = some w ∧ v.same w = true := by
  have hsub := names_subset_of_same hn h
  rw [Value.same, Bool.and_eq_true] at h
  cases hv : ms.get? name with
  | none =>
    have hnot := get?_eq_none_iff.1 hv
    exact .inl ⟨rfl, get?_eq_none_iff.2 fun hm => hnot (hsub hm)⟩
  | some v =>
    obtain ⟨w, hw, hsame⟩ := get?_of_sameMembers h.2 hv
    exact .inr ⟨v, w, rfl, hw, hsame⟩

theorem contains_of_same (hn : ms.names.Nodup) (h : (Value.object ms).same (.object ns) = true)
    (name : String) : ms.contains name = ns.contains name := by
  rw [contains_eq_isSome, contains_eq_isSome]
  obtain ⟨hv, hw⟩ | ⟨v, w, hv, hw, -⟩ := get?_of_same hn h name
  · rw [hv, hw]
  · rw [hv, hw]
    rfl

/-- A text is the same as itself only. -/
theorem text?_of_same (hn : ms.names.Nodup) (h : (Value.object ms).same (.object ns) = true)
    (name : String) : ms.text? name = ns.text? name := by
  unfold text?
  obtain ⟨hv, hw⟩ | ⟨v, w, hv, hw, hsame⟩ := get?_of_same hn h name
  · rw [hv, hw]
  · rw [hv, hw]
    cases v with
    | string s =>
      cases w with
      | string t => rw [beq_iff_eq.1 hsame]
      | _ => cases hsame
    | _ =>
      cases w with
      | string t => cases hsame
      | _ => rfl

end Object

end Json

end WebToken
