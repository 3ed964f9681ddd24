import WebToken.Proofs.Json.Doubles
import WebToken.Proofs.Json.Same
import WebToken.Proofs.Json.WellFormed

/-!
# What the text of a value denotes

A value is printed and read back as itself, except that each double in it may come back different
in the last place. What comes back is `Value.reread`: it has the names, the texts and the nesting of
the value.

* `Value.reread_of_floatFree` : without a double a value comes back as it is;
* `Object.text?_reread` and `Object.contains_reread` : the members that come back hold the same
  texts.
-/

namespace WebToken

namespace Json

/-! ## Values read back -/

mutual

/-- The value that the text of a value denotes. -/
def Value.reread : Value → Value
  | .float x => .float x.reread
  | .array vs => .array (Value.rereadItems vs)
  | .object ms => .object (Value.rereadMembers ms)
  | v => v

/-- The items that their texts denote. -/
def Value.rereadItems : List Value → List Value
  | [] => []
  | v :: vs => v.reread :: Value.rereadItems vs

/-- The members that their texts denote. -/
def Value.rereadMembers : List (String × Value) → List (String × Value)
  | [] => []
  | (name, v) :: ms => (name, v.reread) :: Value.rereadMembers ms

end

/-- The object that the text of an object denotes. -/
def Object.reread (o : Object) : Object := Value.rereadMembers o

namespace Value

/-- Whether every double in a value is finite. -/
def FiniteDoubles (v : Value) : Prop := v.All fun w => ∀ x, w = .float x → x.IsFinite

mutual

/-- Without a double a value comes back as it is. -/
theorem reread_of_floatFree : ∀ v : Value, v.FloatFree → v.reread = v
  | .null, _ => rfl
  | .bool _, _ => rfl
  | .integer _, _ => rfl
  | .float x, h => absurd rfl (h x)
  | .string _, _ => rfl
  | .array vs, h => by rw [reread, rereadItems_of_floatFree vs h.2]
  | .object ms, h => by rw [reread, rereadMembers_of_floatFree ms h.2]

theorem rereadItems_of_floatFree : ∀ vs : List Value,
    AllItems (fun w => ∀ x, w ≠ .float x) vs → rereadItems vs = vs
  | [], _ => rfl
  | v :: vs, h => by
    rw [rereadItems, reread_of_floatFree v h.1, rereadItems_of_floatFree vs h.2]

theorem rereadMembers_of_floatFree : ∀ ms : List (String × Value),
    AllMembers (fun w => ∀ x, w ≠ .float x) ms → rereadMembers ms = ms
  | [], _ => rfl
  | (name, v) :: ms, h => by
    rw [rereadMembers, reread_of_floatFree v h.1, rereadMembers_of_floatFree ms h.2]

end

/-- Without a double, all doubles are finite. -/
theorem FloatFree.finiteDoubles {v : Value} (h : v.FloatFree) : v.FiniteDoubles :=
  All.mono (fun _ hw x hx => absurd hx (hw x)) h

end Value

/-! ## Members read back -/

namespace Object

theorem get?_reread (o : Object) (name : String) :
    o.reread.get? name = (o.get? name).map Value.reread := by
  unfold reread
  induction o with
  | nil => rfl
  | cons m o ih =>
    obtain ⟨n, v⟩ := m
    rw [Value.rereadMembers, get?_cons, get?_cons, ih]
    split <;> rfl

/-- The names come back in their order. -/
theorem names_reread (o : Object) : o.reread.names = o.names := by
  unfold reread
  induction o with
  | nil => rfl
  | cons m o ih =>
    obtain ⟨n, v⟩ := m
    simp only [names] at ih
    simp only [Value.rereadMembers, names, List.map_cons, ih]

theorem contains_reread (o : Object) (name : String) :
    o.reread.contains name = o.contains name := by
  rw [contains_eq_isSome, contains_eq_isSome, get?_reread, Option.isSome_map]

/-- A text comes back as it is. -/
theorem text?_reread (o : Object) (name : String) : o.reread.text? name = o.text? name := by
  unfold text?
  rw [get?_reread]
  cases o.get? name with
  | none => rfl
  | some v => cases v <;> rfl

end Object

end Json

end WebToken
