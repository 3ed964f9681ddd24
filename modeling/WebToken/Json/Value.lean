import WebToken.Decimal.Double

/-!
# JSON values

Numbers are whole numbers of at most 64 bits or doubles; an object keeps its members in the order
in which their names were first written. Setting a member that is there replaces its value and
keeps its place (`Object.names_insert_of_mem`), and a new one goes last
(`Object.insert_of_notMem`).
-/

namespace WebToken

namespace Json

/-- A JSON value. -/
inductive Value where
  | null
  | bool (b : Bool)
  | integer (n : Int)
  | float (x : Double)
  | string (s : String)
  | array (items : List Value)
  | object (members : List (String × Value))
  deriving Repr, Inhabited

/-- The members of a JSON object, in order. -/
abbrev Object := List (String × Value)

namespace Object

/-- The names of the members, in order. -/
def names (o : Object) : List String := o.map (·.1)

/-- The value of a member. -/
def get? (o : Object) (name : String) : Option Value := o.lookup name

/-- Whether a member is present. -/
def contains (o : Object) (name : String) : Bool := o.any fun m => m.1 == name

/-- Set a member: in its place if it is there, else at the end. -/
def insert : Object → String → Value → Object
  | [], name, v => [(name, v)]
  | (n, w) :: rest, name, v =>
    if n = name then (n, v) :: rest else (n, w) :: insert rest name v

/-- The object without a member; the others keep their order. -/
def erase (o : Object) (name : String) : Object := o.filter fun m => m.1 != name

/-- Set several members, one after the other. -/
def insertAll (o : Object) (members : List (String × Value)) : Object :=
  members.foldl (fun o m => o.insert m.1 m.2) o

/-- The text that a member holds, if it holds one. -/
def text? (o : Object) (name : String) : Option String :=
  match o.get? name with
  | some (.string s) => some s
  | _ => none

theorem contains_iff {o : Object} {name : String} :
    o.contains name = true ↔ name ∈ o.names := by
  simp [contains, names]

/-- Setting a member that is there keeps the names and their order. -/
theorem names_insert_of_mem {o : Object} {name : String} (v : Value) (h : name ∈ o.names) :
    (o.insert name v).names = o.names := by
  induction o with
  | nil => simp [names] at h
  | cons m o ih =>
    obtain ⟨n, w⟩ := m
    by_cases hn : n = name
    · simp [insert, hn, names]
    · have : name ∈ names o := by
        simp only [names, List.map_cons, List.mem_cons] at h
        exact h.resolve_left (Ne.symm hn)
      simpa [insert, hn, names] using ih this

/-- A new member goes last. -/
theorem insert_of_notMem {o : Object} {name : String} (v : Value) (h : name ∉ o.names) :
    o.insert name v = o ++ [(name, v)] := by
  induction o with
  | nil => rfl
  | cons m o ih =>
    obtain ⟨n, w⟩ := m
    simp only [names, List.map_cons, List.mem_cons, not_or] at h
    simpa [insert, Ne.symm h.1] using ih h.2

/-- A member that was set is read back. -/
theorem get?_insert_self (o : Object) (name : String) (v : Value) :
    (o.insert name v).get? name = some v := by
  induction o with
  | nil => simp [insert, get?]
  | cons m o ih =>
    obtain ⟨n, w⟩ := m
    by_cases hn : n = name
    · simp [insert, hn, get?]
    · have hb : (name == n) = false := by simpa using Ne.symm hn
      simp only [insert, hn, if_false, get?, List.lookup_cons, hb]
      exact ih

/-- Setting a member leaves the others alone. -/
theorem get?_insert_of_ne {o : Object} {name other : String} (v : Value) (h : other ≠ name) :
    (o.insert name v).get? other = o.get? other := by
  have hb : (other == name) = false := by simpa using h
  induction o with
  | nil => simp [insert, get?, List.lookup_cons, hb]
  | cons m o ih =>
    obtain ⟨n, w⟩ := m
    by_cases hn : n = name
    · subst hn
      simp [insert, get?, List.lookup_cons, hb]
    · simp only [insert, hn, if_false, get?, List.lookup_cons]
      split
      · rfl
      · exact ih

/-- Setting a member keeps the names distinct. -/
theorem nodup_names_insert {o : Object} (name : String) (v : Value) (h : o.names.Nodup) :
    (o.insert name v).names.Nodup := by
  by_cases hm : name ∈ o.names
  · rwa [names_insert_of_mem v hm]
  · rw [insert_of_notMem v hm]
    simp only [names, List.map_append, List.map_cons, List.map_nil]
    rw [List.nodup_append]
    refine ⟨h, by simp, ?_⟩
    intro a ha b hb
    rintro rfl
    simp only [List.mem_singleton] at hb
    exact hm (hb ▸ ha)

end Object

/-! ## Equality up to the order of members -/

mutual

/-- Whether two values are the same when the order of members does not count and the zeros of
both signs are one number. -/
def Value.same : Value → Value → Bool
  | .null, .null => true
  | .bool a, .bool b => a == b
  | .integer a, .integer b => a == b
  | .float x, .float y => x.sameValue y
  | .string s, .string t => s == t
  | .array xs, .array ys => Value.sameItems xs ys
  | .object ms, .object ns => ms.length == ns.length && Value.sameMembers ms ns
  | _, _ => false

/-- Whether two lists of values are the same place by place. -/
def Value.sameItems : List Value → List Value → Bool
  | [], [] => true
  | x :: xs, y :: ys => x.same y && Value.sameItems xs ys
  | _, _ => false

/-- Whether every member on the left stands on the right with the same value. -/
def Value.sameMembers : List (String × Value) → List (String × Value) → Bool
  | [], _ => true
  | (name, v) :: ms, ns =>
    (match Object.get? ns name with
      | some w => v.same w
      | none => false) && Value.sameMembers ms ns

end

end Json

end WebToken
