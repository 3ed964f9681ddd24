import WebToken.Bytes
import WebToken.Error

/-!
# Computations with ranges

Some operations have a range: a string is cut where it is long enough, a number is taken from one
that is not smaller, a sum of two numbers of 64 bits has 64 bits again. A computation that uses such
an operation out of its range stops there, without a result and without an error (`Ranged.out`).
-/

namespace WebToken

/-- A computation that can fail, and has no outcome if an operation is used out of its range. -/
abbrev Ranged (α : Type) := ExceptT Error Option α

namespace Ranged

variable {α β : Type}

/-- An operation that is used out of its range. -/
def out : Ranged α := ExceptT.mk none

/-- A computation that stays in all ranges. -/
def within (x : Except Error α) : Ranged α := ExceptT.mk (some x)

/-- How a computation ends, if it stays in all ranges. -/
def outcome (x : Ranged α) : Ranged (Except Error α) := ExceptT.lift x.run

theorem within_ok (a : α) : within (.ok a) = pure a := rfl

theorem within_ne_out (x : Except Error α) : within x ≠ out := nofun

theorem within_eq_pure_iff {x : Except Error α} {a : α} : within x = pure a ↔ x = .ok a :=
  ⟨fun h => Option.some.inj h, fun h => congrArg within h⟩

theorem within_eq_throw_iff {x : Except Error α} {e : Error} :
    within x = throw e ↔ x = .error e :=
  ⟨fun h => Option.some.inj h, fun h => congrArg within h⟩

theorem outcome_within (x : Except Error α) : outcome (within x) = pure x := rfl

/-- A computation stops, fails, or has a result. -/
theorem cases_of (x : Ranged α) : x = out ∨ (∃ e, x = throw e) ∨ ∃ a, x = pure a :=
  match x with
  | none => .inl rfl
  | some (.error e) => .inr (.inl ⟨e, rfl⟩)
  | some (.ok a) => .inr (.inr ⟨a, rfl⟩)

/-- Steps have a result if the first one has one and the others have one from there. -/
theorem bind_eq_pure_iff {x : Ranged α} {f : α → Ranged β} {b : β} :
    (x >>= f) = pure b ↔ ∃ a, x = pure a ∧ f a = pure b := by
  rcases cases_of x with rfl | ⟨e, rfl⟩ | ⟨a, rfl⟩
  · exact ⟨nofun, nofun⟩
  · exact ⟨nofun, nofun⟩
  · constructor
    · intro h
      exact ⟨a, rfl, h⟩
    · rintro ⟨_, ha, h⟩
      cases ha
      exact h

/-- Steps stop where the first one of them does that stops. -/
theorem bind_eq_out_iff {x : Ranged α} {f : α → Ranged β} :
    (x >>= f) = out ↔ x = out ∨ ∃ a, x = pure a ∧ f a = out := by
  rcases cases_of x with rfl | ⟨e, rfl⟩ | ⟨a, rfl⟩
  · exact ⟨fun _ => .inl rfl, fun _ => rfl⟩
  · constructor
    · exact nofun
    · rintro (h | ⟨_, h, -⟩) <;> cases h
  · constructor
    · intro h
      exact .inr ⟨a, rfl, h⟩
    · rintro (h | ⟨_, ha, h⟩)
      · cases h
      · cases ha
        exact h

/-- Steps stay in all ranges if each of them does that is reached. -/
theorem within_bind {x : Except Error α} {g : α → Ranged β} {f : α → Except Error β}
    (h : ∀ a, x = .ok a → g a = within (f a)) : (within x >>= g) = within (x >>= f) := by
  cases x with
  | error e => rfl
  | ok a => exact h a rfl

/-! ## Operations with ranges -/

/-- The first `n` bytes and the others: there must be `n`. -/
def splitAt (b : Bytes) (n : Nat) : Ranged (Bytes × Bytes) :=
  if n ≤ b.length then pure (b.splitAt n) else out

/-- The first `n` bytes: there must be `n`. -/
def first (b : Bytes) (n : Nat) : Ranged Bytes :=
  if n ≤ b.length then pure (b.take n) else out

/-- What is left of a number that must be large enough. -/
def sub (m n : Nat) : Ranged Nat := if n ≤ m then pure (m - n) else out

/-- The bytes as an array of a size: there must be that many. -/
def array (n : Nat) (b : Bytes) : Ranged (Vector UInt8 n) :=
  if h : b.length = n then pure ⟨b.toArray, by simpa using h⟩ else out

/-- The sum of two numbers of 64 bits, which must be one again. -/
def sum (a b : Int64) : Ranged Int64 :=
  if Int64.minValue.toInt ≤ a.toInt + b.toInt ∧ a.toInt + b.toInt ≤ Int64.maxValue.toInt then
    pure (a + b)
  else out

theorem splitAt_eq {b : Bytes} {n : Nat} (h : n ≤ b.length) :
    splitAt b n = pure (b.take n, b.drop n) := by
  rw [splitAt, if_pos h, List.splitAt_eq]

theorem first_eq {b : Bytes} {n : Nat} (h : n ≤ b.length) : first b n = pure (b.take n) :=
  if_pos h

theorem sub_eq {m n : Nat} (h : n ≤ m) : sub m n = pure (m - n) := if_pos h

/-- An array holds the bytes of which it is made. -/
theorem array_eq {n : Nat} {b : Bytes} (h : b.length = n) :
    ∃ v, array n b = pure v ∧ v.toList = b :=
  ⟨_, dif_pos h, rfl⟩

/-- A sum is the sum of the integers. -/
theorem sum_eq_pure_iff {a b c : Int64} : sum a b = pure c ↔ c.toInt = a.toInt + b.toInt := by
  unfold sum
  have hlow := c.minValue_le_toInt
  have hhigh := c.toInt_le
  by_cases hrange : Int64.minValue.toInt ≤ a.toInt + b.toInt ∧
      a.toInt + b.toInt ≤ Int64.maxValue.toInt
  · have hsum : (a + b).toInt = a.toInt + b.toInt := by
      rw [Int64.toInt_minValue, Int64.toInt_maxValue] at hrange
      rw [Int64.toInt_add, Int.bmod_eq_of_le] <;> omega
    rw [if_pos hrange, ← hsum, Int64.toInt_inj]
    constructor
    · intro h
      cases h
      rfl
    · rintro rfl
      rfl
  · rw [if_neg hrange]
    refine ⟨nofun, fun h => ?_⟩
    rw [h] at hlow hhigh
    exact absurd ⟨hlow, hhigh⟩ hrange

/-- A sum is out of range if it is beyond one of the ends. -/
theorem sum_eq_out_iff {a b : Int64} :
    sum a b = out ↔
      a.toInt + b.toInt < Int64.minValue.toInt ∨ Int64.maxValue.toInt < a.toInt + b.toInt := by
  unfold sum
  by_cases hrange : Int64.minValue.toInt ≤ a.toInt + b.toInt ∧
      a.toInt + b.toInt ≤ Int64.maxValue.toInt
  · rw [if_pos hrange]
    refine ⟨fun h => absurd h (within_ne_out (.ok _)), fun h => ?_⟩
    omega
  · rw [if_neg hrange]
    refine ⟨fun _ => ?_, fun _ => rfl⟩
    omega

end Ranged

end WebToken
