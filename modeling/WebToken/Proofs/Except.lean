import Mathlib

/-!
# Steps that may fail

A step after another is reached only if the first one succeeds, and a failure is that of the first
step that fails. So steps that fail in certain ways only (`FailsOnly`) do so one after the other.
-/

namespace WebToken

variable {ε δ α β : Type}

theorem bind_eq_ok_iff {x : Except ε α} {f : α → Except ε β} {b : β} :
    (x >>= f) = .ok b ↔ ∃ a, x = .ok a ∧ f a = .ok b := by
  cases x with
  | error e => exact ⟨nofun, nofun⟩
  | ok a =>
    constructor
    · intro h
      exact ⟨a, rfl, h⟩
    · rintro ⟨_, ha, h⟩
      cases ha
      exact h

theorem bind_eq_error_iff {x : Except ε α} {f : α → Except ε β} {e : ε} :
    (x >>= f) = .error e ↔ x = .error e ∨ ∃ a, x = .ok a ∧ f a = .error e := by
  cases x with
  | error d =>
    constructor
    · intro h
      cases h
      exact .inl rfl
    · rintro (h | ⟨_, ha, -⟩)
      · cases h
        rfl
      · cases ha
  | ok a =>
    constructor
    · intro h
      exact .inr ⟨a, rfl, h⟩
    · rintro (h | ⟨_, ha, h⟩)
      · cases h
      · cases ha
        exact h

theorem mapError_eq_ok_iff {f : ε → δ} {x : Except ε α} {a : α} :
    x.mapError f = .ok a ↔ x = .ok a := by
  cases x with
  | error e => exact ⟨nofun, nofun⟩
  | ok b =>
    constructor
    · intro h
      cases h
      rfl
    · intro h
      cases h
      rfl

theorem mapError_eq_error_iff {f : ε → δ} {x : Except ε α} {d : δ} :
    x.mapError f = .error d ↔ ∃ e, x = .error e ∧ f e = d := by
  cases x with
  | error e =>
    constructor
    · intro h
      exact ⟨e, rfl, Except.error.inj h⟩
    · rintro ⟨_, he, rfl⟩
      cases he
      rfl
  | ok a =>
    constructor
    · intro h
      cases h
    · rintro ⟨e, he, -⟩
      cases he

theorem map_eq_ok_iff {f : α → β} {x : Except ε α} {b : β} :
    x.map f = .ok b ↔ ∃ a, x = .ok a ∧ f a = b := by
  cases x with
  | error e => exact ⟨nofun, nofun⟩
  | ok a =>
    constructor
    · intro h
      cases h
      exact ⟨a, rfl, rfl⟩
    · rintro ⟨_, ha, rfl⟩
      cases ha
      rfl

/-! ## Ways to fail -/

/-- Whether a step fails in the given ways only. -/
def FailsOnly (p : ε → Prop) (x : Except ε α) : Prop := ∀ e, x = .error e → p e

namespace FailsOnly

variable {p : ε → Prop}

theorem ok (a : α) : FailsOnly p (.ok a) := nofun

theorem error {e : ε} (h : p e) : FailsOnly p (.error e : Except ε α) := by
  rintro _ ⟨⟩
  exact h

theorem bind {x : Except ε α} {f : α → Except ε β} (hx : FailsOnly p x)
    (hf : ∀ a, FailsOnly p (f a)) : FailsOnly p (x >>= f) := by
  intro e h
  rcases bind_eq_error_iff.1 h with h | ⟨a, -, h⟩
  · exact hx e h
  · exact hf a e h

theorem map {x : Except ε α} (h : FailsOnly p x) (f : α → β) : FailsOnly p (x.map f) := by
  intro e he
  cases x with
  | error d =>
    rw [← Except.error.inj he]
    exact h d rfl
  | ok a => cases he

theorem mono {q : ε → Prop} {x : Except ε α} (h : FailsOnly p x) (hpq : ∀ e, p e → q e) :
    FailsOnly q x :=
  fun e he => hpq e (h e he)

theorem mapError {q : δ → Prop} {f : ε → δ} (hf : ∀ e, q (f e)) (x : Except ε α) :
    FailsOnly q (x.mapError f) := by
  cases x with
  | error e => exact error (hf e)
  | ok a => exact ok a

/-- Failures that are shown in another way are those of the step. -/
theorem mapError_of {q : δ → Prop} {f : ε → δ} {x : Except ε α} (hx : FailsOnly p x)
    (hf : ∀ e, p e → q (f e)) : FailsOnly q (x.mapError f) := by
  intro d h
  obtain ⟨e, he, rfl⟩ := mapError_eq_error_iff.1 h
  exact hf e (hx e he)

/-- A step that fails in one family of ways succeeds or fails in one of them. -/
theorem ok_or {φ : Type} {c : φ → ε} {x : Except ε α}
    (h : FailsOnly (fun e => ∃ fault, e = c fault) x) :
    (∃ a, x = .ok a) ∨ ∃ fault, x = .error (c fault) := by
  cases x with
  | ok a => exact .inl ⟨a, rfl⟩
  | error e =>
    obtain ⟨fault, he⟩ := h e rfl
    exact .inr ⟨fault, he ▸ rfl⟩

end FailsOnly

end WebToken
