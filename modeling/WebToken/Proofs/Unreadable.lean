import WebToken.Claims.Reading
import WebToken.Proofs.Failures
import WebToken.Proofs.Key.Import

/-!
# What cannot be read

Tokens, keys and claims come from strangers. What is wrong with a text or an object is said of the
token, the key or the claims that it should have been, whichever step of reading finds it: no step
blames the caller. Two steps are also taken for callers, and blame them when they are: to attach a
header and to make a key of a secret. Reading rewords their failures.

* `Header.message_of_refuseShared` : parameters in both headers, attached and read;
* `Key.ofObject_eq_error_empty_iff` : documents of a secret without bytes;
* `read_or_malformed` : every text and every object is read, or malformed.
-/

namespace WebToken

open Json (Object)

/-! ## Headers that are attached, and headers that are read -/

/-- A header that was read is refused exactly for the parameters for which it is not attached. -/
theorem Header.refuseShared_eq_error_iff {h u : Header} {e : Error} :
    h.refuseShared (some u) = .error e ↔
      ∃ name, h.checkAttached u = .error (.invalidParameter (.sharedName name)) ∧
        e = .malformedToken (.sharedName name) := by
  unfold refuseShared checkAttached
  rw [Option.bind_some]
  cases h.sharedName? u with
  | none =>
    constructor
    · intro he
      cases he
    · -- a header that must be understood is refused too, but not for a shared name
      intro h
      rcases h with ⟨name, he, _⟩
      dsimp only at he
      unfold refuseCritical at he
      split at he
      · cases he
      · cases he
  | some name =>
    constructor
    · intro he
      cases he
      exact ⟨name, rfl, rfl⟩
    · intro h
      rcases h with ⟨_, hname, he⟩
      cases hname
      exact he ▸ rfl

/-- The failure of the caller is repeated in the wording of a malformed token. -/
theorem Header.message_of_refuseShared {h u : Header} {e : Error}
    (hread : h.refuseShared (some u) = .error e) :
    ∃ e', h.checkAttached u = .error e' ∧ e.message = "Malformed token: " ++ e'.message := by
  obtain ⟨name, hattach, rfl⟩ := refuseShared_eq_error_iff.1 hread
  exact ⟨_, hattach, rfl⟩

/-! ## Secrets that are given, and secrets that are read -/

namespace Jwk

variable {j : Jwk}

/-- The secret of a document becomes a key as a given one does, except that no failure is that of a
caller. -/
theorem symmetricMaterial_eq (j : Jwk) :
    j.symmetricMaterial = (do
      let secret ← decodeBytes "k" (← required "oct" "k" j.k)
      let key ← (Key.symmetric secret).mapError fun _ => .malformedKey (.empty "k")
      return key.material) := by
  unfold symmetricMaterial
  -- both look for the member and decode it, and differ in how they refuse no bytes
  congr 1
  funext text
  congr 1
  funext secret
  unfold Key.symmetric
  split
  · rfl
  · rfl

/-- A member without bytes is an empty text. -/
theorem decodeBytes_eq_nil_iff {name text : String} :
    decodeBytes name text = .ok [] ↔ text = "" := by
  rw [decodeBytes, mapError_eq_ok_iff, Base64Url.decode_eq_ok_iff]
  rfl

/-- The secret of a document is refused for having no bytes exactly if its member is empty. -/
theorem symmetricMaterial_eq_error_empty_iff :
    j.symmetricMaterial = .error (.malformedKey (.empty "k")) ↔ j.k = some "" := by
  rw [symmetricMaterial_eq]
  cases j.k with
  | none => exact ⟨nofun, nofun⟩
  | some text =>
    have hempty : decodeBytes "k" text = .ok [] ↔ text = "" := decodeBytes_eq_nil_iff
    rw [Option.some.injEq, ← hempty]
    show (decodeBytes "k" text >>= _) = _ ↔ _
    rw [bind_eq_error_iff]
    constructor
    · intro h
      rcases h with hencoding | ⟨secret, hdecode, hkey⟩
      · obtain ⟨_, -, hfault⟩ := mapError_eq_error_iff.1 hencoding
        cases hfault
      · -- a secret with bytes is a key
        by_cases hsecret : secret = []
        · rw [hdecode, hsecret]
        · rw [Key.symmetric, dif_pos hsecret] at hkey
          cases hkey
    · intro hdecode
      exact .inr ⟨[], hdecode, rfl⟩

/-- Whether a failure has another cause than a secret without bytes. -/
def IsOtherFailure (e : Error) : Prop := e ≠ .malformedKey (.empty "k")

theorem decodeNonempty_other {name : String} (hname : name ≠ "k") (text : String) :
    FailsOnly IsOtherFailure (decodeNonempty name text) := by
  refine .bind (.mapError (fun _ => by simp [IsOtherFailure]) _) fun bytes => ?_
  split
  · refine .error fun h => ?_
    cases h
    exact hname rfl
  · exact .ok bytes

theorem number_other {name : String} (hname : name ≠ "k") (member : Option String) :
    FailsOnly IsOtherFailure (number name member) := by
  refine .bind ?_ fun text => .bind (decodeNonempty_other hname text) fun _ => .ok _
  cases member with
  | none => exact .error (by simp [IsOtherFailure])
  | some text => exact .ok text

theorem privateKey_other (j : Jwk) (n e d : Nat) :
    FailsOnly IsOtherFailure (j.privateKey n e d) := by
  refine .bind (number_other (by decide) j.p) fun p => ?_
  refine .bind (number_other (by decide) j.q) fun q => ?_
  refine .bind (number_other (by decide) j.dp) fun dp => ?_
  refine .bind (number_other (by decide) j.dq) fun dq => ?_
  refine .bind (number_other (by decide) j.qi) fun qi => ?_
  refine .bind (.mapError (fun _ => by simp [IsOtherFailure]) _) fun k => ?_
  refine .bind (.mapError (fun _ => by simp [IsOtherFailure]) _) fun key => ?_
  split
  · exact .ok key
  · exact .error (by simp [IsOtherFailure])

/-- The numbers of an RSA key are refused for other causes. -/
theorem rsaMaterial_other (j : Jwk) : FailsOnly IsOtherFailure j.rsaMaterial := by
  unfold rsaMaterial
  split
  · exact .error (by simp [IsOtherFailure])
  · refine .bind (number_other (by decide) j.n) fun n => ?_
    refine .bind (number_other (by decide) j.e) fun e => ?_
    cases j.d with
    | none =>
      dsimp only
      split
      · exact .error (by simp [IsOtherFailure])
      · refine .bind ?_ fun k => ?_
        · unfold publicKey
          split
          · exact .mapError (fun _ => by simp [IsOtherFailure]) _
          · exact .mapError (fun _ => by simp [IsOtherFailure]) _
        · unfold Key.publicMaterial
          split
          · exact .ok _
          · exact .error (by simp [IsOtherFailure])
    | some d =>
      refine .bind (decodeNonempty_other (by decide) d) fun bytes => ?_
      refine .bind (j.privateKey_other n e _) fun k => ?_
      unfold Key.privateMaterial
      split
      · exact .ok _
      · exact .error (by simp [IsOtherFailure])

/-- The documents of a secret without bytes. -/
theorem toKey_eq_error_empty_iff :
    j.toKey = .error (.malformedKey (.empty "k")) ↔ j.kty = "oct" ∧ j.k = some "" := by
  unfold toKey
  split
  · next hkty =>
    rw [← symmetricMaterial_eq_error_empty_iff, bind_eq_error_iff]
    constructor
    · intro h
      rcases h with h | ⟨_, -, h⟩
      · exact ⟨hkty, h⟩
      · cases h
    · intro h
      exact .inl h.2
  · next hkty =>
    rw [bind_eq_error_iff, hkty]
    constructor
    · intro h
      rcases h with h | ⟨_, -, h⟩
      · exact absurd rfl (j.rsaMaterial_other _ h)
      · cases h
    · intro h
      exact absurd h.1 (by decide)
  · next hoct _ =>
    constructor
    · intro h
      cases h
    · intro h
      exact absurd h.1 hoct

end Jwk

/-- The objects of a secret without bytes: they are malformed keys. -/
theorem Key.ofObject_eq_error_empty_iff {o : Object} :
    ofObject o = .error (.malformedKey (.empty "k")) ↔
      ∃ j, Jwk.ofObject o = .ok j ∧ j.kty = "oct" ∧ j.k = some "" := by
  unfold ofObject
  rw [bind_eq_error_iff]
  constructor
  · intro h
    rcases h with h | ⟨j, hj, h⟩
    · -- what is no document at all is malformed for that
      rcases bind_eq_error_iff.1 h with h | ⟨_, -, h⟩
      · obtain ⟨_, -, hfault⟩ := mapError_eq_error_iff.1 h
        cases hfault
      · cases h
    · exact ⟨j, hj, Jwk.toKey_eq_error_empty_iff.1 h⟩
  · intro h
    rcases h with ⟨j, hj, h⟩
    exact .inr ⟨j, hj, Jwk.toKey_eq_error_empty_iff.2 h⟩

example : Key.ofObject [("kty", .string "oct"), ("k", .string "")] =
    .error (.malformedKey (.empty "k")) := by rfl

/-! ## All that is read -/

/-- Claims that cannot be read are invalid. -/
theorem Claims.ofBytes_failsOnly (bytes : Bytes) :
    FailsOnly (fun e => ∃ fault, e = .invalidClaims fault) (ofBytes bytes) :=
  .mapError (fun _ => ⟨_, rfl⟩) _

/-- Every text is a token, or a malformed one; every object is a key, or a malformed one, also if it
is the document of a secret without bytes, of which no caller can make a key either; and every
string of bytes is claims, or invalid ones. -/
theorem read_or_malformed :
    (∀ text, (∃ t, Token.ofText text = .ok t) ∨
      ∃ fault, Token.ofText text = .error (.malformedToken fault)) ∧
    (∀ o, (∃ key, Key.ofObject o = .ok key) ∨
      ∃ fault, Key.ofObject o = .error (.malformedKey fault)) ∧
    (Key.symmetric [] = .error (.invalidParameter .emptySecret) ∧
      ∀ o, Key.ofObject o = .error (.malformedKey (.empty "k")) ↔
        ∃ j, Jwk.ofObject o = .ok j ∧ j.kty = "oct" ∧ j.k = some "") ∧
    (∀ bytes, (∃ c, Claims.ofBytes bytes = .ok c) ∨
      ∃ fault, Claims.ofBytes bytes = .error (.invalidClaims fault)) := by
  refine ⟨fun text => ?_, fun o => ?_, ⟨rfl, fun o => Key.ofObject_eq_error_empty_iff⟩,
    fun bytes => ?_⟩
  · exact (Token.ofText_failsOnly text).ok_or
  · exact (Key.ofObject_failsOnly o).ok_or
  · exact (Claims.ofBytes_failsOnly bytes).ok_or

end WebToken
