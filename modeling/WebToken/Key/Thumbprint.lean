import WebToken.Key.Import

/-!
# Thumbprints

The thumbprint of a key is the hash of the canonical JSON text of the members that determine it:
the secret, or the public numbers. Parameters and private members do not take part.
-/

namespace WebToken

/-- The canonical text of members that are texts: sorted by the bytes of their names. -/
def canonicalJson (members : List (String × String)) : String :=
  Json.Object.text <|
    (members.mergeSort fun a b => a.1 ≤ b.1).map fun (name, text) => (name, .string text)

/-- The hash of a canonical text. -/
def thumbprintOf (members : List (String × String)) : String :=
  Base64Url.encode (Crypto.Hash.sha256.digest (Bytes.ofString (canonicalJson members)))

/-- The members of a key that its thumbprint covers. -/
def Key.requiredMembers (key : Key) : List (String × String) :=
  match key.material with
  | .symmetric s => [("k", Base64Url.encode s.bytes), ("kty", "oct")]
  | .rsaPublic k _ => rsa k
  | .rsaPrivate k _ => rsa k.toPublicKey
where
  /-- The public numbers. -/
  rsa (k : Crypto.Rsa.PublicKey) : List (String × String) :=
    [("e", Jwk.numberText k.exponent), ("kty", "RSA"), ("n", Jwk.numberText k.modulus)]

/-- The thumbprint of a key. -/
def Key.thumbprint (key : Key) : String := thumbprintOf key.requiredMembers

/-- The members of a document that its thumbprint covers, if they are there. -/
def Jwk.requiredMembers? (j : Jwk) : Option (List (String × String)) :=
  match j.kty with
  | "oct" => do return [("k", ← j.k), ("kty", j.kty)]
  | "RSA" => do return [("e", ← j.e), ("kty", j.kty), ("n", ← j.n)]
  | _ => none

/-- The thumbprint of a document as it is written, if it has the members for one. -/
def Jwk.thumbprint? (j : Jwk) : Option String := j.requiredMembers?.map thumbprintOf

/-- Whether two strings of one length are equal: no pair of bytes differs. -/
def Bytes.pairwiseEqual (a b : Bytes) : Bool := (a.zip b).all fun (x, y) => x == y

/-- Whether a text is the thumbprint of a key: it has as many bytes, and the same ones. -/
def Key.hasThumbprint (key : Key) (expected : String) : Bool :=
  let computed := Bytes.ofString key.thumbprint
  let expected := Bytes.ofString expected
  if computed.length ≠ expected.length then false else computed.pairwiseEqual expected

theorem Bytes.pairwiseEqual_iff {a b : Bytes} (h : a.length = b.length) :
    a.pairwiseEqual b = true ↔ a = b := by
  induction a generalizing b with
  | nil => simp [pairwiseEqual, List.length_eq_zero_iff.1 h.symm]
  | cons x a ih =>
    cases b with
    | nil => cases h
    | cons y b =>
      rw [List.length_cons, List.length_cons, Nat.add_right_cancel_iff] at h
      have hrest := ih h
      rw [pairwiseEqual] at hrest ⊢
      rw [List.zip_cons_cons, List.all_cons, Bool.and_eq_true, hrest, beq_iff_eq, List.cons.injEq]

/-- The thumbprint of a key is one text. -/
theorem Key.hasThumbprint_iff {key : Key} {text : String} :
    key.hasThumbprint text = true ↔ text = key.thumbprint := by
  rw [← Bytes.ofString_inj, hasThumbprint]
  by_cases h : (Bytes.ofString key.thumbprint).length = (Bytes.ofString text).length
  · simp only [h, ne_eq, not_true, if_false]
    rw [Bytes.pairwiseEqual_iff h, eq_comm]
  · simp only [ne_eq, h, not_false_eq_true, if_true]
    exact ⟨nofun, fun heq => absurd (congrArg List.length heq.symm) h⟩

end WebToken
