import WebToken.Key.Thumbprint
import WebToken.Proofs.Json.RoundTrip
import WebToken.Proofs.Key.RoundTrip

/-!
# Thumbprints tell keys apart

The canonical text of members determines them, and the members of a key determine its secret or its
public numbers. So two keys with one thumbprint have the same, unless the hash function takes one
value at two texts (`ThumbprintsCollide`). A document has the thumbprint of its key if its numbers
are written without zero bytes in front; the document of a number with such bytes is read as well,
but has another thumbprint.

* `canonicalJson_inj` : canonical texts are equal exactly for equal members;
* `Key.thumbprint_identifies` : which keys have one thumbprint, and what does not change it;
* `Jwk.thumbprint_agrees` : which documents have the thumbprint of their key.
-/

namespace WebToken

open Crypto
open Json (Object Value stringChars)

/-! ## Canonical texts -/

section Canonical

variable {a b : List (String × String)}

/-- Whether members stand in the order of their names, none of them twice. -/
def Ascending (members : List (String × String)) : Prop :=
  (members.map (·.1)).Pairwise (· < ·)

/-- Members that are texts as an object. -/
def textObject (members : List (String × String)) : Object :=
  members.map fun (name, text) => (name, .string text)

/-- Members in order are written in their order. -/
theorem Ascending.canonicalJson_eq (ha : Ascending a) :
    canonicalJson a = (textObject a).text := by
  have hsorted : a.Pairwise fun x y => decide (x.1 ≤ y.1) = true := by
    refine (List.pairwise_map.1 ha).imp fun h => ?_
    exact decide_eq_true (le_of_lt h)
  rw [canonicalJson, List.mergeSort_of_pairwise hsorted]
  rfl

theorem names_textObject (a : List (String × String)) : (textObject a).names = a.map (·.1) := by
  rw [Object.names, textObject, List.map_map]
  rfl

theorem textObject_inj : textObject a = textObject b ↔ a = b := by
  apply List.map_inj_right
  rintro ⟨name, text⟩ ⟨name', text'⟩ h
  rw [Prod.mk.injEq, Value.string.injEq] at h
  rw [h.1, h.2]

/-- Members in order are read back from their text. -/
theorem Ascending.parse_encode (ha : Ascending a) :
    Json.parse (Value.object (textObject a)).encode = .ok (.object (textObject a)) := by
  have hstring : ∀ m ∈ textObject a, ∃ s, m.2 = .string s := by
    intro m hm
    obtain ⟨⟨name, text⟩, -, rfl⟩ := List.mem_map.1 hm
    exact ⟨text, rfl⟩
  -- names are distinct, and texts are neither doubles nor nested
  apply Json.parse_encode
  · rw [Value.WellFormed, Value.all_object]
    refine ⟨?_, fun m hm => ?_⟩
    · show (textObject a).names.Nodup
      rw [names_textObject]
      exact List.Pairwise.imp ne_of_lt ha
    · obtain ⟨s, hs⟩ := hstring m hm
      rw [hs]
      trivial
  · rw [Value.FloatFree, Value.all_object]
    refine ⟨nofun, fun m hm => ?_⟩
    obtain ⟨s, hs⟩ := hstring m hm
    rw [hs]
    exact nofun
  · have hdepth : Value.depthMembers (textObject a) ≤ 0 := by
      rw [Value.depthMembers_le_iff]
      intro m hm
      obtain ⟨s, hs⟩ := hstring m hm
      rw [hs]
      exact Nat.le_refl 0
    rw [Value.depth, Nat.le_zero.1 hdepth]
    decide

/-- Canonical texts are equal exactly for equal members. -/
theorem canonicalJson_inj (ha : Ascending a) (hb : Ascending b) :
    canonicalJson a = canonicalJson b ↔ a = b := by
  constructor
  · intro h
    rw [ha.canonicalJson_eq, hb.canonicalJson_eq] at h
    have hencode : (Value.object (textObject a)).encode = (Value.object (textObject b)).encode :=
      congrArg Bytes.ofString h
    have hparse := ha.parse_encode
    rw [hencode, hb.parse_encode, Except.ok.injEq, Value.object.injEq, textObject_inj] at hparse
    exact hparse.symm
  · rintro rfl
    rfl

/-- Whether the hash function takes one value at the canonical texts of two lists of members, which
are different. -/
def ThumbprintsCollide (a b : List (String × String)) : Prop :=
  canonicalJson a ≠ canonicalJson b ∧
    Hash.sha256.digest (Bytes.ofString (canonicalJson a)) =
      Hash.sha256.digest (Bytes.ofString (canonicalJson b))

/-- Members have one thumbprint exactly if they are equal or the hash function collides. -/
theorem thumbprintOf_eq_iff (ha : Ascending a) (hb : Ascending b) :
    thumbprintOf a = thumbprintOf b ↔ a = b ∨ ThumbprintsCollide a b := by
  rw [thumbprintOf, thumbprintOf, Base64Url.encode_inj, ThumbprintsCollide, ne_eq,
    canonicalJson_inj ha hb]
  constructor
  · intro h
    by_cases heq : a = b
    · exact .inl heq
    · exact .inr ⟨heq, h⟩
  · rintro (rfl | ⟨-, h⟩)
    · rfl
    · exact h

end Canonical

/-! ## Keys -/

namespace Key

/-- Whether two keys are the same shared secret, or have the same public numbers. -/
def SameMaterial (a b : Key) : Prop :=
  (∃ secret, a.secret? = some secret ∧ b.secret? = some secret) ∨
  (∃ k k', a.rsaPublic? = some k ∧ b.rsaPublic? = some k' ∧ k.modulus = k'.modulus ∧
    k.exponent = k'.exponent)

section Material

variable {a b key : Key}

/-- A key is a shared secret or has public numbers, and its members are those. -/
theorem requiredMembers_eq (key : Key) :
    (∃ secret, key.secret? = some secret ∧ key.rsaPublic? = none ∧
      key.requiredMembers = [("k", Base64Url.encode secret), ("kty", "oct")]) ∨
    (∃ k, key.secret? = none ∧ key.rsaPublic? = some k ∧
      key.requiredMembers = [("e", Jwk.numberText k.exponent), ("kty", "RSA"),
        ("n", Jwk.numberText k.modulus)]) := by
  obtain ⟨material, params⟩ := key
  cases material with
  | symmetric s => exact .inl ⟨s.bytes, rfl, rfl, rfl⟩
  | rsaPublic k large => exact .inr ⟨k, rfl, rfl, rfl⟩
  | rsaPrivate k large => exact .inr ⟨k.toPublicKey, rfl, rfl, rfl⟩

theorem ascending_secret (text kty : String) : Ascending [("k", text), ("kty", kty)] := by
  show ["k", "kty"].Pairwise (· < ·)
  decide

theorem ascending_rsa (e kty n : String) : Ascending [("e", e), ("kty", kty), ("n", n)] := by
  show ["e", "kty", "n"].Pairwise (· < ·)
  decide

theorem ascending_requiredMembers (key : Key) : Ascending key.requiredMembers := by
  rcases key.requiredMembers_eq with ⟨secret, -, -, h⟩ | ⟨k, -, -, h⟩
  · rw [h]
    exact ascending_secret _ _
  · rw [h]
    exact ascending_rsa _ _ _

/-- The members of two keys are equal exactly if what the keys are made of is. -/
theorem requiredMembers_eq_iff : a.requiredMembers = b.requiredMembers ↔ a.SameMaterial b := by
  unfold SameMaterial
  rcases a.requiredMembers_eq with ⟨s, hs, hnone, ha⟩ | ⟨k, hnone, hk, ha⟩ <;>
    rcases b.requiredMembers_eq with ⟨s', hs', hnone', hb⟩ | ⟨k', hnone', hk', hb⟩
  · rw [ha, hb, hs, hs', hnone]
    simp [Base64Url.encode_inj, eq_comm]
  · rw [ha, hb, hs, hnone', hnone]
    simp
  · rw [ha, hb, hnone, hk, hnone']
    simp
  · rw [ha, hb, hnone, hk, hk']
    simp [Jwk.numberText_inj, and_comm]

end Material

/-! ## Keys made from others -/

/-- The ways to make a key from another: its parameters are set, its private half is dropped, or it
is exported and read back. -/
inductive Step (key : Key) : Key → Prop
  | kid (kid : String) : Step key (key.withKid kid)
  | use (use : KeyUse) : Step key (key.withUse use)
  | operations (operations : List KeyOperation) : Step key (key.withOperations operations)
  | alg (alg : String) : Step key (key.withAlg alg)
  | toPublic {half : Key} (h : key.toPublic = .ok half) : Step key half
  | exportPublic {o : Object} {key' : Key} (h : key.exportPublic = .ok o)
      (hread : ofObject o = .ok key') : Step key key'
  | exportPrivate {o : Object} {key' : Key} (h : key.exportPrivate = .ok o)
      (hread : ofObject o = .ok key') : Step key key'

section Steps

variable {key key' half : Key}

theorem requiredMembers_of_toPublic (h : key.toPublic = .ok half) :
    half.requiredMembers = key.requiredMembers :=
  toPublic_cases h (fun _ _ _ => rfl) fun _ _ _ => rfl

/-- No step changes the members of a key. -/
theorem Step.requiredMembers_eq (h : key.Step key') :
    key'.requiredMembers = key.requiredMembers := by
  cases h with
  | kid kid => rfl
  | use use => rfl
  | operations operations => rfl
  | alg alg => rfl
  | toPublic h => exact requiredMembers_of_toPublic h
  | exportPublic h hread =>
    obtain ⟨half, hhalf, ho⟩ := ofObject_of_exportPublic h
    rw [ho] at hread
    split at hread
    · cases hread
      exact requiredMembers_of_toPublic hhalf
    · cases hread
  | exportPrivate h hread =>
    rw [ofObject_of_exportPrivate h] at hread
    cases hread
    rfl

/-- Nor do any number of them. -/
theorem requiredMembers_of_steps (h : Relation.ReflTransGen Step key key') :
    key'.requiredMembers = key.requiredMembers := by
  induction h with
  | refl => rfl
  | tail _ hstep ih => exact hstep.requiredMembers_eq.trans ih

end Steps

/-- The canonical texts of two keys are equal exactly if both are one shared secret or have the same
public numbers, and so are their thumbprints, unless the hash function collides at these texts. No
step changes the thumbprint of a key, in particular not exporting it and reading it back, and it is
compared with a text as a whole. -/
theorem thumbprint_identifies (a b : Key) :
    (canonicalJson a.requiredMembers = canonicalJson b.requiredMembers ↔ a.SameMaterial b) ∧
    (a.thumbprint = b.thumbprint ↔
      a.SameMaterial b ∨ ThumbprintsCollide a.requiredMembers b.requiredMembers) ∧
    (∀ key, Relation.ReflTransGen Step a key → key.thumbprint = a.thumbprint) ∧
    (a.hasPrivate = true → ∃ o key, a.exportPrivate = .ok o ∧ ofObject o = .ok key ∧
      key.thumbprint = a.thumbprint) ∧
    (a.isSymmetric = false → a.bits ≤ 4096 → ∃ o key, a.exportPublic = .ok o ∧
      ofObject o = .ok key ∧ key.thumbprint = a.thumbprint) ∧
    ∀ text, a.hasThumbprint text = true ↔ text = a.thumbprint := by
  have ha := a.ascending_requiredMembers
  have hb := b.ascending_requiredMembers
  have unchanged : ∀ {key}, Relation.ReflTransGen Step a key → key.thumbprint = a.thumbprint :=
    fun h => congrArg thumbprintOf (requiredMembers_of_steps h)
  refine ⟨?texts, ?thumbprints, fun key => unchanged, ?full, ?half, fun text => hasThumbprint_iff⟩
  case texts => rw [canonicalJson_inj ha hb, requiredMembers_eq_iff]
  case thumbprints => rw [thumbprint, thumbprint, thumbprintOf_eq_iff ha hb, requiredMembers_eq_iff]
  case full =>
    intro h
    obtain ⟨o, ho⟩ := exists_exportPrivate h
    have hread := ofObject_of_exportPrivate ho
    exact ⟨o, a, ho, hread, rfl⟩
  case half =>
    intro h hbits
    obtain ⟨o, ho, -⟩ := exists_exportPublic h
    obtain ⟨half, -, hread⟩ := ofObject_of_exportPublic ho
    rw [if_pos hbits] at hread
    exact ⟨o, half, ho, hread, unchanged (.single (.exportPublic ho hread))⟩

/-- The public half of the key of the Mersenne primes, however it is made, has the thumbprint of the
key, and so has the key read back. -/
theorem thumbprint_identifies_ofMersenne :
    ∃ half, ofMersenne.toPublic = .ok half ∧
      canonicalJson half.requiredMembers = canonicalJson ofMersenne.requiredMembers ∧
      (half.withKid "half").thumbprint = ofMersenne.thumbprint ∧
      (∃ o key, ofMersenne.exportPrivate = .ok o ∧ ofObject o = .ok key ∧
        key.thumbprint = ofMersenne.thumbprint) ∧
      ∃ o key, ofMersenne.exportPublic = .ok o ∧ ofObject o = .ok key ∧
        key.thumbprint = ofMersenne.thumbprint := by
  obtain ⟨-, -, hsteps, hfull, hhalf, -⟩ := thumbprint_identifies ofMersenne ofMersenne
  let half : Key :=
    ⟨.rsaPublic Rsa.PrivateKey.ofMersenne.toPublicKey (by decide +kernel), .none⟩
  have hpublic : Step ofMersenne half := .toPublic rfl
  refine ⟨half, rfl, ?_, ?_, hfull rfl, hhalf rfl (by decide +kernel)⟩
  · exact (thumbprint_identifies half ofMersenne).1.2 (.inr ⟨_, _, rfl, rfl, rfl, rfl⟩)
  · exact hsteps _ (.tail (.single hpublic) (.kid "half"))

end Key

/-! ## Documents -/

namespace Jwk

/-- Whether a member is written without a zero byte in front of its number. -/
def IsMinimal (member : Option String) : Prop :=
  ∀ bytes, member = some (Base64Url.encode bytes) → bytes.head? ≠ some 0

section Documents

variable {j : Jwk} {key : Key} {member : Option String} {n : Nat}

/-- A member has the text of its number exactly if no zero byte stands in front. -/
theorem Spells.eq_numberText_iff (h : Spells member n) (hn : n ≠ 0) :
    member = some (numberText n) ↔ IsMinimal member := by
  obtain ⟨bytes, -, rfl, rfl⟩ := h
  rw [numberText, Option.some.injEq, Base64Url.encode_inj, Bytes.eq_ofNatMinimal_iff hn]
  constructor
  · intro hbytes bytes' heq
    rw [Option.some.injEq, Base64Url.encode_inj] at heq
    rwa [← heq]
  · intro hminimal
    exact hminimal bytes rfl

/-- An RSA document has the members of its key exactly if both numbers are minimal. -/
theorem requiredMembers?_of_spells {k : Rsa.PublicKey} (hkty : j.kty = "RSA")
    (hn : Spells j.n k.modulus) (he : Spells j.e k.exponent) :
    ∃ members, j.requiredMembers? = some members ∧ Ascending members ∧
      (members = Key.requiredMembers.rsa k ↔ IsMinimal j.n ∧ IsMinimal j.e) := by
  have hmodulus := hn.eq_numberText_iff (Nat.pos_iff_ne_zero.1 k.modulus_pos)
  have hexponent := he.eq_numberText_iff (Nat.ne_of_gt (Nat.zero_lt_of_lt k.one_lt_exponent))
  obtain ⟨nbytes, -, hnbytes, -⟩ := hn
  obtain ⟨ebytes, -, hebytes, -⟩ := he
  refine ⟨[("e", Base64Url.encode ebytes), ("kty", "RSA"), ("n", Base64Url.encode nbytes)], ?_,
    Key.ascending_rsa _ _ _, ?_⟩
  · rw [requiredMembers?, hkty, hnbytes, hebytes]
    rfl
  · rw [← hmodulus, ← hexponent, hnbytes, hebytes, Key.requiredMembers.rsa]
    simp [and_comm]

/-- A document that describes a key has its members if both numbers of an RSA key are minimal, and
only then. -/
theorem Describes.requiredMembers? (h : j.Describes key) :
    ∃ members, j.requiredMembers? = some members ∧ Ascending members ∧
      (members = key.requiredMembers ↔
        (key.isSymmetric = false → IsMinimal j.n ∧ IsMinimal j.e)) := by
  obtain ⟨material, params⟩ := key
  obtain ⟨hmaterial, -⟩ := h
  cases material with
  | symmetric s =>
    obtain ⟨hkty, hk⟩ := hmaterial
    refine ⟨[("k", Base64Url.encode s.bytes), ("kty", "oct")], ?_, Key.ascending_secret _ _,
      fun _ => nofun, fun _ => rfl⟩
    rw [Jwk.requiredMembers?, hkty, hk]
    rfl
  | rsaPublic k large =>
    obtain ⟨hkty, -, hholds⟩ := hmaterial
    obtain ⟨members, hmembers, hascending, hiff⟩ :=
      requiredMembers?_of_spells hkty hholds.n hholds.e
    exact ⟨members, hmembers, hascending, hiff.trans ⟨fun h _ => h, fun h => h rfl⟩⟩
  | rsaPrivate k large =>
    obtain ⟨hkty, -, hholds⟩ := hmaterial
    obtain ⟨members, hmembers, hascending, hiff⟩ :=
      requiredMembers?_of_spells (k := k.toPublicKey) hkty hholds.n hholds.e
    exact ⟨members, hmembers, hascending, hiff.trans ⟨fun h _ => h, fun h => h rfl⟩⟩

/-- A document that becomes a key has a thumbprint. It is that of the key if the document is that of
a shared secret or writes its numbers without zero bytes in front, and otherwise only if the hash
function collides. -/
theorem thumbprint_agrees (h : j.toKey = .ok key) :
    ∃ members, j.requiredMembers? = some members ∧
      (j.thumbprint? = some key.thumbprint ↔
        (key.isSymmetric = false → IsMinimal j.n ∧ IsMinimal j.e) ∨
          ThumbprintsCollide members key.requiredMembers) := by
  obtain ⟨members, hmembers, hascending, hiff⟩ := (toKey_eq_ok_iff.1 h).requiredMembers?
  refine ⟨members, hmembers, ?_⟩
  rw [thumbprint?, hmembers, Option.map_some, Option.some.injEq, Key.thumbprint,
    thumbprintOf_eq_iff hascending key.ascending_requiredMembers, hiff]

/-- The full document of the key of the Mersenne primes has the thumbprint of the key. -/
theorem thumbprint_agrees_ofMersenne :
    (ofPrivate .ofMersenne .none).thumbprint? = some Key.ofMersenne.thumbprint := by
  have hread : (ofPrivate .ofMersenne .none).toKey = .ok Key.ofMersenne :=
    toKey_eq_ok_iff.2 (describes_ofPrivate _ _)
  obtain ⟨members, -, hiff⟩ := thumbprint_agrees hread
  refine hiff.2 (.inl fun _ => ⟨?_, ?_⟩)
  · exact ((spells_numberText _).eq_numberText_iff (by decide +kernel)).1 rfl
  · exact ((spells_numberText _).eq_numberText_iff (by decide)).1 rfl

end Documents

end Jwk

/-! ## A document with another thumbprint -/

/-- A public key with the exponent three, of whose modulus all bits are set. -/
def Crypto.Rsa.PublicKey.ones : Rsa.PublicKey where
  modulus := 2 ^ 2048 - 1
  exponent := 3
  modulus_odd := by decide +kernel
  exponent_odd := by decide
  one_lt_exponent := by decide
  exponent_lt := by decide
  exponent_lt_modulus := by decide +kernel

/-- The document of this key, with a zero byte in front of the exponent. -/
def Jwk.padded : Jwk := { ofPublic .ones .none with e := some (Base64Url.encode [0, 3]) }

/-- The members that the thumbprint of the document covers. -/
def Jwk.paddedMembers : List (String × String) :=
  [("e", Base64Url.encode [0, 3]), ("kty", "RSA"), ("n", numberText Rsa.PublicKey.ones.modulus)]

/-- The hash function does not take one value at the members of the document and of the key. -/
theorem Jwk.digest_padded_ne :
    Hash.sha256.digest (Bytes.utf8 (Value.object (textObject paddedMembers)).chars) ≠
      Hash.sha256.digest
        (Bytes.utf8 (Value.object (textObject (Key.requiredMembers.rsa .ones))).chars) := by
  -- a text in base64url is evaluated as its characters, not as a string that is taken apart again
  simp only [paddedMembers, Key.requiredMembers.rsa, textObject, List.map, Value.chars,
    Value.membersChars, numberText, stringChars, Base64Url.encode, String.toList_ofList]
  decide +kernel

/-- Some documents become keys with another thumbprint than that of the document. -/
theorem Jwk.not_forall_thumbprint_agrees :
    ¬∀ (j : Jwk) (key : Key), j.toKey = .ok key → j.thumbprint? = some key.thumbprint := by
  intro h
  have hread : padded.toKey = .ok ⟨.rsaPublic .ones (by decide +kernel), .none⟩ :=
    toKey_eq_ok_iff.2 ⟨⟨rfl, rfl, spells_numberText _, ⟨[0, 3], nofun, rfl, by decide⟩,
      by decide +kernel, rfl, rfl⟩, rfl⟩
  have hequal : thumbprintOf paddedMembers = thumbprintOf (Key.requiredMembers.rsa .ones) :=
    Option.some.inj (h _ _ hread)
  have hpadded : Ascending paddedMembers := Key.ascending_rsa _ _ _
  have hones : Ascending (Key.requiredMembers.rsa .ones) := Key.ascending_rsa _ _ _
  rw [thumbprintOf, thumbprintOf, Base64Url.encode_inj, hpadded.canonicalJson_eq,
    hones.canonicalJson_eq, Object.text, Object.text, Value.text, Value.text,
    Bytes.ofString_ofList, Bytes.ofString_ofList] at hequal
  exact digest_padded_ne hequal

end WebToken
