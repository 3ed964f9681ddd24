import WebToken.Proofs.Key.Document
import WebToken.Proofs.Rsa

/-!
# What becomes a key

A document describes a key if its members spell the secret or the numbers of the key, and those
that can be derived are the derived ones (`Jwk.Describes`). Exactly the key that is described is
read, and every other document is malformed. So the numbers of a private key that was read fit
together, and its halves undo each other if its factors are prime.

* `Key.ofObject_failsOnly` : what does not become a key is malformed;
* `Jwk.toKey_eq_ok_iff` : a document becomes the key that it describes;
* `Key.imported_numbers_fit` : what is known of the numbers of an RSA key that was read.
-/

namespace WebToken

open Crypto
open Json (Object Value)

/-! ## Documents that are no key -/

/-- Whether an error says that a document is no key. -/
def Error.IsMalformedKey (e : Error) : Prop := ∃ fault, e = .malformedKey fault

theorem Key.publicMaterial_failsOnly (k : Rsa.PublicKey) :
    FailsOnly Error.IsMalformedKey (publicMaterial k) := by
  unfold publicMaterial
  split
  · exact .ok _
  · exact .error ⟨_, rfl⟩

theorem Key.privateMaterial_failsOnly (k : Rsa.PrivateKey) :
    FailsOnly Error.IsMalformedKey (privateMaterial k) := by
  unfold privateMaterial
  split
  · exact .ok _
  · exact .error ⟨_, rfl⟩

namespace Jwk

theorem required_failsOnly (kty name : String) (member : Option String) :
    FailsOnly Error.IsMalformedKey (required kty name member) := by
  cases member with
  | none => exact .error ⟨_, rfl⟩
  | some text => exact .ok text

theorem decodeBytes_failsOnly (name text : String) :
    FailsOnly Error.IsMalformedKey (decodeBytes name text) :=
  .mapError (fun _ => ⟨_, rfl⟩) _

theorem decodeNonempty_failsOnly (name text : String) :
    FailsOnly Error.IsMalformedKey (decodeNonempty name text) := by
  refine .bind (decodeBytes_failsOnly name text) fun bytes => ?_
  split
  · exact .error ⟨_, rfl⟩
  · exact .ok bytes

theorem number_failsOnly (name : String) (member : Option String) :
    FailsOnly Error.IsMalformedKey (number name member) := by
  refine .bind (required_failsOnly "RSA" name member) fun text => ?_
  refine .bind (decodeNonempty_failsOnly name text) fun bytes => ?_
  exact .ok _

theorem publicKey_failsOnly (n e : Nat) : FailsOnly Error.IsMalformedKey (publicKey n e) := by
  unfold publicKey
  split
  · exact .mapError (fun _ => ⟨_, rfl⟩) _
  · exact .mapError (fun _ => ⟨_, rfl⟩) _

variable (j : Jwk)

theorem privateKey_failsOnly (n e d : Nat) :
    FailsOnly Error.IsMalformedKey (j.privateKey n e d) := by
  refine .bind (number_failsOnly "p" j.p) fun p => ?_
  refine .bind (number_failsOnly "q" j.q) fun q => ?_
  refine .bind (number_failsOnly "dp" j.dp) fun dp => ?_
  refine .bind (number_failsOnly "dq" j.dq) fun dq => ?_
  refine .bind (number_failsOnly "qi" j.qi) fun qi => ?_
  refine .bind (.mapError (fun _ => ⟨_, rfl⟩) _) fun k => ?_
  refine .bind (.mapError (fun _ => ⟨_, rfl⟩) _) fun key => ?_
  split
  · exact .ok key
  · exact .error ⟨_, rfl⟩

theorem symmetricMaterial_failsOnly : FailsOnly Error.IsMalformedKey j.symmetricMaterial := by
  refine .bind (required_failsOnly "oct" "k" j.k) fun text => ?_
  refine .bind (decodeBytes_failsOnly "k" text) fun bytes => ?_
  split
  · exact .ok _
  · exact .error ⟨_, rfl⟩

theorem rsaMaterial_failsOnly : FailsOnly Error.IsMalformedKey j.rsaMaterial := by
  unfold rsaMaterial
  split
  · exact .error ⟨_, rfl⟩
  · refine .bind (number_failsOnly "n" j.n) fun n => ?_
    refine .bind (number_failsOnly "e" j.e) fun e => ?_
    cases j.d with
    | none =>
      dsimp only
      split
      · exact .error ⟨_, rfl⟩
      · exact .bind (publicKey_failsOnly n e) Key.publicMaterial_failsOnly
    | some d =>
      refine .bind (decodeNonempty_failsOnly "d" d) fun bytes => ?_
      exact .bind (j.privateKey_failsOnly n e _) Key.privateMaterial_failsOnly

theorem toKey_failsOnly : FailsOnly Error.IsMalformedKey j.toKey := by
  unfold toKey
  split
  · exact .bind j.symmetricMaterial_failsOnly fun _ => .ok _
  · exact .bind j.rsaMaterial_failsOnly fun _ => .ok _
  · exact .error ⟨_, rfl⟩

end Jwk

namespace Key

/-- What does not become a key is malformed. -/
theorem ofObject_failsOnly (o : Object) : FailsOnly Error.IsMalformedKey (ofObject o) := by
  refine .bind ?_ Jwk.toKey_failsOnly
  refine .bind (.mapError (fun _ => ⟨_, rfl⟩) _) fun _ => .ok _

/-- Whether an object is a malformed key. -/
def IsMalformed (o : Object) : Prop := ∃ fault, ofObject o = .error (.malformedKey fault)

theorem isMalformed_of_ne_ok {o : Object} (h : ∀ key, ofObject o ≠ .ok key) : IsMalformed o := by
  cases ho : ofObject o with
  | error e =>
    obtain ⟨fault, rfl⟩ := ofObject_failsOnly o e ho
    exact ⟨fault, ho⟩
  | ok key => exact absurd ho (h key)

end Key

/-! ## The key that a document describes -/

theorem Key.publicMaterial_eq_ok_iff {material : KeyMaterial} {k : Rsa.PublicKey} :
    publicMaterial k = .ok material ↔ ∃ large, material = .rsaPublic k large := by
  unfold publicMaterial
  split
  · next large => exact ⟨fun h => ⟨large, (Except.ok.inj h).symm⟩, fun ⟨_, h⟩ => h ▸ rfl⟩
  · next small => exact ⟨nofun, fun ⟨large, _⟩ => absurd large small⟩

theorem Key.privateMaterial_eq_ok_iff {material : KeyMaterial} {k : Rsa.PrivateKey} :
    privateMaterial k = .ok material ↔ ∃ large, material = .rsaPrivate k large := by
  unfold privateMaterial
  split
  · next large => exact ⟨fun h => ⟨large, (Except.ok.inj h).symm⟩, fun ⟨_, h⟩ => h ▸ rfl⟩
  · next small => exact ⟨nofun, fun ⟨large, _⟩ => absurd large small⟩

namespace Jwk

/-- Whether a document holds the numbers of a private key. -/
structure Holds (j : Jwk) (x : Rsa.Numbers) : Prop where
  n : Spells j.n x.n
  e : Spells j.e x.e
  d : Spells j.d x.d
  p : Spells j.p x.p
  q : Spells j.q x.q
  dp : Spells j.dp x.dp
  dq : Spells j.dq x.dq
  qi : Spells j.qi x.qi

/-- Whether a document holds the numbers of a public key, which is not too large, and nothing of a
private one. -/
structure HoldsPublic (j : Jwk) (k : Rsa.PublicKey) : Prop where
  n : Spells j.n k.modulus
  e : Spells j.e k.exponent
  bits_le : k.bits ≤ maxPublicBits
  d : j.d = none
  stray : j.hasPrivateMember = false

/-- Whether a document describes what a key is made of. -/
def DescribesMaterial (j : Jwk) : KeyMaterial → Prop
  | .symmetric s => j.kty = "oct" ∧ j.k = some (Base64Url.encode s.bytes)
  | .rsaPublic k _ => j.kty = "RSA" ∧ j.oth = none ∧ j.HoldsPublic k
  | .rsaPrivate k _ => j.kty = "RSA" ∧ j.oth = none ∧ j.Holds k.numbers

/-- Whether a document describes a key. -/
def Describes (j : Jwk) (key : Key) : Prop :=
  j.DescribesMaterial key.material ∧ key.params = j.params

variable {j : Jwk} {material : KeyMaterial}

theorem hasPrivateMember_eq_false_iff : j.hasPrivateMember = false ↔
    j.p = none ∧ j.q = none ∧ j.dp = none ∧ j.dq = none ∧ j.qi = none := by
  simp [hasPrivateMember, and_assoc]

theorem symmetricMaterial_eq_ok_iff : j.symmetricMaterial = .ok material ↔
    ∃ s : Secret, material = .symmetric s ∧ j.k = some (Base64Url.encode s.bytes) := by
  simp only [symmetricMaterial, bind_eq_ok_iff, required_eq_ok_iff, decodeBytes_eq_ok_iff]
  constructor
  · rintro ⟨_, hk, bytes, rfl, h⟩
    split at h
    · next hne =>
      cases h
      exact ⟨⟨bytes, hne⟩, rfl, hk⟩
    · cases h
  · rintro ⟨s, rfl, hk⟩
    exact ⟨_, hk, s.bytes, rfl, dif_pos s.nonempty⟩

theorem publicKey_eq_ok_iff {n e : Nat} {k : Rsa.PublicKey} :
    publicKey n e = .ok k ↔ k.modulus = n ∧ k.exponent = e ∧ k.bits ≤ maxPublicBits := by
  unfold publicKey orPublicFlaw
  split
  · next hlarge =>
    refine ⟨nofun, ?_⟩
    rintro ⟨rfl, -, hbits⟩
    exact absurd hlarge (Nat.not_lt.2 hbits)
  · next hlarge =>
    rw [mapError_eq_ok_iff, Rsa.PublicKey.ofNumbers_eq_ok_iff]
    constructor
    · rintro ⟨rfl, rfl⟩
      exact ⟨rfl, rfl, Nat.not_lt.1 hlarge⟩
    · rintro ⟨hn, he, -⟩
      exact ⟨hn, he⟩

theorem privateKey_eq_ok_iff {n e d : Nat} {k : Rsa.PrivateKey} :
    j.privateKey n e d = .ok k ↔ k.modulus = n ∧ k.exponent = e ∧ k.secret = d ∧
      Spells j.p k.p ∧ Spells j.q k.q ∧ Spells j.dp k.dp ∧ Spells j.dq k.dq ∧
      Spells j.qi k.qi := by
  simp only [privateKey, bind_eq_ok_iff, number_eq_ok_iff, orPrivateFlaw, mapError_eq_ok_iff,
    Rsa.PublicKey.ofNumbers_eq_ok_iff, Rsa.PrivateKey.ofNumbers_eq_ok_iff]
  constructor
  · rintro ⟨p, hp, q, hq, dp, hdp, dq, hdq, qi, hqi, _, ⟨rfl, rfl⟩, key, ⟨rfl, rfl, rfl, rfl⟩, h⟩
    split at h
    · next hderived =>
      obtain ⟨rfl, rfl, rfl⟩ := hderived
      cases h
      exact ⟨rfl, rfl, rfl, hp, hq, hdp, hdq, hqi⟩
    · cases h
  · rintro ⟨rfl, rfl, rfl, hp, hq, hdp, hdq, hqi⟩
    refine ⟨_, hp, _, hq, _, hdp, _, hdq, _, hqi, k.toPublicKey, ⟨rfl, rfl⟩, k,
      ⟨rfl, rfl, rfl, rfl⟩, ?_⟩
    rw [if_pos ⟨rfl, rfl, rfl⟩]
    rfl

/-- Without a private exponent a public key is read. -/
theorem rsaMaterial_of_none (hoth : j.oth = none) (hd : j.d = none) :
    j.rsaMaterial = .ok material ↔
      ∃ k large, material = .rsaPublic k large ∧ j.HoldsPublic k := by
  simp only [rsaMaterial, hoth, hd, Option.isSome_none, Bool.false_eq_true, if_false,
    bind_eq_ok_iff, number_eq_ok_iff]
  constructor
  · rintro ⟨n, hn, e, he, h⟩
    split at h
    · cases h
    · next hprivate =>
      obtain ⟨k, hk, hmaterial⟩ := bind_eq_ok_iff.1 h
      obtain ⟨rfl, rfl, hbits⟩ := publicKey_eq_ok_iff.1 hk
      obtain ⟨large, rfl⟩ := Key.publicMaterial_eq_ok_iff.1 hmaterial
      exact ⟨k, large, rfl, hn, he, hbits, hd, Bool.not_eq_true _ ▸ hprivate⟩
  · rintro ⟨k, large, rfl, h⟩
    refine ⟨_, h.n, _, h.e, ?_⟩
    rw [h.stray, if_neg Bool.false_ne_true]
    exact bind_eq_ok_iff.2 ⟨k, publicKey_eq_ok_iff.2 ⟨rfl, rfl, h.bits_le⟩,
      Key.publicMaterial_eq_ok_iff.2 ⟨large, rfl⟩⟩

/-- With a private exponent a private key is read. -/
theorem rsaMaterial_of_some {text : String} (hoth : j.oth = none) (hd : j.d = some text) :
    j.rsaMaterial = .ok material ↔
      ∃ k large, material = .rsaPrivate k large ∧ j.Holds k.numbers := by
  simp only [rsaMaterial, hoth, hd, Option.isSome_none, Bool.false_eq_true, if_false,
    bind_eq_ok_iff, number_eq_ok_iff, decodeNonempty_eq_ok_iff]
  constructor
  · rintro ⟨n, hn, e, he, bytes, ⟨rfl, hne⟩, k, hk, hmaterial⟩
    obtain ⟨rfl, rfl, hsecret, hp, hq, hdp, hdq, hqi⟩ := privateKey_eq_ok_iff.1 hk
    obtain ⟨large, rfl⟩ := Key.privateMaterial_eq_ok_iff.1 hmaterial
    exact ⟨k, large, rfl, hn, he, ⟨bytes, hne, hd, hsecret.symm⟩, hp, hq, hdp, hdq, hqi⟩
  · rintro ⟨k, large, rfl, h⟩
    obtain ⟨bytes, hne, hsome, hsecret⟩ := h.d
    rw [hd, Option.some.injEq] at hsome
    exact ⟨_, h.n, _, h.e, bytes, ⟨hsome, hne⟩, k,
      privateKey_eq_ok_iff.2 ⟨rfl, rfl, hsecret.symm, h.p, h.q, h.dp, h.dq, h.qi⟩,
      Key.privateMaterial_eq_ok_iff.2 ⟨large, rfl⟩⟩

/-- Whether there is a private exponent decides which half is read. -/
theorem rsaMaterial_eq_ok_iff : j.rsaMaterial = .ok material ↔ j.oth = none ∧
    ((∃ k large, material = .rsaPublic k large ∧ j.HoldsPublic k) ∨
      ∃ k large, material = .rsaPrivate k large ∧ j.Holds k.numbers) := by
  cases hoth : j.oth with
  | some v =>
    rw [rsaMaterial, hoth]
    exact ⟨nofun, nofun⟩
  | none =>
    rw [and_iff_right rfl]
    cases hd : j.d with
    | none =>
      rw [rsaMaterial_of_none hoth hd, iff_self_or]
      rintro ⟨k, large, rfl, h⟩
      obtain ⟨bytes, -, hsome, -⟩ := h.d
      rw [hd] at hsome
      cases hsome
    | some text =>
      rw [rsaMaterial_of_some hoth hd, iff_or_self]
      rintro ⟨k, large, rfl, h⟩
      rw [h.d] at hd
      cases hd

/-- A key is made of its material and its parameters. -/
theorem withParams_eq_ok_iff {x : Except Error KeyMaterial} {params : KeyParams} {key : Key} :
    (do return Key.mk (← x) params) = .ok key ↔ x = .ok key.material ∧ key.params = params := by
  rw [bind_eq_ok_iff]
  constructor
  · rintro ⟨material, hx, h⟩
    cases h
    exact ⟨hx, rfl⟩
  · rintro ⟨hx, rfl⟩
    exact ⟨key.material, hx, rfl⟩

/-- A document becomes exactly the key that it describes. -/
theorem toKey_eq_ok_iff {key : Key} : j.toKey = .ok key ↔ j.Describes key := by
  obtain ⟨material, params⟩ := key
  unfold toKey Describes
  -- the type decides which material can be described
  split
  · next hkty =>
    rw [withParams_eq_ok_iff, symmetricMaterial_eq_ok_iff]
    cases material with
    | symmetric s => simp [DescribesMaterial, hkty]
    | rsaPublic k large => simp [DescribesMaterial, hkty]
    | rsaPrivate k large => simp [DescribesMaterial, hkty]
  · next hkty =>
    rw [withParams_eq_ok_iff, rsaMaterial_eq_ok_iff]
    cases material with
    | symmetric s => simp [DescribesMaterial, hkty]
    | rsaPublic k large => simp [DescribesMaterial, hkty, large]
    | rsaPrivate k large => simp [DescribesMaterial, hkty, large]
  · next hoct hrsa =>
    refine ⟨nofun, ?_⟩
    rintro ⟨h, -⟩
    cases material with
    | symmetric s => exact absurd h.1 hoct
    | rsaPublic k large => exact absurd h.1 hrsa
    | rsaPrivate k large => exact absurd h.1 hrsa

/-! ## The documents of keys -/

theorem describes_ofSecret (s : Secret) (params : KeyParams) :
    (ofSecret s params).Describes ⟨.symmetric s, params⟩ :=
  ⟨⟨rfl, rfl⟩, rfl⟩

theorem describes_ofPublic {k : Rsa.PublicKey} (large : minModulusBits ≤ k.bits)
    (h : k.bits ≤ maxPublicBits) (params : KeyParams) :
    (ofPublic k params).Describes ⟨.rsaPublic k large, params⟩ :=
  ⟨⟨rfl, rfl, spells_numberText _, spells_numberText _, h, rfl, rfl⟩, rfl⟩

theorem holds_ofPrivate (k : Rsa.PrivateKey) (params : KeyParams) :
    (ofPrivate k params).Holds k.numbers where
  n := spells_numberText _
  e := spells_numberText _
  d := spells_numberText _
  p := spells_numberText _
  q := spells_numberText _
  dp := spells_numberText _
  dq := spells_numberText _
  qi := spells_numberText _

theorem describes_ofPrivate {k : Rsa.PrivateKey} (large : minModulusBits ≤ k.bits)
    (params : KeyParams) : (ofPrivate k params).Describes ⟨.rsaPrivate k large, params⟩ :=
  ⟨⟨rfl, rfl, holds_ofPrivate k params⟩, rfl⟩

theorem ofObject_eq_ok_iff {o : Object} :
    ofObject o = .ok j ↔ record.checkObject o = .ok () ∧ ofMembers o = j := by
  simp only [ofObject, orMalformed, bind_eq_ok_iff, mapError_eq_ok_iff,
    Json.Record.read_object_eq_ok_iff]
  constructor
  · rintro ⟨_, ⟨hcheck, rfl⟩, h⟩
    exact ⟨hcheck, Except.ok.inj h⟩
  · rintro ⟨hcheck, rfl⟩
    exact ⟨o, ⟨hcheck, rfl⟩, rfl⟩

end Jwk

/-! ## Keys of objects -/

/-- Whether an object has a member that is not null. -/
def Json.Object.Gives (o : Object) (name : String) : Prop :=
  ∃ v, o.get? name = some v ∧ v ≠ .null

namespace Key

variable {o : Object} {key : Key}

/-- An object becomes exactly the key that its members describe. -/
theorem ofObject_eq_ok_iff : ofObject o = .ok key ↔
    Jwk.record.checkObject o = .ok () ∧ (Jwk.ofMembers o).Describes key := by
  simp only [ofObject, bind_eq_ok_iff, Jwk.ofObject_eq_ok_iff, Jwk.toKey_eq_ok_iff]
  constructor
  · rintro ⟨_, ⟨hcheck, rfl⟩, h⟩
    exact ⟨hcheck, h⟩
  · rintro ⟨hcheck, h⟩
    exact ⟨_, ⟨hcheck, rfl⟩, h⟩

/-- The object of a document becomes what the document does. -/
theorem ofObject_toObject {j : Jwk} (h : j.oth = none) : ofObject j.toObject = j.toKey := by
  rw [ofObject, Jwk.ofObject_toObject (by simp [h])]
  rfl

theorem ofObject_ofSecret (s : Secret) (params : KeyParams) :
    ofObject (Jwk.ofSecret s params).toObject = .ok ⟨.symmetric s, params⟩ :=
  (ofObject_toObject rfl).trans (Jwk.toKey_eq_ok_iff.2 (Jwk.describes_ofSecret s params))

theorem ofObject_ofPrivate {k : Rsa.PrivateKey} (large : minModulusBits ≤ k.bits)
    (params : KeyParams) :
    ofObject (Jwk.ofPrivate k params).toObject = .ok ⟨.rsaPrivate k large, params⟩ :=
  (ofObject_toObject rfl).trans (Jwk.toKey_eq_ok_iff.2 (Jwk.describes_ofPrivate large params))

end Key

/-! ## The numbers of a private key -/

section Numbers

variable {o : Object} {key : Key}

/-- A checked member that may be a text is one, unless it is null. -/
theorem Jwk.exists_text_of_gives (hcheck : record.checkObject o = .ok ()) {name : String}
    (hname : name ∈ textNames) (h : o.Gives name) : ∃ s, o.text? name = some s := by
  obtain ⟨v, hv, hnull⟩ := h
  have hmember := (Json.Record.checkObject_eq_ok_iff.1 hcheck).1 _ (Object.mem_of_get? hv)
  rcases (checkMember_text_iff hname).1 hmember with rfl | ⟨s, rfl⟩
  · exact absurd rfl hnull
  · exact ⟨s, Object.text?_of_get? (s := some s) hv⟩

theorem Jwk.othOf_eq_none_iff : othOf o = none ↔ ¬o.Gives "oth" := by
  unfold othOf Object.Gives
  cases o.get? "oth" with
  | none => simp
  | some v => cases v <;> simp

theorem Jwk.Spells.gives {name : String} {n : Nat} (h : Spells (o.text? name) n) :
    o.Gives name := by
  obtain ⟨bytes, -, htext, -⟩ := h
  unfold Object.text? at htext
  split at htext
  · next s hs => exact ⟨.string s, hs, nofun⟩
  · cases htext

/-- The members that only a private key has. -/
def Jwk.privateNames : List String := ["d", "p", "q", "dp", "dq", "qi"]

/-- A document that holds a public key has no member of a private one. -/
theorem Jwk.HoldsPublic.not_gives {k : Rsa.PublicKey} (h : (ofMembers o).HoldsPublic k)
    (hcheck : record.checkObject o = .ok ()) {name : String} (hname : name ∈ privateNames) :
    ¬o.Gives name := by
  -- what is not null is a text, so the field of the document would not be empty
  intro hgives
  have hsub : privateNames ⊆ textNames := by decide
  obtain ⟨s, hs⟩ := exists_text_of_gives hcheck (hsub hname) hgives
  have hd : o.text? "d" = none := h.d
  obtain ⟨hp, hq, hdp, hdq, hqi⟩ := hasPrivateMember_eq_false_iff.1 h.stray
  simp only [ofMembers] at hp hq hdp hdq hqi
  simp only [privateNames, List.mem_cons, List.not_mem_nil, or_false] at hname
  rcases hname with rfl | rfl | rfl | rfl | rfl | rfl <;> simp_all only [reduceCtorEq]

namespace Key

/-- An RSA document without further factors becomes a public key or a private one. -/
theorem rsa_of_ofObject (hkty : o.text? "kty" = some "RSA") (h : ofObject o = .ok key) :
    ¬o.Gives "oth" ∧
      ((∃ k large, key.material = .rsaPublic k large ∧ (Jwk.ofMembers o).HoldsPublic k) ∨
        ∃ k large, key.material = .rsaPrivate k large ∧ (Jwk.ofMembers o).Holds k.numbers) := by
  have hrsa : (Jwk.ofMembers o).kty = "RSA" := congrArg (·.getD "") hkty
  obtain ⟨-, hdescribes⟩ := ofObject_eq_ok_iff.1 h
  rw [← Jwk.toKey_eq_ok_iff, Jwk.toKey, hrsa] at hdescribes
  obtain ⟨hmaterial, -⟩ := Jwk.withParams_eq_ok_iff.1 hdescribes
  obtain ⟨hoth, hhalves⟩ := Jwk.rsaMaterial_eq_ok_iff.1 hmaterial
  exact ⟨Jwk.othOf_eq_none_iff.1 hoth, hhalves⟩

/-- A document with a member of a private key becomes a private key, if any, with the numbers of
the document. -/
theorem exists_private (hkty : o.text? "kty" = some "RSA") {name : String}
    (hname : name ∈ Jwk.privateNames) (hgives : o.Gives name) (h : ofObject o = .ok key) :
    ∃ k, key.rsaPrivate? = some k ∧ minModulusBits ≤ k.bits ∧
      (Jwk.ofMembers o).Holds k.numbers := by
  obtain ⟨hcheck, -⟩ := ofObject_eq_ok_iff.1 h
  obtain ⟨-, ⟨k, large, -, hpublic⟩ | ⟨k, large, hmaterial, hholds⟩⟩ := rsa_of_ofObject hkty h
  · exact absurd hgives (hpublic.not_gives hcheck hname)
  · refine ⟨k, ?_, large, hholds⟩
    rw [rsaPrivate?, hmaterial]

/-- A document with a member of a private key is malformed if it holds the numbers of none. -/
theorem isMalformed_of_not_holds (hkty : o.text? "kty" = some "RSA") {name : String}
    (hname : name ∈ Jwk.privateNames) (hgives : o.Gives name)
    (h : ∀ k : Rsa.PrivateKey, ¬(Jwk.ofMembers o).Holds k.numbers) : IsMalformed o := by
  apply isMalformed_of_ne_ok
  intro key hok
  obtain ⟨k, -, -, hk⟩ := exists_private hkty hname hgives hok
  exact h k hk

/-- A document with further factors is malformed. -/
theorem isMalformed_of_gives_oth (hkty : o.text? "kty" = some "RSA") (h : o.Gives "oth") :
    IsMalformed o := by
  apply isMalformed_of_ne_ok
  intro key hok
  exact (rsa_of_ofObject hkty hok).1 h

/-- The numbers of an RSA private key that was read are those of its document. They fit together,
and if the factors are prime the private power undoes the public one, whether it is taken at once
or made from the powers modulo the factors. A document whose derived numbers are others, that has a
member of a private key without a private exponent, or that has further factors, is malformed. -/
theorem imported_numbers_fit (hkty : o.text? "kty" = some "RSA") :
    (∀ key, o.Gives "d" → ofObject o = .ok key →
      ∃ k, key.rsaPrivate? = some k ∧ (Jwk.ofMembers o).Holds k.numbers ∧ k.numbers.Fit ∧
        2048 ≤ k.bits ∧ (k.p.Prime → k.q.Prime →
          k.numbers.Invert ∧ ∀ c, k.combine c = c ^ k.secret % k.modulus)) ∧
    (∀ d p dp, Jwk.Spells (o.text? "d") d → Jwk.Spells (o.text? "p") p →
      Jwk.Spells (o.text? "dp") dp → dp ≠ d % (p - 1) → IsMalformed o) ∧
    (∀ d q dq, Jwk.Spells (o.text? "d") d → Jwk.Spells (o.text? "q") q →
      Jwk.Spells (o.text? "dq") dq → dq ≠ d % (q - 1) → IsMalformed o) ∧
    (∀ p q qi, Jwk.Spells (o.text? "p") p → Jwk.Spells (o.text? "q") q →
      Jwk.Spells (o.text? "qi") qi → ¬(qi < p ∧ qi * q % p = 1) → IsMalformed o) ∧
    (∀ name ∈ ["p", "q", "dp", "dq", "qi"], o.Gives name → ¬o.Gives "d" → IsMalformed o) ∧
    (o.Gives "oth" → IsMalformed o) := by
  refine ⟨?accepted, ?dp, ?dq, ?qi, ?stray, isMalformed_of_gives_oth hkty⟩
  case accepted =>
    intro key hd hok
    obtain ⟨k, hk, large, hholds⟩ := exists_private hkty (by decide) hd hok
    exact ⟨k, hk, hholds, k.fit_numbers, large,
      fun hp hq => ⟨k.invert_numbers hp hq, k.combine_eq_pow hp hq⟩⟩
  -- a key with the numbers of the document would have the derived ones, and these are others
  case dp =>
    intro d p dp hd hp hdp hne
    refine isMalformed_of_not_holds hkty (by decide) hdp.gives fun k hholds => hne ?_
    rw [hdp.unique hholds.dp, hd.unique hholds.d, hp.unique hholds.p, k.fit_numbers.dp]
  case dq =>
    intro d q dq hd hq hdq hne
    refine isMalformed_of_not_holds hkty (by decide) hdq.gives fun k hholds => hne ?_
    rw [hdq.unique hholds.dq, hd.unique hholds.d, hq.unique hholds.q, k.fit_numbers.dq]
  case qi =>
    intro p q qi hp hq hqi hne
    refine isMalformed_of_not_holds hkty (by decide) hqi.gives fun k hholds => hne ?_
    rw [hqi.unique hholds.qi, hp.unique hholds.p, hq.unique hholds.q]
    exact k.fit_numbers.qi
  case stray =>
    intro name hname hgives hd
    have hprivate : name ∈ Jwk.privateNames := List.mem_cons_of_mem _ hname
    exact isMalformed_of_not_holds hkty hprivate hgives fun k hholds => hd hholds.d.gives

/-- The document of the key of the Mersenne primes is read, and is malformed with another derived
number, without its private exponent, or with further factors. -/
theorem imported_numbers_fit_ofMersenne :
    let j := Jwk.ofPrivate .ofMersenne .none
    (∃ k, ofMersenne.rsaPrivate? = some k ∧ (Jwk.ofMembers j.toObject).Holds k.numbers ∧
      k.numbers.Fit ∧ 2048 ≤ k.bits ∧ k.numbers.Invert ∧
        ∀ c, k.combine c = c ^ k.secret % k.modulus) ∧
    IsMalformed { j with dp := some (Jwk.numberText 1) }.toObject ∧
    IsMalformed { j with dq := some (Jwk.numberText 1) }.toObject ∧
    IsMalformed { j with qi := some (Jwk.numberText 1) }.toObject ∧
    IsMalformed { j with d := none }.toObject ∧
    IsMalformed { j with oth := some (.array []) }.toObject := by
  intro j
  have text : ∀ {j : Jwk} {name : String} {n : Nat},
      (j.members.lookup name).join = some (.string (Jwk.numberText n)) →
        Jwk.Spells (j.toObject.text? name) n := by
    intro j name n h
    rw [Jwk.text?_toObject (s := some (Jwk.numberText n)) h]
    exact Jwk.spells_numberText n
  have hkty : ∀ {j : Jwk}, j.kty = "RSA" → j.toObject.text? "kty" = some "RSA" :=
    fun h => Jwk.text?_toObject (congrArg (fun s => some (Value.string s)) h)
  have hread : ofObject j.toObject = .ok ofMersenne := ofObject_ofPrivate _ _
  refine ⟨?_, ?_, ?_, ?_, ?_, ?_⟩
  · obtain ⟨k, hk, hholds, hfit, hbits, hinvert⟩ :=
      (imported_numbers_fit (hkty rfl)).1 ofMersenne (text rfl).gives hread
    obtain rfl : .ofMersenne = k := Option.some.inj hk
    exact ⟨_, hk, hholds, hfit, hbits,
      hinvert Rsa.PrivateKey.prime_p_ofMersenne Rsa.PrivateKey.prime_q_ofMersenne⟩
  · exact (imported_numbers_fit (hkty rfl)).2.1 _ _ _ (text rfl) (text rfl) (text rfl)
      (by decide +kernel)
  · exact (imported_numbers_fit (hkty rfl)).2.2.1 _ _ _ (text rfl) (text rfl) (text rfl)
      (by decide +kernel)
  · exact (imported_numbers_fit (hkty rfl)).2.2.2.1 _ _ _ (text rfl) (text rfl) (text rfl)
      (by decide +kernel)
  · refine (imported_numbers_fit (hkty rfl)).2.2.2.2.1 "p" (by decide) (text rfl).gives ?_
    rintro ⟨v, hv, -⟩
    rw [Jwk.get?_toObject] at hv
    cases hv
  · exact (imported_numbers_fit (hkty rfl)).2.2.2.2.2 ⟨.array [], Jwk.get?_toObject _ "oth", nofun⟩

end Key

end Numbers

end WebToken
