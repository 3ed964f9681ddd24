import WebToken.Proofs.Key.Import

/-!
# Keys are read back from their documents

A key that holds a secret is read back from its full document. The public half of an RSA key is
read back from the public document, unless its modulus is too large for a document that stands
alone: a private key may have such a modulus, and then only its full document is read.

* `Key.export_import` : what is exported, and what is read back from it.
-/

namespace WebToken

open Crypto
open Json (Object)

/-- The names of the parameters that are there, in the order of a document. -/
def KeyParams.names (params : KeyParams) : List String :=
  (if params.use.isSome then ["use"] else []) ++
  (if params.operations.isSome then ["key_ops"] else []) ++
  (if params.alg.isSome then ["alg"] else []) ++
  (if params.kid.isSome then ["kid"] else [])

namespace Jwk

variable {k : Rsa.PublicKey}

/-- A public document has the type, the parameters that are there, and the public numbers. -/
theorem names_ofPublic (k : Rsa.PublicKey) (params : KeyParams) :
    (ofPublic k params).toObject.names = "kty" :: params.names ++ ["n", "e"] := by
  -- each parameter is there or not, and then the members are listed
  obtain ⟨kid, use, operations, alg⟩ := params
  cases kid <;> cases use <;> cases operations <;> cases alg <;> rfl

/-- A public document whose modulus is not too large is read. -/
theorem toKey_ofPublic (large : minModulusBits ≤ k.bits) (h : k.bits ≤ maxPublicBits)
    (params : KeyParams) : (ofPublic k params).toKey = .ok ⟨.rsaPublic k large, params⟩ :=
  toKey_eq_ok_iff.2 (describes_ofPublic large h params)

/-- A public document whose modulus is too large is refused. -/
theorem toKey_ofPublic_of_lt (h : maxPublicBits < k.bits) (params : KeyParams) :
    (ofPublic k params).toKey = .error (.malformedKey (.publicNumbers .modulusTooLarge)) := by
  have hn : number "n" (ofPublic k params).n = .ok k.modulus :=
    number_eq_ok_iff.2 (spells_numberText _)
  have he : number "e" (ofPublic k params).e = .ok k.exponent :=
    number_eq_ok_iff.2 (spells_numberText _)
  have hk : publicKey k.modulus k.exponent =
      .error (.malformedKey (.publicNumbers .modulusTooLarge)) := if_pos h
  have hmaterial : (ofPublic k params).rsaMaterial =
      .error (.malformedKey (.publicNumbers .modulusTooLarge)) := by
    rw [rsaMaterial, hn, he]
    show (publicKey k.modulus k.exponent >>= Key.publicMaterial) = _
    rw [hk]
    rfl
  show ((ofPublic k params).rsaMaterial >>= fun m => Except.ok (Key.mk m params)) = _
  rw [hmaterial]
  rfl

end Jwk

namespace Key

/-- What is read from the public document of an RSA key. -/
theorem ofObject_ofPublic {k : Rsa.PublicKey} (large : minModulusBits ≤ k.bits)
    (params : KeyParams) :
    ofObject (Jwk.ofPublic k params).toObject =
      if k.bits ≤ 4096 then .ok ⟨.rsaPublic k large, params⟩
      else .error (.malformedKey (.publicNumbers .modulusTooLarge)) := by
  rw [ofObject_toObject rfl]
  split
  · next h => exact Jwk.toKey_ofPublic large h params
  · next h => exact Jwk.toKey_ofPublic_of_lt (Nat.not_le.1 h) params

section

variable {key : Key} {o : Object}

theorem exists_exportPrivate (h : key.hasPrivate = true) : ∃ o, key.exportPrivate = .ok o := by
  obtain ⟨material, params⟩ := key
  cases material with
  | symmetric s => exact ⟨_, rfl⟩
  | rsaPublic k large => cases h
  | rsaPrivate k large => exact ⟨_, rfl⟩

theorem exists_exportPublic (h : key.isSymmetric = false) :
    ∃ o, key.exportPublic = .ok o ∧ o.names = "kty" :: key.params.names ++ ["n", "e"] := by
  obtain ⟨material, params⟩ := key
  cases material with
  | symmetric s => cases h
  | rsaPublic k large => exact ⟨_, rfl, Jwk.names_ofPublic k params⟩
  | rsaPrivate k large => exact ⟨_, rfl, Jwk.names_ofPublic k.toPublicKey params⟩

/-- A key is read back from its full document. -/
theorem ofObject_of_exportPrivate (h : key.exportPrivate = .ok o) : ofObject o = .ok key := by
  obtain ⟨material, params⟩ := key
  cases material with
  | symmetric s =>
    cases h
    exact ofObject_ofSecret s params
  | rsaPublic k large => cases h
  | rsaPrivate k large =>
    cases h
    exact ofObject_ofPrivate large params

/-- The public half of a key is read back from the public document, if its modulus is not too
large. -/
theorem ofObject_of_exportPublic (h : key.exportPublic = .ok o) :
    ∃ half, key.toPublic = .ok half ∧
      ofObject o = if key.bits ≤ 4096 then .ok half
        else .error (.malformedKey (.publicNumbers .modulusTooLarge)) := by
  obtain ⟨material, params⟩ := key
  cases material with
  | symmetric s => cases h
  | rsaPublic k large =>
    cases h
    exact ⟨_, rfl, ofObject_ofPublic large params⟩
  | rsaPrivate k large =>
    cases h
    exact ⟨_, rfl, ofObject_ofPublic large params⟩

end

/-- A key with anything secret is read back from its full document, and no other key has one. An
RSA key has a public document, with the public numbers and the parameters that are there; its
public half is read back from it if the modulus has at most 4096 bits, and refused otherwise. -/
theorem export_import (key : Key) :
    (key.hasPrivate = true → ∃ o, key.exportPrivate = .ok o ∧ ofObject o = .ok key) ∧
    (key.hasPrivate = false →
      key.exportPrivate = .error (.unsupportedOperation .noPrivatePart)) ∧
    (key.isSymmetric = false → ∃ o half, key.exportPublic = .ok o ∧ key.toPublic = .ok half ∧
      o.names = "kty" :: key.params.names ++ ["n", "e"] ∧
      ofObject o = if key.bits ≤ 4096 then .ok half
        else .error (.malformedKey (.publicNumbers .modulusTooLarge))) ∧
    (key.isSymmetric = true →
      key.exportPublic = .error (.unsupportedOperation .noPublicPart)) := by
  refine ⟨?full, ?noFull, ?half, ?noHalf⟩
  case full =>
    intro h
    obtain ⟨o, ho⟩ := exists_exportPrivate h
    exact ⟨o, ho, ofObject_of_exportPrivate ho⟩
  case half =>
    intro h
    obtain ⟨o, ho, hnames⟩ := exists_exportPublic h
    obtain ⟨half, hhalf, hread⟩ := ofObject_of_exportPublic ho
    exact ⟨o, half, ho, hhalf, hnames, hread⟩
  all_goals
    obtain ⟨material, params⟩ := key
    cases material
  case noFull.rsaPublic => exact fun _ => rfl
  case noHalf.symmetric => exact fun _ => rfl
  all_goals exact nofun

/-- The key of the Mersenne primes and its public half are read back. The half has no full
document, and a shared secret has no public one. -/
theorem export_import_ofMersenne :
    (∃ o, ofMersenne.exportPrivate = .ok o ∧ ofObject o = .ok ofMersenne) ∧
    (∃ o half, ofMersenne.exportPublic = .ok o ∧ ofMersenne.toPublic = .ok half ∧
      o.names = ["kty", "n", "e"] ∧ ofObject o = .ok half ∧
      half.exportPrivate = .error (.unsupportedOperation .noPrivatePart)) ∧
    (Key.mk (.symmetric ⟨[0], by decide⟩) .none).exportPublic =
      .error (.unsupportedOperation .noPublicPart) := by
  refine ⟨(export_import ofMersenne).1 rfl, ?_, (export_import _).2.2.2 rfl⟩
  obtain ⟨o, half, ho, hhalf, hnames, hread⟩ := (export_import ofMersenne).2.2.1 rfl
  rw [if_pos (by decide +kernel)] at hread
  refine ⟨o, half, ho, hhalf, hnames, hread, (export_import half).2.1 ?_⟩
  rw [← Except.ok.inj hhalf]
  rfl

end Key

/-! ## A modulus that is too large to stand alone -/

/-- A private key of larger Mersenne primes: its modulus has 4484 bits. -/
def Crypto.Rsa.PrivateKey.ofLargeMersenne : Rsa.PrivateKey where
  modulus := mersenne 2203 * mersenne 2281
  exponent := 257
  modulus_odd := by decide +kernel
  exponent_odd := by decide
  one_lt_exponent := by decide
  exponent_lt := by decide
  exponent_lt_modulus := by decide +kernel
  secret := (1 + 212 * ((mersenne 2203 - 1) * (mersenne 2281 - 1))) / 257
  p := mersenne 2203
  q := mersenne 2281
  product := rfl
  inverse_p := by decide +kernel
  inverse_q := by decide +kernel
  coprime := by decide +kernel

/-- The key of the larger Mersenne primes. -/
def Key.ofLargeMersenne : Key := ⟨.rsaPrivate .ofLargeMersenne (by decide +kernel), .none⟩

/-- Some keys are read whose public half is not read back: the modulus is too large for a document
without a private half. -/
theorem Key.not_forall_half_read_back :
    ¬∀ (o o' : Object) (key half : Key), ofObject o = .ok key → key.exportPublic = .ok o' →
      key.toPublic = .ok half → ofObject o' = .ok half := by
  intro h
  have hread : ofObject (Jwk.ofPrivate .ofLargeMersenne .none).toObject = .ok ofLargeMersenne :=
    ofObject_ofPrivate _ _
  have hhalf := h _ _ _ _ hread rfl rfl
  rw [ofObject_ofPublic (by decide +kernel), if_neg (by decide +kernel)] at hhalf
  cases hhalf

end WebToken
