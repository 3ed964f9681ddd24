import WebToken.Proofs.Numbers
import WebToken.Proofs.Signing

/-!
# Secrets that are one key to a keyed hash

A keyed hash fills its key up with zeros to a block, and hashes a key that is longer than a block
first. So different secrets can be one key to it, and what is signed with one of them is verified
with the other. For any other two secrets the hash function is applied to two different strings: a
signature with the one is refused under the other, unless the hash function takes one value at both.

* `Hash.padKey_eq_iff` : which keys are padded alike;
* `Hash.sameKey_append_zeros` and `Hash.sameKey_digest` : different keys that are;
* `Hash.exists_collides` : for every message there are keys with one keyed hash that are not;
* `SignedToken.cross_key_verification` : when a secret verifies what another one signed;
* `SignedToken.not_crossKeyRejected` : it may do so although the two are different.
-/

namespace WebToken

open Crypto (Hash)

/-- Zeros behind a string are not told from its end. -/
theorem Bytes.getD_append_zeros (bytes : Bytes) (n i : Nat) :
    (bytes ++ List.replicate n 0).getD i 0 = bytes.getD i 0 := by
  rcases Nat.lt_or_ge i bytes.length with hi | hi
  · exact List.getD_append _ _ _ _ hi
  · rw [List.getD_append_right _ _ _ _ hi, List.getD_eq_default _ _ hi, List.getD_eq_getElem?_getD]
    exact List.getElem?_getD_replicate_default_eq _ n _

/-- Strings of one length are equal if all their bytes are. -/
theorem Bytes.eq_of_getD_eq {a b : Bytes} (hlength : a.length = b.length)
    (h : ∀ i, a.getD i 0 = b.getD i 0) : a = b := by
  apply List.ext_getElem hlength
  intro i hi hi'
  have hbyte := h i
  rw [List.getD_eq_getElem _ _ hi, List.getD_eq_getElem _ _ hi'] at hbyte
  exact hbyte

namespace Crypto

namespace Hash

variable {h : Hash} {key key' : Bytes}

/-! ## Keys -/

/-- What stands for a key: its hash if it is longer than a block. -/
def shortened (h : Hash) (key : Bytes) : Bytes :=
  if h.blockBytes < key.length then h.digest key else key

/-- Whether two keys are one key to the keyed hash: with zeros behind them, the strings that stand
for them are equal. -/
def SameKey (h : Hash) (key key' : Bytes) : Prop :=
  ∀ i, (h.shortened key).getD i 0 = (h.shortened key').getD i 0

theorem size_lt_blockBytes (h : Hash) : h.size < h.blockBytes := by
  cases h <;> decide

theorem length_shortened_le (h : Hash) (key : Bytes) :
    (h.shortened key).length ≤ h.blockBytes := by
  unfold shortened
  split
  · rw [length_digest]
    exact h.size_lt_blockBytes.le
  · next hshort => exact Nat.le_of_not_lt hshort

theorem shortened_of_le (hlength : key.length ≤ h.blockBytes) : h.shortened key = key :=
  if_neg (Nat.not_lt.2 hlength)

theorem padKey_eq_shortened (h : Hash) (key : Bytes) :
    h.padKey key =
      h.shortened key ++ List.replicate (h.blockBytes - (h.shortened key).length) 0 :=
  rfl

theorem length_padKey (h : Hash) (key : Bytes) : (h.padKey key).length = h.blockBytes := by
  rw [padKey_eq_shortened, List.length_append, List.length_replicate]
  have hlength := h.length_shortened_le key
  omega

theorem getD_padKey (h : Hash) (key : Bytes) (i : Nat) :
    (h.padKey key).getD i 0 = (h.shortened key).getD i 0 := by
  rw [padKey_eq_shortened, Bytes.getD_append_zeros]

/-- Keys are padded alike exactly if they are one key. -/
theorem padKey_eq_iff : h.padKey key = h.padKey key' ↔ h.SameKey key key' := by
  constructor
  · intro heq i
    rw [← getD_padKey, ← getD_padKey, heq]
  · intro hsame
    apply Bytes.eq_of_getD_eq
    · rw [length_padKey, length_padKey]
    · intro i
      rw [getD_padKey, getD_padKey]
      exact hsame i

/-- Zeros at the end of a key do not count, if it fits into a block with them. -/
theorem sameKey_append_zeros {n : Nat} (hlength : key.length + n ≤ h.blockBytes) :
    h.SameKey key (key ++ List.replicate n 0) := by
  intro i
  have hfilled : (key ++ List.replicate n 0).length ≤ h.blockBytes := by
    rw [List.length_append, List.length_replicate]
    exact hlength
  rw [shortened_of_le (by omega), shortened_of_le hfilled, Bytes.getD_append_zeros]

/-- A key that does not fit into a block is one key with its hash. -/
theorem sameKey_digest (hlength : h.blockBytes < key.length) : h.SameKey key (h.digest key) := by
  intro i
  have hdigest : (h.digest key).length ≤ h.blockBytes := by
    rw [length_digest]
    exact h.size_lt_blockBytes.le
  rw [shortened_of_le hdigest, shortened, if_pos hlength]

/-- Keys of one length that fit into a block are one key only if they are equal. -/
theorem sameKey_iff_of_length_eq (hlength : key.length = key'.length)
    (hblock : key.length ≤ h.blockBytes) : h.SameKey key key' ↔ key = key' := by
  constructor
  · intro hsame
    refine Bytes.eq_of_getD_eq hlength fun i => ?_
    have hbyte := hsame i
    rw [shortened_of_le hblock, shortened_of_le (hlength ▸ hblock)] at hbyte
    exact hbyte
  · rintro rfl i
    rfl

/-! ## Keyed hashes -/

/-- The string whose hash is the keyed hash of a message. -/
def outer (h : Hash) (key message : Bytes) : Bytes :=
  (h.padKey key).map (· ^^^ 0x5C) ++ h.digest ((h.padKey key).map (· ^^^ 0x36) ++ message)

theorem hmac_eq_digest_outer (h : Hash) (key message : Bytes) :
    h.hmac key message = h.digest (h.outer key message) :=
  rfl

/-- Whether the hash function takes one value at two strings that are different: those whose hashes
are the keyed hashes of a message under two keys. -/
def Collides (h : Hash) (key key' message : Bytes) : Prop :=
  h.outer key message ≠ h.outer key' message ∧
    h.digest (h.outer key message) = h.digest (h.outer key' message)

/-- The padded key can be read off the string that is hashed. -/
theorem padKey_eq_of_outer_eq {message : Bytes}
    (heq : h.outer key message = h.outer key' message) : h.padKey key = h.padKey key' := by
  have hlength : ((h.padKey key).map (· ^^^ 0x5C)).length =
      ((h.padKey key').map (· ^^^ 0x5C)).length := by
    rw [List.length_map, List.length_map, length_padKey, length_padKey]
  have hmasked := (List.append_inj heq hlength).1
  refine List.map_injective_iff.2 (fun b b' hb => ?_) hmasked
  have hunmasked := congrArg (· ^^^ (0x5C : UInt8)) hb
  simpa [UInt8.xor_assoc] using hunmasked

/-- Two keys give one keyed hash exactly if they are one key or the hash function collides. -/
theorem hmac_eq_iff {message : Bytes} :
    h.hmac key message = h.hmac key' message ↔
      h.SameKey key key' ∨ h.Collides key key' message := by
  rw [hmac_eq_digest_outer, hmac_eq_digest_outer, ← padKey_eq_iff]
  constructor
  · intro heq
    by_cases houter : h.outer key message = h.outer key' message
    · exact .inl (padKey_eq_of_outer_eq houter)
    · exact .inr ⟨houter, heq⟩
  · rintro (hpad | ⟨-, hdigest⟩)
    · exact hmac_eq_of_padKey_eq hpad message
    · exact hdigest

/-- There are more keys that are a byte longer than a digest than there are keyed hashes. -/
theorem exists_hmac_eq (h : Hash) (message : Bytes) :
    ∃ key key', key.length = h.size + 1 ∧ key'.length = h.size + 1 ∧ key ≠ key' ∧
      h.hmac key message = h.hmac key' message := by
  -- keys and keyed hashes are counted by the numbers that they spell
  let keyOf : Nat → Bytes := Bytes.ofNat (h.size + 1)
  have hcard : (Finset.range (256 ^ h.size)).card < (Finset.range (256 ^ (h.size + 1))).card := by
    rw [Finset.card_range, Finset.card_range]
    exact Nat.pow_lt_pow_right (by decide) (Nat.lt_succ_self _)
  have hmaps : Set.MapsTo (fun n => (h.hmac (keyOf n) message).toNat)
      (Finset.range (256 ^ (h.size + 1))) (Finset.range (256 ^ h.size)) := by
    intro n _
    rw [Finset.mem_coe, Finset.mem_range, ← h.length_hmac (keyOf n) message]
    exact Bytes.toNat_lt _
  obtain ⟨m, hm, n, hn, hne, hnumber⟩ :=
    Finset.exists_ne_map_eq_of_card_lt_of_maps_to hcard hmaps
  refine ⟨keyOf m, keyOf n, Bytes.length_ofNat _ _, Bytes.length_ofNat _ _, fun heq => hne ?_, ?_⟩
  · exact (Bytes.ofNat_eq_iff.1 heq).eq_of_lt_of_lt (Finset.mem_range.1 hm) (Finset.mem_range.1 hn)
  · exact Bytes.eq_of_toNat_eq (by rw [length_hmac, length_hmac]) hnumber

/-- For every message there are keys of one length that are not one key, but have one keyed hash. -/
theorem exists_collides (h : Hash) (message : Bytes) :
    ∃ key key', key.length = h.size + 1 ∧ key'.length = h.size + 1 ∧ ¬h.SameKey key key' ∧
      h.Collides key key' message := by
  obtain ⟨key, key', hlength, hlength', hne, hequal⟩ := h.exists_hmac_eq message
  have hblock : key.length ≤ h.blockBytes := by
    rw [hlength]
    exact h.size_lt_blockBytes
  have hsame : ¬h.SameKey key key' := fun hsame =>
    hne ((sameKey_iff_of_length_eq (hlength.trans hlength'.symm) hblock).1 hsame)
  exact ⟨key, key', hlength, hlength', hsame, (hmac_eq_iff.1 hequal).resolve_left hsame⟩

end Hash

end Crypto

/-! ## Tokens -/

namespace SignedToken

variable {payload : Bytes} {header : Header} {alg : SignatureAlgorithm} {key key' : Key}
  {secret secret' : Bytes} {t : SignedToken}

/-- What one secret signed another one verifies exactly if both give what is signed one keyed
hash. -/
theorem verify_of_sign_of_secret (halg : header.alg? = some alg.name)
    (hkey : key.IsSecretFor alg .sign secret) (hkey' : key'.IsSecretFor alg .verify secret')
    (hsign : sign payload key header = .ok t) :
    t.verify key' =
      if alg.hash.hmac secret' (Bytes.ofString t.signingInput) =
        alg.hash.hmac secret (Bytes.ofString t.signingInput) then .ok payload
      else .error .signatureMismatch := by
  rw [sign_of_secret (sign_eq_ok_iff.1 hsign).1 halg hkey] at hsign
  cases hsign
  exact verify_of_secret halg hkey'

/-- When a secret verifies what another one signed.

Let a header name a keyed hash, and let one secret be fit to sign with it and another one to verify.
A payload is signed unless the header has critical parameters. The other secret verifies it if both
are one key to the keyed hash, or if the hash function takes one value at the two different strings
that it is applied to in the end. In all other cases the signature is refused. -/
theorem cross_key_verification (payload : Bytes) (header : Header)
    (halg : header.alg? = some alg.name) (hkey : key.IsSecretFor alg .sign secret)
    (hkey' : key'.IsSecretFor alg .verify secret') :
    ((∃ t, sign payload key header = .ok t) ↔ header.contains "crit" = false) ∧
    ∀ t, sign payload key header = .ok t →
      (alg.hash.SameKey secret secret' ∨
          alg.hash.Collides secret secret' (Bytes.ofString t.signingInput) →
        t.verify key' = .ok payload) ∧
      (¬alg.hash.SameKey secret secret' →
          ¬alg.hash.Collides secret secret' (Bytes.ofString t.signingInput) →
        t.verify key' = .error .signatureMismatch) := by
  constructor
  · constructor
    · rintro ⟨t, ht⟩
      exact (sign_eq_ok_iff.1 ht).1
    · intro hcrit
      exact ⟨_, sign_of_secret hcrit halg hkey⟩
  · intro t ht
    rw [verify_of_sign_of_secret halg hkey hkey' ht]
    constructor
    · intro h
      exact if_pos (Hash.hmac_eq_iff.2 h).symm
    · intro hsame hcollides
      refine if_neg fun hequal => ?_
      rcases Hash.hmac_eq_iff.1 hequal.symm with h | h
      · exact hsame h
      · exact hcollides h

/-- What 32 zeros sign is verified by 33 zeros, which fill a block up alike, and refused under 65
zeros, which do not fit into a block and are hashed first. -/
theorem cross_key_verification_zeros :
    (∃ t, sign [] (.ofZeros 32 (by decide)) (.signed .hs256) = .ok t ∧
      t.verify (.ofZeros 33 (by decide)) = .ok []) ∧
    ∃ t, sign [] (.ofZeros 32 (by decide)) (.signed .hs256) = .ok t ∧
      t.verify (.ofZeros 65 (by decide)) = .error .signatureMismatch := by
  have hkey := fun n hn hlong => Key.isSecretFor_ofZeros .hs256 n hn rfl hlong
  constructor
  · have hsame : SignatureAlgorithm.hs256.hash.SameKey (List.replicate 32 0)
        (List.replicate 33 0) := Hash.sameKey_append_zeros (n := 1) (by decide)
    obtain ⟨hsign, hverify⟩ := cross_key_verification [] (.signed .hs256) rfl
      (hkey 32 (by decide) (by decide) .sign) (hkey 33 (by decide) (by decide) .verify)
    obtain ⟨t, ht⟩ := hsign.2 rfl
    exact ⟨t, ht, (hverify t ht).1 (.inl hsame)⟩
  · -- the two keyed hashes of what is signed are computed
    have hne : Hash.hmac .sha256 (List.replicate 32 0)
          (Bytes.ofString (inputOf (Header.signed .hs256).encode [])) ≠
        Hash.hmac .sha256 (List.replicate 65 0)
          (Bytes.ofString (inputOf (Header.signed .hs256).encode [])) := by
      decide +kernel
    obtain ⟨hsame, hcollides⟩ := not_or.1 (mt Hash.hmac_eq_iff.2 hne)
    have hsign : sign [] (.ofZeros 32 (by decide)) (.signed .hs256) = .ok _ :=
      sign_of_secret rfl rfl (hkey 32 (by decide) (by decide) .sign)
    obtain ⟨-, hverify⟩ := cross_key_verification [] (.signed .hs256) rfl
      (hkey 32 (by decide) (by decide) .sign) (hkey 65 (by decide) (by decide) .verify)
    exact ⟨_, hsign, (hverify _ hsign).2 hsame hcollides⟩

/-- Whether secrets that differ in some sense never verify what the other one signed. -/
def CrossKeyRejected (differ : Hash → Bytes → Bytes → Prop) : Prop :=
  ∀ payload header (alg : SignatureAlgorithm) (key key' : Key) secret secret' t,
    header.alg? = some alg.name → key.params = .none → key'.params = .none →
    key.IsSecretFor alg .sign secret → key'.IsSecretFor alg .verify secret' →
    differ alg.hash secret secret' → sign payload key header = .ok t →
    t.verify key' = .error .signatureMismatch

/-- Two secrets that differ and give one keyed hash verify what the other one signed. -/
theorem not_crossKeyRejected_of_hmac_eq {differ : Hash → Bytes → Bytes → Prop} (payload : Bytes)
    (alg : SignatureAlgorithm) (secret secret' : Secret) (hhmac : alg.isHmac = true)
    (hlong : alg.hash.size ≤ secret.bytes.length) (hlong' : alg.hash.size ≤ secret'.bytes.length)
    (hdiffer : differ alg.hash secret.bytes secret'.bytes)
    (hequal : alg.hash.hmac secret.bytes
        (Bytes.ofString (inputOf (Header.signed alg).encode payload)) =
      alg.hash.hmac secret'.bytes (Bytes.ofString (inputOf (Header.signed alg).encode payload))) :
    ¬CrossKeyRejected differ := by
  intro hrejected
  have hkey : Key.IsSecretFor ⟨.symmetric secret, .none⟩ alg .sign secret.bytes :=
    ⟨hhmac, rfl, hlong, Key.permits_of_params rfl _ _ _⟩
  have hkey' : Key.IsSecretFor ⟨.symmetric secret', .none⟩ alg .verify secret'.bytes :=
    ⟨hhmac, rfl, hlong', Key.permits_of_params rfl _ _ _⟩
  have hsign : sign payload _ (.signed alg) = .ok _ := sign_of_secret rfl rfl hkey
  have hmismatch := hrejected payload _ alg _ _ _ _ _ rfl rfl rfl hkey hkey' hdiffer hsign
  have hverified := verify_of_sign_of_secret rfl hkey hkey' hsign
  rw [hmismatch] at hverified
  have hok := hverified.trans (if_pos hequal.symm)
  cases hok

/-- Different secrets may verify what the other one signed: 33 zeros what 32 zeros signed. So may
secrets that are not even one key to the keyed hash, since the hash function has collisions. -/
theorem not_crossKeyRejected :
    ¬CrossKeyRejected (fun _ secret secret' => secret ≠ secret') ∧
      ¬CrossKeyRejected (fun h secret secret' => ¬h.SameKey secret secret') := by
  constructor
  · have hsame : Hash.SameKey .sha256 (List.replicate 32 0) (List.replicate 33 0) :=
      Hash.sameKey_append_zeros (n := 1) (by decide)
    have hequal : ∀ message, Hash.hmac .sha256 (List.replicate 32 0) message =
        Hash.hmac .sha256 (List.replicate 33 0) message := fun _ =>
      Hash.hmac_eq_iff.2 (.inl hsame)
    exact not_crossKeyRejected_of_hmac_eq [] .hs256 ⟨List.replicate 32 0, by decide⟩
      ⟨List.replicate 33 0, by decide⟩ rfl (by decide) (by decide) (by decide) (hequal _)
  · let message := Bytes.ofString (inputOf (Header.signed .hs256).encode [])
    obtain ⟨secret, secret', hlength, hlength', hsame, hcollides⟩ :=
      Hash.exists_collides .sha256 message
    have hne : ∀ {bytes : Bytes}, bytes.length = Hash.size .sha256 + 1 → bytes ≠ [] := by
      rintro _ hlength rfl
      cases hlength
    exact not_crossKeyRejected_of_hmac_eq [] .hs256 ⟨secret, hne hlength⟩ ⟨secret', hne hlength'⟩
      rfl (hlength ▸ Nat.le_succ _) (hlength' ▸ Nat.le_succ _) hsame
      (Hash.hmac_eq_iff.2 (.inr hcollides))

end SignedToken

end WebToken
