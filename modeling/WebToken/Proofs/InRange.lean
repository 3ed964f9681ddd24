import WebToken.Proofs.Failures
import WebToken.Proofs.RangedCipher

/-!
# Encrypted tokens stay in range

The lengths of what an encrypted token holds are those that a stranger gives it. Encryption and
decryption with the ranges of their operations (`Ranged`) are equal to those without ranges, so no
length leads out of a range; for decryption this includes the tag that is computed under a random
content key where none was received. What decryption says of
a token is a verdict on the token and the key, and encryption refuses what it is given or succeeds.

* `EncryptedToken.rangedEncrypt_eq` and `EncryptedToken.rangedDecrypt_eq` : no range is left;
* `EncryptedToken.encrypt_failsOnly` and `EncryptedToken.decrypt_isVerdict` : how both fail;
* `EncryptedToken.always_in_range` : all of it.
-/

namespace WebToken

open Ranged (within)

/-! ## Verdicts -/

/-- Whether an error is a verdict on a token and a key: it blames neither the parameters that a
caller gave nor the program. -/
def Error.IsVerdict (e : Error) : Prop :=
  (∀ fault, e ≠ .invalidParameter fault) ∧ ∀ fault, e ≠ .internal fault

namespace Error

theorem IsRefusal.ne_internal {e : Error} (h : e.IsRefusal) (fault : InternalFault) :
    e ≠ .internal fault := by
  cases h <;> exact nofun

theorem IsMisuse.isVerdict {e : Error} (h : e.IsMisuse) : e.IsVerdict := by
  cases h <;> exact ⟨nofun, nofun⟩

/-- What is shown as a failed decryption is a verdict. -/
theorem isVerdict_of_hidden {e : Error} (h : e.hidden = .decryptionFailed) : e.IsVerdict := by
  refine ⟨fun fault he => ?_, fun fault he => ?_⟩
  · rw [he] at h
    cases h
  · rw [he] at h
    cases h

end Error

/-- A header that names an algorithm is refused for the name only. -/
theorem Header.algorithm_isVerdict {α : Type} {ofName? : String → Option α}
    {missing : ParameterFault} {name? : Option String} (h : name?.isSome = true) :
    FailsOnly Error.IsVerdict (algorithm ofName? missing name?) := by
  obtain ⟨name, rfl⟩ := Option.isSome_iff_exists.1 h
  show FailsOnly Error.IsVerdict (algorithmNamed ofName? name)
  unfold algorithmNamed
  split
  · exact .ok _
  · exact .error ⟨nofun, nofun⟩

theorem Header.encryption_isVerdict {h : Header} (halg : h.alg?.isSome = true)
    (henc : h.enc?.isSome = true) : FailsOnly Error.IsVerdict h.encryption := by
  refine .bind ?_ fun _ => ?_
  · unfold refuseCritical
    split
    · exact .error ⟨nofun, nofun⟩
    · exact .ok _
  · split
    · exact .error ⟨nofun, nofun⟩
    · refine .bind (algorithm_isVerdict halg) fun _ => ?_
      exact .bind (algorithm_isVerdict henc) fun _ => .ok _

/-! ## Sending content keys -/

/-- A content key is sent, or the key is refused: it is never too long for an RSA key. -/
theorem KeyManagement.send_failsOnly (alg : KeyManagement) (enc : ContentEncryption) (key : Key)
    (random : Randomness) : FailsOnly Error.IsRefusal (alg.send enc key random) := by
  have hsecret : FailsOnly Error.IsRefusal (alg.sharedSecret key) := by
    unfold sharedSecret
    split
    · exact .ok _
    · exact .error (.algorithmMismatch _ _ _)
  have hrsa : ∀ alg', alg' = rsaOaep256 ∨ alg' = rsaOaep →
      FailsOnly Error.IsRefusal (send alg' enc key random) := by
    intro alg' halg
    cases hk : key.rsaPublic? with
    | none =>
      unfold send
      rcases halg with rfl | rfl
      · simp only [hk]
        exact .error (.algorithmMismatch _ _ _)
      · simp only [hk]
        exact .error (.algorithmMismatch _ _ _)
    | some k =>
      obtain ⟨sent, hsend⟩ := exists_send hk halg enc random
      rw [hsend]
      exact .ok sent
  cases alg with
  | rsaOaep256 => exact hrsa _ (.inl rfl)
  | rsaOaep => exact hrsa _ (.inr rfl)
  | a128Kw | a192Kw | a256Kw =>
    refine .bind hsecret fun secret => ?_
    split
    · exact .ok _
    · exact .error (.invalidParameter _)
  | direct =>
    refine .bind hsecret fun secret => ?_
    split
    · exact .ok _
    · exact .error (.invalidParameter _)

theorem ContentEncryption.encrypt_failsOnly (enc : ContentEncryption) (key iv aad text : Bytes) :
    FailsOnly Error.IsRefusal (enc.encrypt key iv aad text) := by
  refine .bind ?_ fun _ => ?_
  · unfold checkLengths
    split
    · exact .error (.invalidParameter _)
    · split
      · exact .error (.malformedToken _)
      · exact .ok _
  · split
    · exact .ok _
    · exact .ok _

/-! ## Tokens -/

namespace EncryptedToken

variable {t : EncryptedToken} {payload : Bytes} {key : Key} {header : Header}

/-- Encryption stays in all ranges, within the limit of Galois counter mode. -/
theorem rangedEncrypt_eq (random : Randomness)
    (hlimit : ContentEncryption.WithinLimit (Bytes.ofString header.encode) payload) :
    rangedEncrypt payload key header random = within (encrypt payload key header random) := by
  refine Ranged.within_bind fun (alg, enc) _ => ?_
  refine Ranged.within_bind fun _ _ => ?_
  rw [KeyManagement.rangedSend_eq]
  refine Ranged.within_bind fun sent _ => ?_
  dsimp only
  rw [ContentEncryption.rangedEncrypt_eq hlimit]
  refine Ranged.within_bind fun (ciphertext, tag) _ => ?_
  rfl

/-- Decryption stays in all ranges, whatever token is to be decrypted: also when the tag is computed
under a random content key. -/
theorem rangedDecrypt_eq (random : Randomness) :
    t.rangedDecrypt key random = within (t.decrypt key) := by
  refine Ranged.within_bind fun (alg, enc) _ => ?_
  refine Ranged.within_bind fun _ _ => ?_
  split
  · rfl
  · have hopen : ∀ contentKey, t.rangedOpen enc contentKey =
        within (enc.decrypt contentKey t.iv (Bytes.ofString t.segment) t.ciphertext t.tag) :=
      fun contentKey => ContentEncryption.rangedDecrypt_eq
    rw [KeyManagement.rangedReceive_eq, Ranged.outcome_within, pure_bind]
    cases hreceive : alg.receive enc key t.encryptedKey with
    | ok contentKey => exact hopen contentKey
    | error e =>
      -- the content is opened under a random content key too, which stays in all ranges
      simp only [hopen, Ranged.outcome_within, pure_bind]
      cases e <;> rfl

/-- Encryption succeeds, or refuses the key or the header. -/
theorem encrypt_failsOnly (payload : Bytes) (key : Key) (header : Header) (random : Randomness) :
    FailsOnly Error.IsRefusal (encrypt payload key header random) := by
  refine .bind header.encryption_failsOnly fun (alg, enc) => ?_
  refine .bind ((key.require_failsOnly _ _ _).mono fun _ h => h.isRefusal) fun _ => ?_
  refine .bind (alg.send_failsOnly enc key random) fun sent => ?_
  refine .bind (enc.encrypt_failsOnly _ _ _ _) fun (ciphertext, tag) => ?_
  exact (ofParts_failsOnly _ _ _ _ _ _ _).mono fun _ h => h.isRefusal

/-- What is settled before the encrypted parts of a token are looked at is a verdict. -/
theorem admission_isVerdict (ht : t.Consistent) (key : Key) :
    FailsOnly Error.IsVerdict (admission t.header t.iv.length key) := by
  refine .bind (Header.encryption_isVerdict ht.1 ht.2.1) fun (alg, enc) => ?_
  refine .bind ((key.require_failsOnly _ _ _).mono fun _ h => h.isVerdict) fun _ => ?_
  split
  · exact .error ⟨nofun, nofun⟩
  · exact .bind ((alg.requireKind_failsOnly key).mono fun _ h => h.isVerdict) fun _ => .ok _

/-- Decryption fails with a verdict. -/
theorem decrypt_isVerdict (ht : t.Consistent) (key : Key) :
    FailsOnly Error.IsVerdict (t.decrypt key) := by
  intro e h
  rcases admission_of_decrypt_eq_error h with hadmission | ⟨-, hhidden⟩
  · exact admission_isVerdict ht key e hadmission
  · exact Error.isVerdict_of_hidden hhidden

/-- No operation of encryption and decryption is used out of its range. Decryption has the same
outcome with ranges as without them for every token, whatever the lengths of its parts. The outcome
is a content or a verdict if the token names its algorithms, as every token does that can come up.
Encryption has the same outcome with ranges as without them if Galois counter mode takes the payload
and the text of the header, and never fails internally. -/
theorem always_in_range (key : Key) (random : Randomness) :
    (∀ t : EncryptedToken, t.rangedDecrypt key random = within (t.decrypt key)) ∧
    (∀ t : EncryptedToken, (Token.encrypted t).Reachable → t.Consistent) ∧
    (∀ t : EncryptedToken, t.Consistent → ∀ e, t.decrypt key = .error e →
      (∀ fault, e ≠ .invalidParameter fault) ∧ ∀ fault, e ≠ .internal fault) ∧
    (∀ payload header, ContentEncryption.WithinLimit (Bytes.ofString header.encode) payload →
      rangedEncrypt payload key header random = within (encrypt payload key header random)) ∧
    (∀ payload header fault,
      encrypt payload key header random ≠ .error (.internal fault)) := by
  refine ⟨fun t => rangedDecrypt_eq random, fun t ht => ht.invariant.consistent,
    fun t ht => decrypt_isVerdict ht key, fun payload header hlimit => rangedEncrypt_eq random hlimit,
    fun payload header fault h => ?_⟩
  exact (encrypt_failsOnly payload key header random _ h).ne_internal fault rfl

/-- A token with an encrypted key of one byte, an empty ciphertext and no tag: no key is received, so
that the tag is computed under a random one. An empty payload is encrypted for the same key. -/
theorem always_in_range_direct :
    (directToken [] [1]).Consistent ∧
    (directToken [] [1]).rangedDecrypt zeroKey noRandomness = within (.error .keyUnwrapFailed) ∧
    (∀ fault, Error.keyUnwrapFailed ≠ .internal fault) ∧
    ∃ t, ContentEncryption.WithinLimit
        (Bytes.ofString (Header.encrypted .direct .a128Gcm).encode) [] ∧
      rangedEncrypt [] zeroKey (.encrypted .direct .a128Gcm) noRandomness = within (.ok t) := by
  obtain ⟨hdecrypt, -, hverdict, hencrypt, -⟩ := always_in_range zeroKey noRandomness
  have hconsistent : (directToken [] [1]).Consistent := ⟨rfl, rfl, nofun⟩
  have hfails : (directToken [] [1]).decrypt zeroKey = .error .keyUnwrapFailed := rfl
  have hlimit : ContentEncryption.WithinLimit
      (Bytes.ofString (Header.encrypted .direct .a128Gcm).encode) [] := ⟨by decide, by decide⟩
  refine ⟨hconsistent, ?_, (hverdict _ hconsistent _ hfails).2, _, hlimit, hencrypt _ _ hlimit⟩
  rw [hdecrypt, hfails]

end EncryptedToken

end WebToken
