import WebToken.Proofs.CompactText
import WebToken.Proofs.Decryption

/-!
# Ways to fail

A text that is no token is malformed. A token is refused before anything is computed with the key
(`Error.IsRefusal`), or its signature is a wrong one, or one of the steps of its decryption fails
(`Error.IsDecryptionStep`). So a decryption that fails in a step is told from a refusal, and no
claims are involved.

* `Token.ofText_failsOnly` : a text that is no token is malformed;
* `SignedToken.verify_failsOnly` and `EncryptedToken.decrypt_failsOnly` : how tokens fail;
* `EncryptedToken.decryptHidden_eq_decryptionFailed_iff` : which failures are hidden.
-/

namespace WebToken

/-! ## Kinds of errors -/

namespace Error

/-- Whether an error refuses a token or a key as it is. -/
inductive IsRefusal : Error → Prop
  | invalidParameter (fault : ParameterFault) : IsRefusal (.invalidParameter fault)
  | unsupportedOperation (fault : UsageFault) : IsRefusal (.unsupportedOperation fault)
  | unsupportedAlgorithm (name : String) : IsRefusal (.unsupportedAlgorithm name)
  | algorithmMismatch (alg expected actual : String) :
      IsRefusal (.algorithmMismatch alg expected actual)
  | malformedToken (fault : TokenFault) : IsRefusal (.malformedToken fault)

/-- Whether an error refuses a key for what it is used for. -/
inductive IsMisuse : Error → Prop
  | unsupportedOperation (fault : UsageFault) : IsMisuse (.unsupportedOperation fault)
  | algorithmMismatch (alg expected actual : String) :
      IsMisuse (.algorithmMismatch alg expected actual)

/-- Whether an error says which step of a decryption failed. -/
inductive IsDecryptionStep : Error → Prop
  | keyUnwrapFailed : IsDecryptionStep .keyUnwrapFailed
  | authenticationFailed : IsDecryptionStep .authenticationFailed
  | paddingError : IsDecryptionStep .paddingError

theorem IsMalformedToken.isRefusal {e : Error} (h : e.IsMalformedToken) : e.IsRefusal := by
  obtain ⟨fault, rfl⟩ := h
  exact .malformedToken fault

theorem IsMisuse.isRefusal {e : Error} (h : e.IsMisuse) : e.IsRefusal := by
  cases h with
  | unsupportedOperation fault => exact .unsupportedOperation fault
  | algorithmMismatch alg expected actual => exact .algorithmMismatch alg expected actual

/-- A refusal is shown as it is. -/
theorem IsRefusal.hidden {e : Error} (h : e.IsRefusal) : e.hidden = e := by
  cases h <;> rfl

/-- A refusal does not say that a step of a decryption failed. -/
theorem IsRefusal.not_isDecryptionStep {e : Error} (h : e.IsRefusal) : ¬e.IsDecryptionStep := by
  cases h <;> exact nofun

/-- The steps of decryption are shown alike. -/
theorem IsDecryptionStep.hidden {e : Error} (h : e.IsDecryptionStep) :
    e.hidden = .decryptionFailed := by
  cases h <;> rfl

end Error

/-- A text is malformed if every step of reading it either finds that or leads to a step that
does. -/
theorem exists_fault_bind {α β : Type} {x : Except Error α} {f : α → Except Error β}
    (hx : FailsOnly Error.IsMalformedToken x)
    (hf : ∀ a, x = .ok a → ∃ fault, f a = .error (.malformedToken fault)) :
    ∃ fault, (x >>= f) = .error (.malformedToken fault) := by
  cases x with
  | error e =>
    obtain ⟨fault, rfl⟩ := hx e rfl
    exact ⟨fault, rfl⟩
  | ok a => exact hf a rfl

/-! ## Texts that are no tokens -/

section Texts

open Json (Object)

theorem orMalformedForm_failsOnly {α : Type} (form : JsonForm) (r : Except Json.ReadError α) :
    FailsOnly Error.IsMalformedToken (orMalformedForm form r) :=
  .mapError (fun _ => ⟨_, rfl⟩) _

theorem unprotectedHeader_failsOnly (ms : Option Object) :
    FailsOnly Error.IsMalformedToken (unprotectedHeader ms) := by
  unfold unprotectedHeader
  split
  · exact .ok _
  · split
    · exact .error ⟨_, rfl⟩
    · exact .ok _

theorem mergeUnprotected_failsOnly (shared own : Option Object) :
    FailsOnly Error.IsMalformedToken (mergeUnprotected shared own) := by
  unfold mergeUnprotected
  split
  · split
    · exact .error ⟨_, rfl⟩
    · exact unprotectedHeader_failsOnly _
  · exact unprotectedHeader_failsOnly _
  · exact unprotectedHeader_failsOnly _
  · exact .ok _

theorem SignedToken.ofEntry_failsOnly (payload : String) (entry : Object) :
    FailsOnly Error.IsMalformedToken (ofEntry payload entry) := by
  refine .bind (Header.decode_failsOnly _) fun _ => ?_
  refine .bind (unprotectedHeader_failsOnly _) fun _ => ?_
  refine .bind (Segment.decode_failsOnly _) fun _ => ?_
  refine .bind (Segment.decode_failsOnly _) fun _ => ?_
  exact ofParts_failsOnly _ _ _ _ _

theorem EncryptedToken.ofEntry_failsOnly (members entry : Object) :
    FailsOnly Error.IsMalformedToken (ofEntry members entry) := by
  unfold ofEntry
  split
  · exact .error ⟨_, rfl⟩
  · refine .bind (Header.decode_failsOnly _) fun _ => ?_
    refine .bind (mergeUnprotected_failsOnly _ _) fun _ => ?_
    refine .bind (Segment.decode_failsOnly _) fun _ => ?_
    refine .bind (Segment.decode_failsOnly _) fun _ => ?_
    refine .bind (Segment.decode_failsOnly _) fun _ => ?_
    refine .bind (Segment.decode_failsOnly _) fun _ => ?_
    exact ofParts_failsOnly _ _ _ _ _ _ _

theorem SignedToken.ofGeneral_failsOnly (o : Object) :
    FailsOnly Error.IsMalformedToken (ofGeneral o) := by
  refine .bind (orMalformedForm_failsOnly _ _) fun members => ?_
  split
  · exact ofEntry_failsOnly _ _
  · exact .error ⟨_, rfl⟩

theorem SignedToken.ofFlattened_failsOnly (o : Object) :
    FailsOnly Error.IsMalformedToken (ofFlattened o) :=
  .bind (orMalformedForm_failsOnly _ _) fun _ => ofEntry_failsOnly _ _

theorem EncryptedToken.ofGeneral_failsOnly (o : Object) :
    FailsOnly Error.IsMalformedToken (ofGeneral o) := by
  refine .bind (orMalformedForm_failsOnly _ _) fun members => ?_
  split
  · exact ofEntry_failsOnly _ _
  · exact .error ⟨_, rfl⟩

theorem EncryptedToken.ofFlattened_failsOnly (o : Object) :
    FailsOnly Error.IsMalformedToken (ofFlattened o) :=
  .bind (orMalformedForm_failsOnly _ _) fun _ => ofEntry_failsOnly _ _

theorem Token.ofObject_failsOnly (o : Object) :
    FailsOnly Error.IsMalformedToken (ofObject o) := by
  unfold ofObject
  split
  · exact (SignedToken.ofGeneral_failsOnly o).map _
  · split
    · exact (EncryptedToken.ofGeneral_failsOnly o).map _
    · split
      · exact (EncryptedToken.ofFlattened_failsOnly o).map _
      · split
        · exact (SignedToken.ofFlattened_failsOnly o).map _
        · exact .error ⟨_, rfl⟩

theorem Token.ofJson_failsOnly (text : String) :
    FailsOnly Error.IsMalformedToken (ofJson text) := by
  unfold ofJson
  split
  · exact .error ⟨_, rfl⟩
  · exact ofObject_failsOnly _
  · exact .error ⟨_, rfl⟩

/-- A text that is no token is malformed. -/
theorem Token.ofText_failsOnly (text : String) :
    FailsOnly Error.IsMalformedToken (ofText text) := by
  rw [ofText_eq]
  split
  · exact ofJson_failsOnly _
  · exact ofCompact_failsOnly _

end Texts

/-! ## Refusals -/

theorem Header.refuseCritical_failsOnly (h : Header) :
    FailsOnly Error.IsRefusal h.refuseCritical := by
  unfold refuseCritical
  split
  · exact .error (.malformedToken _)
  · exact .ok _

theorem Header.algorithm_failsOnly {α : Type} (ofName? : String → Option α)
    (missing : ParameterFault) (name? : Option String) :
    FailsOnly Error.IsRefusal (algorithm ofName? missing name?) := by
  unfold algorithm algorithmNamed
  split
  · exact .error (.invalidParameter _)
  · split
    · exact .ok _
    · exact .error (.unsupportedAlgorithm _)

theorem Header.encryption_failsOnly (h : Header) : FailsOnly Error.IsRefusal h.encryption := by
  refine .bind h.refuseCritical_failsOnly fun _ => ?_
  split
  · exact .error (.unsupportedAlgorithm _)
  · refine .bind (algorithm_failsOnly _ _ _) fun _ => ?_
    exact .bind (algorithm_failsOnly _ _ _) fun _ => .ok _

theorem Key.require_failsOnly (key : Key) (alg : String) (use : KeyUse)
    (operations : List KeyOperation) :
    FailsOnly Error.IsMisuse (key.require alg use operations) := by
  refine .bind ?_ fun _ => .bind ?_ fun _ => ?_
  · unfold requireAlg
    split
    · exact .ok _
    · split
      · exact .ok _
      · exact .error (.algorithmMismatch _ _ _)
  · unfold requireUse
    split
    · exact .ok _
    · split
      · exact .ok _
      · exact .error (.unsupportedOperation _)
  · unfold requireAnyOf
    split
    · exact .ok _
    · split
      · exact .ok _
      · exact .error (.unsupportedOperation _)

theorem Signer.forVerification_failsOnly (alg : SignatureAlgorithm) (key : Key) :
    FailsOnly Error.IsRefusal (forVerification alg key) := by
  unfold forVerification
  split
  · split
    · unfold ofSecret
      split
      · exact .error (.algorithmMismatch _ _ _)
      · split
        · exact .error (.invalidParameter _)
        · exact .ok _
    · exact .error (.algorithmMismatch _ _ _)
  · split
    · unfold ofPublic
      split
      · exact .error (.algorithmMismatch _ _ _)
      · exact .ok _
    · exact .error (.algorithmMismatch _ _ _)

theorem KeyManagement.requireKind_failsOnly (alg : KeyManagement) (key : Key) :
    FailsOnly Error.IsMisuse (alg.requireKind key) := by
  unfold requireKind
  cases alg with
  | rsaOaep256 | rsaOaep =>
    cases key.rsaPrivate? with
    | none => exact .error (.algorithmMismatch _ _ _)
    | some k => exact .ok _
  | a128Kw | a192Kw | a256Kw | direct =>
    cases key.secret? with
    | none => exact .error (.algorithmMismatch _ _ _)
    | some secret => exact .ok _

theorem KeyManagement.receive_failsOnly (alg : KeyManagement) (enc : ContentEncryption) (key : Key)
    (encryptedKey : Bytes) :
    FailsOnly (fun e => e.IsRefusal ∨ e.IsDecryptionStep) (alg.receive enc key encryptedKey) := by
  intro e h
  rcases receive_eq_error h with hkind | ⟨-, rfl⟩
  · exact .inl (alg.requireKind_failsOnly key e hkind).isRefusal
  · exact .inr .keyUnwrapFailed

theorem ContentEncryption.decrypt_failsOnly (enc : ContentEncryption)
    (key iv aad ciphertext tag : Bytes) :
    FailsOnly (fun e => e.IsRefusal ∨ e.IsDecryptionStep)
      (enc.decrypt key iv aad ciphertext tag) := by
  refine .bind ?_ fun _ => ?_
  · unfold checkLengths
    split
    · exact .error (.inl (.invalidParameter _))
    · split
      · exact .error (.inl (.malformedToken _))
      · exact .ok _
  · split
    · unfold chainDecrypt
      split
      · split
        · exact .ok _
        · exact .error (.inr .paddingError)
      · exact .error (.inr .authenticationFailed)
    · unfold counterDecrypt
      split
      · exact .error (.inr .authenticationFailed)
      · split
        · exact .ok _
        · exact .error (.inr .authenticationFailed)

/-! ## Tokens -/

/-- A signed token is refused, or its signature is not one by the key. -/
theorem SignedToken.verify_failsOnly (t : SignedToken) (key : Key) :
    FailsOnly (fun e => e.IsRefusal ∨ e = .signatureMismatch) (t.verify key) := by
  refine .bind ((Header.algorithm_failsOnly _ _ _).mono fun _ => .inl) fun alg => ?_
  refine .bind ((key.require_failsOnly _ _ _).mono fun _ h => .inl h.isRefusal) fun _ => ?_
  refine .bind ((Signer.forVerification_failsOnly alg key).mono fun _ => .inl) fun signer => ?_
  refine .bind ?_ fun _ => .ok _
  unfold Signer.verify
  split
  · exact .ok _
  · exact .error (.inr rfl)

namespace EncryptedToken

variable {t : EncryptedToken} {key : Key}

/-- An encrypted token is refused, or a step of its decryption fails. -/
theorem decrypt_failsOnly (t : EncryptedToken) (key : Key) :
    FailsOnly (fun e => e.IsRefusal ∨ e.IsDecryptionStep) (t.decrypt key) := by
  refine .bind (t.header.encryption_failsOnly.mono fun _ => .inl) fun (alg, enc) => ?_
  refine .bind ((key.require_failsOnly _ _ _).mono fun _ h => .inl h.isRefusal) fun _ => ?_
  split
  · exact .error (.inl (.malformedToken _))
  · refine .bind (KeyManagement.receive_failsOnly alg enc key _) fun contentKey => ?_
    exact ContentEncryption.decrypt_failsOnly enc _ _ _ _ _

/-- A decryption is hidden to have failed in a step exactly if it failed in one. -/
theorem decryptHidden_eq_decryptionFailed_iff :
    t.decryptHidden key = .error .decryptionFailed ↔
      ∃ e, t.decrypt key = .error e ∧ e.IsDecryptionStep := by
  rw [decryptHidden, mapError_eq_error_iff]
  constructor
  · rintro ⟨e, hdecrypt, hhidden⟩
    rcases decrypt_failsOnly t key e hdecrypt with hrefusal | hstep
    · -- a refusal is not hidden
      rw [hrefusal.hidden] at hhidden
      rw [hhidden] at hrefusal
      cases hrefusal
    · exact ⟨e, hdecrypt, hstep⟩
  · rintro ⟨e, hdecrypt, hstep⟩
    exact ⟨e, hdecrypt, hstep.hidden⟩

/-- What is shown of an encrypted token that fails. -/
theorem decryptHidden_failsOnly (t : EncryptedToken) (key : Key) :
    FailsOnly (fun e => e.IsRefusal ∨ e = .decryptionFailed) (t.decryptHidden key) := by
  refine (decrypt_failsOnly t key).mapError_of ?_
  rintro e (hrefusal | hstep)
  · rw [hrefusal.hidden]
    exact .inl hrefusal
  · exact .inr hstep.hidden

end EncryptedToken

/-! ## Texts -/

theorem verifyText_failsOnly (text : String) (key : Key) :
    FailsOnly (fun e => e.IsRefusal ∨ e = .signatureMismatch) (verifyText text key) := by
  refine .bind ((Token.ofText_failsOnly text).mono fun _ h => .inl h.isRefusal) fun t => ?_
  cases t with
  | signed t => exact t.verify_failsOnly key
  | encrypted t => exact .error (.inl (.malformedToken _))

theorem decryptText_failsOnly (text : String) (key : Key) :
    FailsOnly (fun e => e.IsRefusal ∨ e = .decryptionFailed) (decryptText text key) := by
  refine .bind ((Token.ofText_failsOnly text).mono fun _ h => .inl h.isRefusal) fun t => ?_
  cases t with
  | signed t => exact .error (.inl (.malformedToken _))
  | encrypted t => exact t.decryptHidden_failsOnly key

end WebToken
