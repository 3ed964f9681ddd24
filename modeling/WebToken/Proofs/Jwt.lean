import WebToken.Jwt
import WebToken.Proofs.CanonicalText
import WebToken.Proofs.Encryption
import WebToken.Proofs.Signing

/-!
# Accepted web tokens

A web token is accepted if its text has the right number of points, is read as a token of the kind
that is asked for, is verified or decrypted, and holds claims that pass the checks. The points are
counted in the text as it came, and the text is read in the form that it has. So a compact text that
is accepted has as many segments as it should have, but a JSON document is accepted too if there are
as many points in it, wherever they stand.

* `Jwt.verify_eq_ok_iff` and `Jwt.decrypt_eq_ok_iff` : which texts are accepted;
* `Jwt.accepted_form` : an accepted text is a compact one exactly if it does not begin with a brace;
* `Jwt.not_compact_only` : it may begin with one.
-/

namespace WebToken

/-! ## Kinds -/

namespace JwtKind

variable {text : String}

theorem ofText_eq_signed_iff : ofText text = .ok .signed ↔ text.toList.count '.' = 2 := by
  unfold ofText
  split <;> simp_all

theorem ofText_eq_encrypted_iff : ofText text = .ok .encrypted ↔ text.toList.count '.' = 4 := by
  unfold ofText
  split <;> simp_all

end JwtKind

/-! ## Acceptance -/

namespace Jwt

variable {text : String} {key : Key} {v : Validation} {now : Int64} {c : Claims}

/-- A text is accepted as a signed web token exactly if it has two points, is verified, and its
payload holds claims that pass the checks. -/
theorem verify_eq_ok_iff :
    verify text key v now = .ok c ↔
      text.toList.count '.' = 2 ∧
        ∃ payload, verifyText text key = .ok payload ∧ accept payload v now = .ok c := by
  simp only [verify, bind_eq_ok_iff, ← JwtKind.ofText_eq_signed_iff, verifyText_eq_ok_iff]
  constructor
  · rintro ⟨kind, hkind, h⟩
    cases kind with
    | encrypted => cases h
    | signed =>
      obtain ⟨t, ht, h⟩ := bind_eq_ok_iff.1 h
      cases t with
      | encrypted t => cases h
      | signed t =>
        obtain ⟨payload, hpayload, haccept⟩ := bind_eq_ok_iff.1 h
        exact ⟨hkind, payload, ⟨t, ht, hpayload⟩, haccept⟩
  · rintro ⟨hkind, payload, ⟨t, ht, hpayload⟩, haccept⟩
    exact ⟨.signed, hkind, bind_eq_ok_iff.2 ⟨.signed t, ht,
      bind_eq_ok_iff.2 ⟨payload, hpayload, haccept⟩⟩⟩

/-- A text is accepted as an encrypted web token exactly if it has four points, is decrypted, and
its content holds claims that pass the checks. -/
theorem decrypt_eq_ok_iff :
    decrypt text key v now = .ok c ↔
      text.toList.count '.' = 4 ∧
        ∃ content, decryptText text key = .ok content ∧ accept content v now = .ok c := by
  simp only [decrypt, bind_eq_ok_iff, ← JwtKind.ofText_eq_encrypted_iff,
    EncryptedToken.decryptText_eq_ok_iff]
  constructor
  · rintro ⟨kind, hkind, h⟩
    cases kind with
    | signed => cases h
    | encrypted =>
      obtain ⟨t, ht, h⟩ := bind_eq_ok_iff.1 h
      cases t with
      | signed t => cases h
      | encrypted t =>
        obtain ⟨content, hcontent, haccept⟩ := bind_eq_ok_iff.1 h
        exact ⟨hkind, content, ⟨t, ht, mapError_eq_ok_iff.1 hcontent⟩, haccept⟩
  · rintro ⟨hkind, content, ⟨t, ht, hcontent⟩, haccept⟩
    exact ⟨.encrypted, hkind, bind_eq_ok_iff.2 ⟨.encrypted t, ht,
      bind_eq_ok_iff.2 ⟨content, mapError_eq_ok_iff.2 hcontent, haccept⟩⟩⟩

end Jwt

/-! ## Forms -/

/-- Whether a text is, without the blanks at its ends, made of the given number of canonical
segments. -/
def HasSegments (text : String) (n : Nat) : Prop :=
  ∃ parts : List String, parts.length = n ∧ (∀ s ∈ parts, Base64Url.IsCanonical s) ∧
    Text.trim text = ".".intercalate parts

/-- Canonical segments do not begin with a brace. -/
theorem HasSegments.head?_ne {text : String} {n : Nat} (h : HasSegments text n) :
    (Text.trim text).toList.head? ≠ some '\x7b' := by
  obtain ⟨parts, -, hparts, htrim⟩ := h
  obtain ⟨bytes, rfl⟩ := exists_map_encode_of_isCanonical hparts
  rw [htrim]
  exact (inCompactForm_compactText bytes).unbraced

namespace Token

/-- The number of segments in the compact text of a token. -/
def segmentCount : Token → Nat
  | signed _ => 3
  | encrypted _ => 5

/-- A text that is read as a token has the segments of its compact text exactly if it does not begin
with a brace. -/
theorem hasSegments_iff {text : String} {t : Token} (h : ofText text = .ok t) :
    HasSegments text t.segmentCount ↔ (Text.trim text).toList.head? ≠ some '\x7b' := by
  constructor
  · exact HasSegments.head?_ne
  · intro hbrace
    rw [ofText_of_not_brace hbrace] at h
    refine ⟨segments (Text.trim text), ?_, (isCompact_segments h).isCanonical,
      (intercalate_segments _).symm⟩
    cases t with
    | signed t => rw [(ofCompact_eq_ok_signed_iff.1 h).1]; rfl
    | encrypted t => rw [(ofCompact_eq_ok_encrypted_iff.1 h).1]; rfl

end Token

namespace Jwt

/-- Which texts are accepted as web tokens, and in which form.

A text is accepted if it has the points of the kind of token that is asked for, is verified or
decrypted as it would be as a token, and holds claims that pass the checks. If it is accepted, it is
made of as many canonical segments as the kind has exactly if it does not begin with a brace. -/
theorem accepted_form (text : String) (key : Key) (v : Validation) (now : Int64) (c : Claims) :
    (verify text key v now = .ok c ↔
      text.toList.count '.' = 2 ∧
        ∃ payload, verifyText text key = .ok payload ∧ accept payload v now = .ok c) ∧
    (decrypt text key v now = .ok c ↔
      text.toList.count '.' = 4 ∧
        ∃ content, decryptText text key = .ok content ∧ accept content v now = .ok c) ∧
    (verify text key v now = .ok c →
      (HasSegments text 3 ↔ (Text.trim text).toList.head? ≠ some '\x7b')) ∧
    (decrypt text key v now = .ok c →
      (HasSegments text 5 ↔ (Text.trim text).toList.head? ≠ some '\x7b')) := by
  refine ⟨verify_eq_ok_iff, decrypt_eq_ok_iff, fun h => ?_, fun h => ?_⟩
  · obtain ⟨-, payload, hverify, -⟩ := verify_eq_ok_iff.1 h
    obtain ⟨t, ht, -⟩ := verifyText_eq_ok_iff.1 hverify
    exact Token.hasSegments_iff ht
  · obtain ⟨-, content, hdecrypt, -⟩ := decrypt_eq_ok_iff.1 h
    obtain ⟨t, ht, -⟩ := EncryptedToken.decryptText_eq_ok_iff.1 hdecrypt
    exact Token.hasSegments_iff ht

/-- A signed token without claims in its flattened form, with two points in a member that is not
read. -/
def pointedDocument : String :=
  "\x7b\"payload\":\"e30\",\"protected\":\"eyJhbGciOiJIUzI1NiJ9\"," ++
    "\"signature\":\"4E_Bsx-pJi3kOW9wVXN8CgbATwP09D9V5gxh9-9zSZ0\",\"x\":\"..\"\x7d"

/-- The signature in the document. -/
def pointedSignature : Bytes :=
  [224, 79, 193, 179, 31, 169, 38, 45, 228, 57, 111, 112, 85, 115, 124, 10, 6, 192, 79, 3, 244, 244,
    63, 85, 230, 12, 97, 247, 239, 115, 73, 157]

/-- The token in the document. -/
def pointedToken : SignedToken :=
  ⟨.signed .hs256, "eyJhbGciOiJIUzI1NiJ9", none, Bytes.ofString "\x7b\x7d", pointedSignature⟩

theorem ofText_pointedDocument : Token.ofText pointedDocument = .ok (.signed pointedToken) := by
  cbv

theorem verify_pointedToken :
    pointedToken.verify (.ofZeros 32 (by decide)) = .ok (Bytes.ofString "\x7b\x7d") := by
  have hkey := Key.isSecretFor_ofZeros .hs256 32 (by decide) rfl (by decide) .verify
  have hsignature : Crypto.Hash.sha256.hmac (List.replicate 32 0)
      (Bytes.ofString "eyJhbGciOiJIUzI1NiJ9.e30") = pointedSignature := by decide +kernel
  have hinput : pointedToken.signingInput = "eyJhbGciOiJIUzI1NiJ9.e30" := by cbv
  refine (SignedToken.verify_of_secret rfl hkey).trans (if_pos ?_)
  rw [hinput]
  exact hsignature

/-- A JSON document may be accepted as a web token, which is no compact text then. -/
theorem not_compact_only :
    ¬ ∀ text key v now c, verify text key v now = .ok c → HasSegments text 3 := by
  intro hcompact
  have hpoints : pointedDocument.toList.count '.' = 2 := by cbv
  have hverified : verifyText pointedDocument (.ofZeros 32 (by decide)) =
      .ok (Bytes.ofString "\x7b\x7d") :=
    verifyText_eq_ok_iff.2 ⟨pointedToken, ofText_pointedDocument, verify_pointedToken⟩
  have haccept : accept (Bytes.ofString "\x7b\x7d") .standard 0 = .ok .empty := rfl
  have hbrace : (Text.trim pointedDocument).toList.head? = some '\x7b' := by decide +kernel
  have hsegments := hcompact _ _ _ _ _ (verify_eq_ok_iff.2 ⟨hpoints, _, hverified, haccept⟩)
  exact hsegments.head?_ne hbrace

end Jwt

end WebToken
