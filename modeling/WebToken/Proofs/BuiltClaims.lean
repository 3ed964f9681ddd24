import WebToken.Claims.Builder
import WebToken.Proofs.Validation

/-!
# Claims that have just been built

A builder gives claims if it has a subject, a positive lifetime that ends at a time, and no custom
claim with a registered name (`ClaimsBuilder.build_isOk_iff`), and the custom claims change nothing
else of them (`ClaimsBuilder.addClaims_eq_ok`). The claims begin when they are issued, end exactly
after their lifetime, and pass all checks at the time of issue, for the issuer and each member of the
audience of the builder. The end of the lifetime is added up in 64 bits without a check, though:
a lifetime that ends behind the last time is not refused, and building stops without an outcome
(`ClaimsBuilder.build_eq_out_iff`).

* `ClaimsBuilder.accepted_when_issued` : built claims at the time at which they are issued.
-/

namespace WebToken

/-! ## Custom claims and lifetimes -/

/-- A custom claim without a registered name is set. -/
theorem Claims.withClaim_eq_ok_iff {c d : Claims} {name : String} {v : Json.Value} :
    c.withClaim name v = .ok d ↔
      ∃ h : name ∉ RegisteredClaim.names, d = { c with custom := c.custom.insert name v h } := by
  unfold withClaim
  by_cases hname : name ∈ RegisteredClaim.names
  · rw [dif_pos hname]
    exact ⟨nofun, fun ⟨h, _⟩ => absurd hname h⟩
  · rw [dif_neg hname]
    constructor
    · intro h
      cases h
      exact ⟨hname, rfl⟩
    · rintro ⟨_, rfl⟩
      rfl

/-- A lifetime is set if it ends at a time, and its end is exact. -/
theorem Claims.withLifetime_eq_pure_iff {c d : Claims} {seconds now : Int64} :
    c.withLifetime seconds now = pure d ↔
      ∃ exp : Int64, exp.toInt = (c.iat.getD now).toInt + seconds.toInt ∧
        d = c.withExpiration exp := by
  rw [withLifetime, Ranged.bind_eq_pure_iff]
  constructor
  · rintro ⟨exp, hexp, h⟩
    cases h
    exact ⟨exp, Ranged.sum_eq_pure_iff.mp hexp, rfl⟩
  · rintro ⟨exp, hexp, rfl⟩
    exact ⟨exp, Ranged.sum_eq_pure_iff.mpr hexp, rfl⟩

/-- A lifetime stops if it ends beyond all times. -/
theorem Claims.withLifetime_eq_out_iff {c : Claims} {seconds now : Int64} :
    c.withLifetime seconds now = .out ↔
      (c.iat.getD now).toInt + seconds.toInt < -2 ^ 63 ∨
        2 ^ 63 ≤ (c.iat.getD now).toInt + seconds.toInt := by
  rw [withLifetime, Ranged.bind_eq_out_iff, Ranged.sum_eq_out_iff, Int64.toInt_minValue,
    Int64.toInt_maxValue, Int.sub_one_lt_iff]
  exact or_iff_left fun ⟨exp, _, h⟩ => absurd h (Ranged.within_ne_out (.ok _))

theorem toInt_pos {lifetime : Int64} (hpos : 0 < lifetime) : 0 < lifetime.toInt := by
  rwa [Int64.lt_iff_toInt_lt, Int64.toInt_zero] at hpos

/-- The end of a positive lifetime is a time if it is not behind the last one. -/
theorem exists_end_iff {now lifetime : Int64} (hpos : 0 < lifetime) :
    (∃ exp : Int64, exp.toInt = now.toInt + lifetime.toInt) ↔
      now.toInt + lifetime.toInt < 2 ^ 63 := by
  constructor
  · rintro ⟨exp, hexp⟩
    rw [← hexp]
    exact exp.toInt_lt
  · intro h
    have hlow := now.le_toInt
    have hlifetime := toInt_pos hpos
    exact ⟨_, Int64.toInt_ofInt_of_le (by omega) h⟩

namespace ClaimsBuilder

variable {b : ClaimsBuilder} {subject : String} {now : Int64} {random : Vector UInt8 16}
  {c d : Claims} {v : Validation}

/-! ## Audiences -/

/-- An audience has the members of the list from which it is made, be they none, one or more. -/
theorem mem_audienceOf?_iff {names : List String} {name : String} :
    (∃ aud, audienceOf? names = some aud ∧ name ∈ aud.names) ↔ name ∈ names := by
  match names with
  | [] => simp [audienceOf?]
  | [_] => simp [audienceOf?, Audience.names]
  | _ :: _ :: _ => simp [audienceOf?, Audience.names]

/-! ## Several custom claims -/

/-- Custom claims change no other claims. -/
theorem addClaims_eq_ok {members : Json.Object} (h : addClaims c members = .ok d) :
    ∃ custom, d = { c with custom := custom } := by
  induction members generalizing c with
  | nil =>
    cases h
    exact ⟨_, rfl⟩
  | cons member rest ih =>
    obtain ⟨c', hc', hd⟩ := bind_eq_ok_iff.mp h
    obtain ⟨custom, rfl⟩ := ih hd
    obtain ⟨_, rfl⟩ := Claims.withClaim_eq_ok_iff.mp hc'
    exact ⟨custom, rfl⟩

/-- Custom claims are added if none has a registered name. -/
theorem addClaims_isOk_iff {members : Json.Object} :
    (∃ d, addClaims c members = .ok d) ↔
      ∀ name ∈ members.names, name ∉ RegisteredClaim.names := by
  induction members generalizing c with
  | nil => simp [addClaims, Json.Object.names]
  | cons member rest ih =>
    rw [Json.Object.names, List.map_cons, List.forall_mem_cons, ← Json.Object.names]
    constructor
    · rintro ⟨d, hd⟩
      obtain ⟨c', hc', hd⟩ := bind_eq_ok_iff.mp hd
      obtain ⟨hname, -⟩ := Claims.withClaim_eq_ok_iff.mp hc'
      exact ⟨hname, ih.mp ⟨d, hd⟩⟩
    · rintro ⟨hname, hrest⟩
      obtain ⟨d, hd⟩ := ih.mpr hrest
      exact ⟨d, bind_eq_ok_iff.mpr ⟨_, Claims.withClaim_eq_ok_iff.mpr ⟨hname, rfl⟩, hd⟩⟩

/-! ## Built claims -/

/-- The claims of a builder without the custom ones, ending at a time. -/
def registered (b : ClaimsBuilder) (subject : String) (now : Int64) (random : Vector UInt8 16)
    (exp : Int64) : Claims :=
  { ((Claims.issued now random).withIssuer b.issuer).withSubject subject with
    exp := some exp
    aud := audienceOf? b.audience }

/-- With a subject and a positive lifetime, the lifetime is set before the custom claims. -/
theorem build_of_subject (hsubject : b.subject = some subject) (hlifetime : 0 < b.lifetime) :
    b.build now random =
      (((Claims.issued now random).withIssuer b.issuer).withSubject subject).withLifetime
          b.lifetime now >>= fun c =>
        .within (addClaims { c with aud := audienceOf? b.audience } b.custom) := by
  unfold build
  rw [hsubject]
  exact if_neg (Int64.not_le.mpr hlifetime)

/-- A builder without a subject, or with a lifetime that is not positive, is refused. -/
theorem build_of_not (now : Int64) (random : Vector UInt8 16)
    (h : ¬(b.subject ≠ none ∧ 0 < b.lifetime)) : ∃ e, b.build now random = throw e := by
  unfold build
  cases hsubject : b.subject with
  | none => exact ⟨_, rfl⟩
  | some subject =>
    have hlifetime : b.lifetime ≤ 0 :=
      Int64.not_lt.mp fun hlifetime => h ⟨by simp [hsubject], hlifetime⟩
    exact ⟨_, if_pos hlifetime⟩

theorem build_eq_pure_iff :
    b.build now random = pure c ↔ ∃ subject exp, b.subject = some subject ∧ 0 < b.lifetime ∧
      exp.toInt = now.toInt + b.lifetime.toInt ∧
      addClaims (b.registered subject now random exp) b.custom = .ok c := by
  by_cases h : b.subject ≠ none ∧ 0 < b.lifetime
  · obtain ⟨subject, hsubject⟩ := Option.ne_none_iff_exists'.mp h.1
    rw [build_of_subject hsubject h.2, Ranged.bind_eq_pure_iff]
    constructor
    · rintro ⟨_, hlasting, hc⟩
      obtain ⟨exp, hexp, rfl⟩ := Claims.withLifetime_eq_pure_iff.mp hlasting
      exact ⟨subject, exp, hsubject, h.2, hexp, Ranged.within_eq_pure_iff.mp hc⟩
    · rintro ⟨subject', exp, hsubject', -, hexp, hc⟩
      cases hsubject.symm.trans hsubject'
      exact ⟨_, Claims.withLifetime_eq_pure_iff.mpr ⟨exp, hexp, rfl⟩,
        Ranged.within_eq_pure_iff.mpr hc⟩
  · obtain ⟨e, he⟩ := build_of_not now random h
    rw [he]
    refine ⟨nofun, ?_⟩
    rintro ⟨subject, -, hsubject, hlifetime, -⟩
    exact absurd ⟨by simp [hsubject], hlifetime⟩ h

/-- Claims are built from a subject, a positive lifetime that ends at a time, and custom claims
without a registered name. -/
theorem build_isOk_iff :
    (∃ c, b.build now random = pure c) ↔ b.subject ≠ none ∧ 0 < b.lifetime ∧
      now.toInt + b.lifetime.toInt < 2 ^ 63 ∧
      ∀ name ∈ b.custom.names, name ∉ RegisteredClaim.names := by
  constructor
  · rintro ⟨c, hc⟩
    obtain ⟨subject, exp, hsubject, hlifetime, hexp, hc⟩ := build_eq_pure_iff.mp hc
    exact ⟨by simp [hsubject], hlifetime, (exists_end_iff hlifetime).mp ⟨exp, hexp⟩,
      addClaims_isOk_iff.mp ⟨c, hc⟩⟩
  · rintro ⟨hsubject, hlifetime, hend, hcustom⟩
    obtain ⟨subject, hsubject⟩ := Option.ne_none_iff_exists'.mp hsubject
    obtain ⟨exp, hexp⟩ := (exists_end_iff hlifetime).mpr hend
    obtain ⟨c, hc⟩ := addClaims_isOk_iff.mpr hcustom
    exact ⟨c, build_eq_pure_iff.mpr ⟨subject, exp, hsubject, hlifetime, hexp, hc⟩⟩

/-- Building stops if a positive lifetime ends behind the last time. -/
theorem build_eq_out_iff :
    b.build now random = .out ↔ b.subject ≠ none ∧ 0 < b.lifetime ∧
      2 ^ 63 ≤ now.toInt + b.lifetime.toInt := by
  by_cases h : b.subject ≠ none ∧ 0 < b.lifetime
  · obtain ⟨subject, hsubject⟩ := Option.ne_none_iff_exists'.mp h.1
    have hlow := now.le_toInt
    have hpos := toInt_pos h.2
    rw [build_of_subject hsubject h.2, Ranged.bind_eq_out_iff, Claims.withLifetime_eq_out_iff]
    constructor
    · rintro ((hbefore | hend) | ⟨exp, -, hout⟩)
      · exact absurd hbefore (by show ¬now.toInt + b.lifetime.toInt < _; omega)
      · exact ⟨h.1, h.2, hend⟩
      · exact absurd hout (Ranged.within_ne_out _)
    · rintro ⟨-, -, hend⟩
      exact .inl (.inr hend)
  · obtain ⟨e, he⟩ := build_of_not now random h
    rw [he]
    refine ⟨nofun, ?_⟩
    rintro ⟨hsubject, hlifetime, -⟩
    exact absurd ⟨hsubject, hlifetime⟩ h

/-- What built claims say of issuer, audience and times. -/
theorem build_eq_ok (h : b.build now random = pure c) :
    c.iss = some b.issuer ∧ c.aud = audienceOf? b.audience ∧
      c.nbf = some now ∧ c.iat = some now ∧
      ∃ exp, c.exp = some exp ∧ exp.toInt = now.toInt + b.lifetime.toInt ∧ now < exp := by
  obtain ⟨subject, exp, -, hlifetime, hexp, hc⟩ := build_eq_pure_iff.mp h
  obtain ⟨custom, rfl⟩ := addClaims_eq_ok hc
  have hpos := toInt_pos hlifetime
  refine ⟨rfl, rfl, rfl, rfl, exp, rfl, hexp, ?_⟩
  rw [Int64.lt_iff_toInt_lt]
  omega

/-! ## Checks at the time of issue -/

/-- Built claims pass all checks when they are issued. -/
theorem passes_of_build (h : b.build now random = pure c)
    (hissuer : ∀ issuer, v.issuer = some issuer → issuer = b.issuer)
    (haudience : ∀ name, v.audience = some name → name ∈ b.audience) (k : Validation.Check) :
    v.Passes c now k := by
  obtain ⟨hiss, haud, hnbf, -, exp, hexp, -, hlater⟩ := build_eq_ok h
  cases k with
  | expiry =>
    rintro - exp' h
    cases hexp.symm.trans h
    have hafter := Int64.lt_iff_toInt_lt.mp hlater
    omega
  | start =>
    rintro - nbf h
    cases hnbf.symm.trans h
    omega
  | issuer =>
    intro issuer h
    rw [hissuer issuer h, hiss]
  | audience =>
    intro name h
    rw [haud]
    exact mem_audienceOf?_iff.mpr (haudience name h)

/-- Which builders give claims, and how these stand at the time at which they are issued.

A builder with a subject and a positive lifetime gives claims if the lifetime ends at a time and no
custom claim has a registered name, and it stops without an outcome if the lifetime does not end at a
time. The lifetime of built claims is added up exactly, and the claims pass all checks for the issuer
and each member of the audience of the builder with any leeway. -/
theorem accepted_when_issued (b : ClaimsBuilder) (now : Int64) (random : Vector UInt8 16) :
    ((∃ c, b.build now random = pure c) ↔ b.subject ≠ none ∧ 0 < b.lifetime ∧
      now.toInt + b.lifetime.toInt < 2 ^ 63 ∧
      ∀ name ∈ b.custom.names, name ∉ RegisteredClaim.names) ∧
    (b.build now random = .out ↔ b.subject ≠ none ∧ 0 < b.lifetime ∧
      2 ^ 63 ≤ now.toInt + b.lifetime.toInt) ∧
    ∀ c, b.build now random = pure c →
      c.iat = some now ∧ c.nbf = some now ∧
      (∃ exp, c.exp = some exp ∧ exp.toInt = now.toInt + b.lifetime.toInt ∧ now < exp) ∧
      ∀ v : Validation, (∀ issuer, v.issuer = some issuer → issuer = b.issuer) →
        (∀ name, v.audience = some name → name ∈ b.audience) → v.validateAt c now = .ok () := by
  refine ⟨build_isOk_iff, build_eq_out_iff, fun c hc => ?_⟩
  obtain ⟨-, -, hnbf, hiat, exp, hexp, hsum, hlater⟩ := build_eq_ok hc
  refine ⟨hiat, hnbf, ⟨exp, hexp, hsum, hlater⟩, fun v hissuer haudience => ?_⟩
  refine Validation.validateAt_eq_ok_iff.mpr ⟨?_, passes_of_build hc hissuer haudience⟩
  -- claims that end after a time do not end at the first one
  rintro ⟨-, hfirst⟩
  rw [Option.some.inj (hexp.symm.trans hfirst)] at hlater
  exact Int64.not_lt.mpr (Int64.minValue_le now) hlater

/-- Claims with a lifetime up to the last time are accepted when they are issued, and no claims are
built with a second more. -/
theorem accepted_when_issued_last :
    (∃ c, ClaimsBuilder.build
        { new "issuer" with
          subject := some "u", audience := ["api", "web"], lifetime := 9223372035154775807
          custom := [("scope", .string "write")] } 1700000000 (Vector.replicate 16 0) = pure c ∧
      ((Validation.standard.withIssuer "issuer").withAudience "web").validateAt c 1700000000 =
        .ok ()) ∧
    ClaimsBuilder.build
      { new "issuer" with subject := some "u", lifetime := 9223372035154775808 } 1700000000
        (Vector.replicate 16 0) = .out := by
  constructor
  · obtain ⟨hbuilt, -, hstands⟩ := accepted_when_issued
      { new "issuer" with
        subject := some "u", audience := ["api", "web"], lifetime := 9223372035154775807
        custom := [("scope", .string "write")] } 1700000000 (Vector.replicate 16 0)
    obtain ⟨c, hc⟩ := hbuilt.mpr ⟨by decide, by decide, by decide, by decide⟩
    obtain ⟨-, -, -, haccepted⟩ := hstands c hc
    refine ⟨c, hc, haccepted _ ?_ ?_⟩
    · rintro issuer h
      exact (Option.some.inj h).symm
    · rintro name h
      rw [← Option.some.inj h]
      decide
  · obtain ⟨-, hstops, -⟩ := accepted_when_issued
      { new "issuer" with subject := some "u", lifetime := 9223372035154775808 } 1700000000
        (Vector.replicate 16 0)
    exact hstops.mpr ⟨by decide, by decide, by decide⟩

/-- Not every builder with a subject, a positive lifetime and no registered name gives claims, let
alone ones that are accepted when they are issued: with the longest lifetime it stops. -/
theorem not_forall_accepted_when_issued :
    ¬∀ (b : ClaimsBuilder) (now : Int64) (random : Vector UInt8 16),
      b.subject ≠ none → 0 < b.lifetime →
      (∀ name ∈ b.custom.names, name ∉ RegisteredClaim.names) →
        ∃ c, b.build now random = pure c ∧
          (∃ exp, c.exp = some exp ∧ exp.toInt = now.toInt + b.lifetime.toInt ∧ now < exp) ∧
          ∀ v : Validation, (∀ issuer, v.issuer = some issuer → issuer = b.issuer) →
            (∀ name, v.audience = some name → name ∈ b.audience) → v.validateAt c now = .ok () := by
  intro hall
  let b : ClaimsBuilder := { new "issuer" with subject := some "u", lifetime := Int64.maxValue }
  obtain ⟨c, hc, -⟩ := hall b 1700000000 (Vector.replicate 16 0) (by decide) (by decide) (by decide)
  have hstops : b.build 1700000000 (Vector.replicate 16 0) = .out :=
    build_eq_out_iff.mpr ⟨by decide, by decide, by decide⟩
  rw [hstops] at hc
  cases hc

end ClaimsBuilder

end WebToken
