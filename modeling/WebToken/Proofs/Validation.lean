import WebToken.Claims.Validation
import WebToken.Proofs.Except

/-!
# Checks on claims in exact time

The limits of the times are computed in 64 bits and stay at the ends of the range, but the checks
are those of unbounded integers (`Validation.Passes`), for every time, leeway and claims. Only an
expiry at the very first time, which no time is before, is always over. So the checks are monotone
in the leeway, and the times at which claims are accepted have no gaps.

* `Validation.le_earliest_iff` and `Validation.latest_lt_iff` : the limits against exact sums;
* `Validation.validateAt_eq_ok_iff` and `Validation.validateAt_eq_error_iff` : which claims are
  accepted, and what is reported of others;
* `Validation.validateAt_eq_ok_iff_isValidAt` : the accepted claims as those in force;
* `Validation.exact_times` : all of this for any claims and checks.
-/

namespace WebToken

/-! ## Audiences and times of claims -/

/-- The members of an audience. -/
def Audience.names : Audience → List String
  | single name => [name]
  | multiple names => names

theorem Audience.contains_iff {aud : Audience} {name : String} :
    aud.contains name = true ↔ name ∈ aud.names := by
  cases aud with
  | single other =>
    rw [contains, names, beq_iff_eq, List.mem_singleton]
    exact eq_comm
  | multiple others => rw [contains, names, List.contains_iff_mem]

theorem Claims.isValidAt_iff {c : Claims} {t : Int64} :
    c.isValidAt t = true ↔ (∀ nbf, c.nbf = some nbf → nbf.toInt ≤ t.toInt) ∧
      ∀ exp, c.exp = some exp → t.toInt < exp.toInt := by
  unfold isValidAt isExpiredAt
  cases c.nbf <;> cases c.exp <;> simp [Int64.le_iff_toInt_le, Int64.lt_iff_toInt_lt]

namespace Validation

variable {v : Validation} {c : Claims} {now t : Int64}

/-! ## Limits of the times -/

theorem reach_eq (v : Validation) : v.reach = min (v.leeway : Int) (2 ^ 63 - 1) := rfl

/-- A leeway reaches over half of the times at most. -/
theorem reach_spec (v : Validation) : 0 ≤ v.reach ∧ v.reach < 2 ^ 63 := by
  unfold reach
  omega

/-- The earliest time is exact, except for a time that is at the lower end of the range. -/
theorem le_earliest_iff :
    t ≤ v.earliest now ↔ t.toInt ≤ now.toInt - v.reach ∨ t = Int64.minValue := by
  have hlow := t.le_toInt
  have hhigh := now.toInt_lt
  have hreach := v.reach_spec
  rw [Int64.le_iff_toInt_le, ← Int64.toInt_inj, Int64.toInt_minValue, earliest]
  by_cases hin : -2 ^ 63 ≤ now.toInt - v.reach
  · rw [Int64.toInt_ofIntClamp (by rwa [Int64.toInt_minValue])
      (by rw [Int64.toInt_maxValue]; omega)]
    omega
  · have hclamp : Int64.ofIntClamp (now.toInt - v.reach) = Int64.minValue := by
      rw [Int64.ofIntClamp, dif_neg]
      rwa [Int64.toInt_minValue]
    rw [hclamp, Int64.toInt_minValue]
    omega

/-- The latest time is exact. -/
theorem latest_lt_iff : v.latest now < t ↔ now.toInt + v.reach < t.toInt := by
  have hlow := now.le_toInt
  have hhigh := t.toInt_lt
  have hreach := v.reach_spec
  rw [Int64.lt_iff_toInt_lt, latest]
  by_cases hin : now.toInt + v.reach < 2 ^ 63
  · rw [Int64.toInt_ofIntClamp (by rw [Int64.toInt_minValue]; omega)
      (by rw [Int64.toInt_maxValue]; omega)]
  · have hclamp : Int64.ofIntClamp (now.toInt + v.reach) = Int64.maxValue := by
      rw [Int64.ofIntClamp, dif_pos (by rw [Int64.toInt_minValue]; omega), dif_neg]
      rw [Int64.toInt_maxValue]
      omega
    rw [hclamp, Int64.toInt_maxValue]
    omega

/-! ## Checks -/

/-- The checks on claims. -/
inductive Check where
  | expiry
  | start
  | issuer
  | audience
  deriving Repr, DecidableEq

namespace Check

/-- The place of a check in the order in which they are made. -/
def place : Check → Nat
  | expiry => 0
  | start => 1
  | issuer => 2
  | audience => 3

/-- What a check reports. -/
def fault : Check → ClaimsFault
  | expiry => .expired
  | start => .notYetValid
  | issuer => .issuer
  | audience => .audience

theorem place_injective : Function.Injective place := by
  rintro (_ | _ | _ | _) (_ | _ | _ | _) h <;> first | rfl | cases h

/-- The checks in the order in which they are made. -/
def order : List Check := [expiry, start, issuer, audience]

theorem mem_order (k : Check) : k ∈ order := by
  cases k <;> decide

theorem pairwise_order : order.Pairwise fun k k' => k.place < k'.place := by
  decide

/-- The check that is found first is the first one with the property that is looked for. -/
theorem find?_order (p : Check → Bool) :
    (order.find? p = none ∧ ∀ k, ¬p k = true) ∨
      ∃ k, order.find? p = some k ∧ p k = true ∧ ∀ k' : Check, k'.place < k.place → ¬p k' = true := by
  cases hfind : order.find? p with
  | none => exact .inl ⟨rfl, fun k => List.find?_eq_none.mp hfind k k.mem_order⟩
  | some k =>
    obtain ⟨hk, before, behind, horder, hbefore⟩ := List.find?_eq_some_iff_append.mp hfind
    refine .inr ⟨k, rfl, hk, fun k' hk' => ?_⟩
    have hsorted := pairwise_order
    have hmem := k'.mem_order
    rw [horder] at hsorted hmem
    rcases List.mem_append.mp hmem with hmem | hmem
    · simpa using hbefore k' hmem
    · -- what stands behind the one that is found has a later place
      have hlater := (List.pairwise_cons.mp (List.pairwise_append.mp hsorted).2.1).1
      rcases List.mem_cons.mp hmem with rfl | hmem
      · exact absurd hk' (Nat.lt_irrefl _)
      · exact absurd hk' (Nat.lt_asymm (hlater k' hmem))

end Check

/-- Whether claims pass a check at a time; times are compared as unbounded integers. -/
def Passes (v : Validation) (c : Claims) (now : Int64) : Check → Prop
  | .expiry => v.checkExp = true → ∀ exp, c.exp = some exp →
      now.toInt - min (v.leeway : Int) (2 ^ 63 - 1) < exp.toInt
  | .start => v.checkNbf = true → ∀ nbf, c.nbf = some nbf →
      nbf.toInt ≤ now.toInt + min (v.leeway : Int) (2 ^ 63 - 1)
  | .issuer => ∀ issuer, v.issuer = some issuer → c.iss = some issuer
  | .audience => ∀ name, v.audience = some name → ∃ aud, c.aud = some aud ∧ name ∈ aud.names

/-- Whether claims expire at the very first time and their expiry is looked at. -/
def ExpiresFirst (v : Validation) (c : Claims) : Prop :=
  v.checkExp = true ∧ c.exp = some Int64.minValue

/-- Whether claims are found to fail a check at a time. -/
def fails (v : Validation) (c : Claims) (now : Int64) : Check → Bool
  | .expiry => v.checkExp && c.isExpiredAt (v.earliest now)
  | .start => v.checkNbf && c.nbf.any (v.latest now < ·)
  | .issuer => v.issuer.any (c.iss ≠ some ·)
  | .audience => v.audience.any fun name => !c.aud.any (·.contains name)

/-- Claims are reported for the first check that they are found to fail. -/
theorem failure?_eq_find? (v : Validation) (c : Claims) (now : Int64) :
    v.failure? c now = (Check.order.find? (v.fails c now)).map Check.fault := by
  have hcons : ∀ (k : Check) (ks : List Check),
      ((k :: ks).find? (v.fails c now)).map Check.fault =
        if v.fails c now k = true then some k.fault
        else (ks.find? (v.fails c now)).map Check.fault := by
    intro k ks
    cases hk : v.fails c now k <;> simp [hk]
  simp only [failure?, Check.order, hcons, List.find?_nil, Option.map_none, fails, Check.fault,
    Bool.and_eq_true]
  -- the sides differ only in how their conditions are decided
  congr

/-- Claims are found to fail a check exactly if they do not pass it or expire at the very first
time. -/
theorem fails_iff {k : Check} :
    v.fails c now k = true ↔ ¬v.Passes c now k ∨ (k = .expiry ∧ v.ExpiresFirst c) := by
  unfold fails Passes ExpiresFirst Claims.isExpiredAt
  cases k with
  | expiry =>
    cases v.checkExp with
    | false => simp
    | true =>
      cases c.exp with
      | none => simp
      | some exp => simp [le_earliest_iff, reach_eq]
  | start =>
    cases v.checkNbf with
    | false => simp
    | true =>
      cases c.nbf with
      | none => simp
      | some nbf => simp [latest_lt_iff, reach_eq]
  | issuer => cases v.issuer <;> simp
  | audience =>
    cases v.audience with
    | none => simp
    | some name =>
      cases c.aud with
      | none => simp
      | some aud => simp [Audience.contains_iff, ← Bool.not_eq_true]

/-- Claims are reported for the first check that they fail. -/
theorem failure?_eq (now : Int64) (hfirst : ¬v.ExpiresFirst c) :
    (v.failure? c now = none ∧ ∀ k, v.Passes c now k) ∨
      ∃ k : Check, v.failure? c now = some k.fault ∧ ¬v.Passes c now k ∧
        ∀ k' : Check, k'.place < k.place → v.Passes c now k' := by
  have hfails : ∀ k, v.fails c now k = true ↔ ¬v.Passes c now k := fun k =>
    fails_iff.trans (or_iff_left fun h => hfirst h.2)
  have hfound := Check.find?_order (v.fails c now)
  simp only [hfails, not_not] at hfound
  rw [failure?_eq_find?]
  obtain ⟨hnone, hpasses⟩ | ⟨k, hsome, hk, hbefore⟩ := hfound
  · exact .inl ⟨by rw [hnone]; rfl, hpasses⟩
  · exact .inr ⟨k, by rw [hsome]; rfl, hk, hbefore⟩

/-! ## Accepted and reported claims -/

/-- Claims are accepted if they pass all checks. -/
theorem validateAt_eq_ok_iff :
    v.validateAt c now = .ok () ↔ ¬v.ExpiresFirst c ∧ ∀ k, v.Passes c now k := by
  rw [validateAt]
  by_cases hfirst : v.ExpiresFirst c
  · have hfails : v.fails c now .expiry = true := fails_iff.mpr (.inr ⟨rfl, hfirst⟩)
    have hfailure : v.failure? c now = some .expired := by
      rw [failure?_eq_find?, Check.order, List.find?_cons_of_pos hfails]
      rfl
    simp [hfailure, hfirst]
  · obtain ⟨hfailure, hpasses⟩ | ⟨k, hfailure, hk, -⟩ := failure?_eq now hfirst
    · simp [hfailure, hfirst, hpasses]
    · simp only [hfailure, hfirst, not_false_eq_true, true_and, reduceCtorEq, false_iff]
      exact fun hpasses => hk (hpasses k)

/-- Claims that are refused are reported for the first check that they fail. -/
theorem validateAt_eq_error_iff {e : Error} (hfirst : ¬v.ExpiresFirst c) :
    v.validateAt c now = .error e ↔
      ∃ k : Check, e = .invalidClaims k.fault ∧ ¬v.Passes c now k ∧
        ∀ k' : Check, k'.place < k.place → v.Passes c now k' := by
  rw [validateAt]
  obtain ⟨hfailure, hpasses⟩ | ⟨k, hfailure, hk, hbefore⟩ := failure?_eq now hfirst
  · simp only [hfailure, reduceCtorEq, false_iff]
    rintro ⟨k, -, hk, -⟩
    exact hk (hpasses k)
  · simp only [hfailure, Except.error.injEq]
    refine ⟨fun he => ⟨k, he.symm, hk, hbefore⟩, ?_⟩
    rintro ⟨k', rfl, hk', hbefore'⟩
    -- Of two first failures neither is before the other.
    have hplace : k.place = k'.place :=
      Nat.le_antisymm (Nat.le_of_not_lt fun hlt => hk' (hbefore k' hlt))
        (Nat.le_of_not_lt fun hlt => hk (hbefore' k hlt))
    rw [Check.place_injective hplace]

/-! ## Leeway -/

theorem Passes.withLeeway {k : Check} {leeway : Nat} (h : v.Passes c now k)
    (hle : v.leeway ≤ leeway) : (v.withLeeway leeway).Passes c now k := by
  cases k with
  | expiry =>
    intro hcheck exp hexp
    have hpass := h hcheck exp hexp
    simp only [Validation.withLeeway]
    omega
  | start =>
    intro hcheck nbf hnbf
    have hpass := h hcheck nbf hnbf
    simp only [Validation.withLeeway]
    omega
  | issuer => exact h
  | audience => exact h

/-- More leeway does not make claims fail. -/
theorem validateAt_withLeeway {leeway : Nat} (h : v.validateAt c now = .ok ())
    (hle : v.leeway ≤ leeway) : (v.withLeeway leeway).validateAt c now = .ok () := by
  obtain ⟨hfirst, hpasses⟩ := validateAt_eq_ok_iff.mp h
  exact validateAt_eq_ok_iff.mpr ⟨hfirst, fun k => (hpasses k).withLeeway hle⟩

/-! ## Times -/

/-- What claims pass at two times they pass between them. -/
theorem Passes.between {k : Check} {a b d : Int64} (ha : v.Passes c a k) (hd : v.Passes c d k)
    (hab : a ≤ b) (hbd : b ≤ d) : v.Passes c b k := by
  rw [Int64.le_iff_toInt_le] at hab hbd
  cases k with
  | expiry =>
    intro hcheck exp hexp
    have hpass := hd hcheck exp hexp
    omega
  | start =>
    intro hcheck nbf hnbf
    have hpass := ha hcheck nbf hnbf
    omega
  | issuer => exact ha
  | audience => exact ha

/-- The times at which claims are accepted have no gaps. -/
theorem validateAt_between {a b d : Int64} (ha : v.validateAt c a = .ok ())
    (hd : v.validateAt c d = .ok ()) (hab : a ≤ b) (hbd : b ≤ d) :
    v.validateAt c b = .ok () := by
  obtain ⟨hfirst, hpasses⟩ := validateAt_eq_ok_iff.mp ha
  obtain ⟨-, hpasses'⟩ := validateAt_eq_ok_iff.mp hd
  exact validateAt_eq_ok_iff.mpr ⟨hfirst, fun k => (hpasses k).between (hpasses' k) hab hbd⟩

/-! ## Claims in force -/

/-- The claims with only those times that are looked at. -/
def timed (v : Validation) (c : Claims) : Claims :=
  { c with
    exp := if v.checkExp then c.exp else none
    nbf := if v.checkNbf then c.nbf else none }

theorem timed_eq_self (hexp : v.checkExp = true) (hnbf : v.checkNbf = true) : v.timed c = c := by
  rw [timed, if_pos hexp, if_pos hnbf]

/-- Without leeway and without an issuer or an audience that is expected, the claims that are
accepted are those in force. -/
theorem validateAt_eq_ok_iff_isValidAt (hleeway : v.leeway = 0) (hissuer : v.issuer = none)
    (haudience : v.audience = none) :
    v.validateAt c now = .ok () ↔ (v.timed c).isValidAt now = true := by
  rw [validateAt_eq_ok_iff, Claims.isValidAt_iff]
  constructor
  · rintro ⟨-, hpasses⟩
    refine ⟨fun nbf hnbf => ?_, fun exp hexp => ?_⟩
    · obtain ⟨hcheck, hnbf⟩ := Option.ite_none_right_eq_some.mp hnbf
      have hpass := hpasses .start hcheck nbf hnbf
      omega
    · obtain ⟨hcheck, hexp⟩ := Option.ite_none_right_eq_some.mp hexp
      have hpass := hpasses .expiry hcheck exp hexp
      omega
  · rintro ⟨hstart, hexpiry⟩
    have hexp : v.Passes c now .expiry := fun hcheck exp hexp => by
      have hbefore := hexpiry exp (Option.ite_none_right_eq_some.mpr ⟨hcheck, hexp⟩)
      omega
    have hnbf : v.Passes c now .start := fun hcheck nbf hnbf => by
      have hfrom := hstart nbf (Option.ite_none_right_eq_some.mpr ⟨hcheck, hnbf⟩)
      omega
    refine ⟨fun ⟨hcheck, hmin⟩ => ?_, ?_⟩
    · have hbefore := hexpiry _ (Option.ite_none_right_eq_some.mpr ⟨hcheck, hmin⟩)
      rw [Int64.toInt_minValue] at hbefore
      exact absurd now.le_toInt (Int.not_le.mpr hbefore)
    · rintro (_ | _ | _ | _)
      · exact hexp
      · exact hnbf
      · exact fun issuer h => by rw [hissuer] at h; cases h
      · exact fun name h => by rw [haudience] at h; cases h

/-! ## Exact times -/

/-- Claims are checked in exact time: accepted if they pass all checks and else reported for the
first that they fail, save for claims that expire at the very first time. Without exception, more
leeway keeps claims accepted, the times at which they are accepted have no gaps, and without leeway,
issuer and audience the accepted claims are those in force as far as their times are looked at. -/
theorem exact_times (v : Validation) (c : Claims) :
    (c.exp ≠ some Int64.minValue → ∀ now,
      (v.validateAt c now = .ok () ↔ ∀ k, v.Passes c now k) ∧
        ∀ e, v.validateAt c now = .error e ↔
          ∃ k : Check, e = .invalidClaims k.fault ∧ ¬v.Passes c now k ∧
            ∀ k' : Check, k'.place < k.place → v.Passes c now k') ∧
    (∀ now leeway, v.leeway ≤ leeway → v.validateAt c now = .ok () →
      (v.withLeeway leeway).validateAt c now = .ok ()) ∧
    (∀ a b d, a ≤ b → b ≤ d → v.validateAt c a = .ok () → v.validateAt c d = .ok () →
      v.validateAt c b = .ok ()) ∧
    (v.leeway = 0 → v.issuer = none → v.audience = none → ∀ now,
      (v.validateAt c now = .ok () ↔ (v.timed c).isValidAt now = true) ∧
        (v.checkExp = true → v.checkNbf = true →
          (v.validateAt c now = .ok () ↔ c.isValidAt now = true))) := by
  refine ⟨fun hexp now => ?_, fun now leeway hle h => validateAt_withLeeway h hle,
    fun a b d hab hbd ha hd => validateAt_between ha hd hab hbd,
    fun hleeway hissuer haudience now => ?_⟩
  · have hfirst : ¬v.ExpiresFirst c := fun h => hexp h.2
    refine ⟨?_, fun e => validateAt_eq_error_iff hfirst⟩
    rw [validateAt_eq_ok_iff]
    exact and_iff_right hfirst
  · have hok : v.validateAt c now = .ok () ↔ _ :=
      validateAt_eq_ok_iff_isValidAt hleeway hissuer haudience
    refine ⟨hok, fun hcheckExp hcheckNbf => ?_⟩
    rwa [timed_eq_self hcheckExp hcheckNbf] at hok


/-- In the middle of the times the longest leeway just fails to save claims that expire a second
after the first time. The other claims here are in force from their second second on. -/
theorem exact_times_extremes :
    (standard.withLeeway (2 ^ 64 - 1)).validateAt
        ((Claims.empty.withExpiration (Int64.minValue + 1)).withNotBefore Int64.maxValue) 0 =
          .error (.invalidClaims .expired) ∧
      ((standard.withLeeway 0).withLeeway (2 ^ 64 - 1)).validateAt
        ((Claims.empty.withExpiration Int64.maxValue).withNotBefore 2) 2 = .ok () ∧
      (standard.withLeeway 0).validateAt
        ((Claims.empty.withExpiration Int64.maxValue).withNotBefore 2) 3 = .ok () ∧
      ((standard.withLeeway 0).validateAt
          ((Claims.empty.withExpiration 3).withNotBefore 2) 2 = .ok () ↔
        ((Claims.empty.withExpiration 3).withNotBefore 2).isValidAt 2 = true) := by
  refine ⟨?_, ?_, ?_, ?_⟩
  · have hexact := (exact_times (standard.withLeeway (2 ^ 64 - 1))
      ((Claims.empty.withExpiration (Int64.minValue + 1)).withNotBefore Int64.maxValue)).1
        (by decide) 0
    refine (hexact.2 _).mpr ⟨.expiry, rfl, fun hpass => ?_, fun k' hk' => ?_⟩
    · exact absurd (hpass rfl _ rfl) (by decide)
    · exact absurd hk' (Nat.not_lt_zero _)
  · exact (exact_times (standard.withLeeway 0) _).2.1 2 _ (by decide) (by decide)
  · exact (exact_times (standard.withLeeway 0) _).2.2.1 2 3 4 (by decide) (by decide) (by decide)
      (by decide)
  · exact ((exact_times (standard.withLeeway 0) _).2.2.2 rfl rfl rfl 2).2 rfl rfl

/-- Claims whose times are not looked at are accepted also when they are not in force. -/
theorem not_forall_ok_iff_isValidAt :
    ¬∀ (v : Validation) (c : Claims) (now : Int64),
      v.leeway = 0 → v.issuer = none → v.audience = none →
        (v.validateAt c now = .ok () ↔ c.isValidAt now = true) := by
  intro hall
  have hexpired := hall (standard.withoutTimeChecks.withLeeway 0) (Claims.empty.withExpiration 0) 1
    rfl rfl rfl
  exact absurd (hexpired.mp rfl) (by decide)

end Validation

end WebToken
