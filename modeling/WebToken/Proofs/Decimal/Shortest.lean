import WebToken.Decimal.Shortest
import WebToken.Proofs.Decimal.Rounding

/-!
# The shortest decimal is close

Whatever decimal the search for the shortest one finds, it lies in the interval of reals that round
to the number. So it is not zero, and it exceeds the number by half a unit in the last place at
most.

* `Double.shortest_spec` : the shortest decimal is not zero and ends below the interval's end;
* `Double.shortest_le_safeBound` : it is in range, with room for the roundings of a reader.
-/

namespace WebToken

namespace Double

/-- What a decimal denotes. -/
def Decimal.toRat (d : Decimal) : ℚ := d.digits * 10 ^ d.scale

/-- The upper end of the interval of reals that round to a magnitude. -/
def upperEnd (x : Double) : ℚ := (x.mantissa + 1 / 2) * 2 ^ x.exponent

/-! ## The search -/

theorem interval_high (x : Double) :
    0 < x.interval.2.2.2 ∧ (x.interval.2.2.1 : ℚ) / x.interval.2.2.2 = x.upperEnd := by
  unfold interval upperEnd
  by_cases h : 0 ≤ x.exponent
  · simp only [if_pos h]
    refine ⟨by decide, ?_⟩
    rw [Nat.shiftLeft_eq, Nat.cast_mul, Nat.cast_pow, Nat.cast_ofNat, ← zpow_natCast,
      Int.toNat_of_nonneg h]
    push_cast
    ring
  · simp only [if_neg h]
    refine ⟨by rw [Nat.shiftLeft_eq]; positivity, ?_⟩
    rw [Nat.shiftLeft_eq, Nat.cast_mul, Nat.cast_pow, Nat.cast_ofNat, ← zpow_natCast,
      Int.toNat_of_nonneg (by omega), zpow_neg]
    push_cast
    field_simp
    ring

theorem interval_low_pos {x : Double} (hx : x.mantissa ≠ 0) : 0 < x.interval.1 := by
  unfold interval
  simp only
  have hlow : ∀ p : Prop, [Decidable p] →
      0 < (if p then 4 * x.mantissa - 1 else 4 * x.mantissa - 2) := by
    intro p _
    split <;> omega
  by_cases h : 0 ≤ x.exponent
  · rw [if_pos h, Nat.shiftLeft_eq]
    exact Nat.mul_pos (hlow _) (by positivity)
  · rw [if_neg h]
    exact hlow _

/-- A ratio that rounds to a magnitude which is not zero lies between zero and the upper end. -/
theorem bounds_of_roundsTo {x : Double} (hx : x.mantissa ≠ 0) {num den : Nat} (hd : 0 < den)
    (h : x.roundsTo num den = true) : num ≠ 0 ∧ (num : ℚ) / den ≤ x.upperEnd := by
  obtain ⟨hpos, hhigh⟩ := x.interval_high
  have hlow := interval_low_pos hx
  unfold roundsTo at h
  obtain ⟨low, mid, high, d, hi⟩ : ∃ low mid high d, x.interval = (low, mid, high, d) :=
    ⟨_, _, _, _, rfl⟩
  simp only [hi] at hpos hhigh hlow h
  have hboth : low * den ≤ num * d ∧ num * d ≤ high * den := by
    split at h
    · simpa using h
    · simp only [Bool.and_eq_true, decide_eq_true_eq] at h
      exact ⟨h.1.le, h.2.le⟩
  constructor
  · rintro rfl
    have := Nat.mul_pos hlow hd
    omega
  · rw [← hhigh, div_le_div_iff₀ (by exact_mod_cast hd) (by exact_mod_cast hpos)]
    exact_mod_cast hboth.2

/-- What is found on a grid is not zero and lies below the upper end. -/
theorem onGrid?_spec {x : Double} (hx : x.mantissa ≠ 0) {scale : Int} {d : Decimal}
    (h : x.onGrid? scale = some d) : d.digits ≠ 0 ∧ d.toRat ≤ x.upperEnd := by
  unfold onGrid? at h
  simp only [Option.map_eq_some_iff] at h
  obtain ⟨digits, hfind, rfl⟩ := h
  have hreads := List.find?_some hfind
  have hpower : 0 < Nat.pow 10 scale.natAbs := Nat.pow_pos (by decide)
  have ten : (10 : ℚ) ≠ 0 := by norm_num
  by_cases hs : 0 ≤ scale
  · rw [if_pos hs] at hreads
    obtain ⟨hne, hle⟩ := bounds_of_roundsTo hx Nat.one_pos hreads
    refine ⟨left_ne_zero_of_mul hne, ?_⟩
    obtain ⟨k, rfl⟩ := Int.eq_ofNat_of_zero_le hs
    rw [Nat.cast_one, div_one] at hle
    unfold Decimal.toRat
    rw [zpow_natCast]
    exact_mod_cast hle
  · rw [if_neg hs] at hreads
    obtain ⟨hne, hle⟩ := bounds_of_roundsTo hx hpower hreads
    refine ⟨hne, ?_⟩
    obtain ⟨k, rfl⟩ : ∃ k : Nat, scale = -k := ⟨scale.natAbs, by omega⟩
    unfold Decimal.toRat
    rw [Int.natAbs_neg, Int.natAbs_natCast] at hle
    rw [zpow_neg, zpow_natCast, ← div_eq_mul_inv]
    exact_mod_cast hle

/-- What the search finds is not zero and lies below the upper end, or is the mantissa. -/
theorem shortestFrom_spec {x : Double} (hx : x.mantissa ≠ 0) (count fuel : Nat) :
    (x.shortestFrom count fuel).digits ≠ 0 ∧
      ((x.shortestFrom count fuel).toRat ≤ x.upperEnd ∨
        (x.shortestFrom count fuel).toRat = x.mantissa) := by
  induction fuel generalizing count with
  | zero => exact ⟨hx, .inr (by simp [shortestFrom, Decimal.toRat])⟩
  | succ fuel ih =>
    rw [shortestFrom]
    split
    · next d hd =>
      obtain ⟨hne, hle⟩ := onGrid?_spec hx hd
      exact ⟨hne, .inl hle⟩
    · exact ih (count + 1)

/-! ## Zeros at the end -/

/-- Taking zeros off the end changes neither the value nor whether it is zero. -/
theorem Decimal.strip_spec (fuel : Nat) {d : Decimal} (hd : d.digits ≠ 0) :
    (d.strip fuel).digits ≠ 0 ∧ (d.strip fuel).toRat = d.toRat := by
  induction fuel generalizing d with
  | zero => exact ⟨hd, rfl⟩
  | succ fuel ih =>
    rw [Decimal.strip]
    split
    · next h =>
      obtain ⟨k, hk⟩ := Nat.dvd_of_mod_eq_zero h.2
      have hquot : d.digits / 10 = k := by omega
      have hk0 : k ≠ 0 := by
        rintro rfl
        exact hd hk
      obtain ⟨hne, hval⟩ := ih (d := ⟨d.digits / 10, d.scale + 1⟩) (by rw [hquot]; exact hk0)
      refine ⟨hne, hval.trans ?_⟩
      unfold Decimal.toRat
      simp only
      rw [hquot, hk, zpow_add_one₀ (by norm_num)]
      push_cast
      ring
    · exact ⟨hd, rfl⟩

/-! ## The shortest decimal -/

/-- The shortest decimal is not zero and lies below the upper end, or is the mantissa. -/
theorem shortest_spec {x : Double} (hx : x.mantissa ≠ 0) :
    x.shortest.digits ≠ 0 ∧ (x.shortest.toRat ≤ x.upperEnd ∨ x.shortest.toRat = x.mantissa) := by
  obtain ⟨hne, hle⟩ := shortestFrom_spec hx 1 17
  obtain ⟨hne', hval⟩ := Decimal.strip_spec 20 hne
  exact ⟨hne', by rw [shortest, hval]; exact hle⟩

/-- Whether a magnitude is one of the three largest. -/
def Topmost (x : Double) : Prop := 2 ^ 53 - 3 ≤ x.mantissa ∧ x.exponent = maxExponent

/-- Below the three largest numbers the shortest decimal leaves room for the roundings of a
reader. -/
theorem shortest_le_safeBound {x : Double} (hx : x.mantissa ≠ 0) (hm : x.mantissa < 2 ^ 53)
    (he : x.exponent ≤ maxExponent) (htop : ¬x.Topmost) : x.shortest.toRat ≤ safeBound := by
  have hmantissa : (x.mantissa : ℚ) ≤ 2 ^ 53 - 1 := by
    have : x.mantissa + 1 ≤ 2 ^ 53 := hm
    rw [le_sub_iff_add_le]
    exact_mod_cast this
  have hsafe : (safeBound : ℚ) = (2 ^ 53 - 7 / 2) * 2 ^ (971 : Int) := by
    have hpow : (2 : ℚ) ^ (971 : Int) = 2 ^ 970 * 2 := by
      rw [← pow_succ]
      rfl
    rw [safeBound, hpow, Nat.cast_mul, Nat.cast_pow, Nat.cast_ofNat]
    generalize (2 : ℚ) ^ 970 = y
    norm_num
    ring
  have hbig : (1 : ℚ) ≤ 2 ^ (970 : Int) := one_le_zpow₀ (by norm_num) (by decide)
  have hnext : (2 : ℚ) ^ (971 : Int) = 2 ^ (970 : Int) * 2 := zpow_add_one₀ (by norm_num) 970
  rw [hsafe, hnext]
  rcases (shortest_spec hx).2 with hle | heq
  · refine hle.trans ?_
    unfold upperEnd
    by_cases h970 : x.exponent ≤ 970
    · have hpow : (2 : ℚ) ^ x.exponent ≤ 2 ^ (970 : Int) := zpow_le_zpow_right₀ (by norm_num) h970
      have hpos : (0 : ℚ) < 2 ^ x.exponent := by positivity
      generalize (2 : ℚ) ^ (970 : Int) = y at hbig hpow
      nlinarith
    · have hexp : x.exponent = 971 := le_antisymm he (by omega)
      have hlow : x.mantissa + 4 ≤ 2 ^ 53 := by
        by_contra hlarge
        exact htop ⟨by omega, hexp⟩
      have hlow' : (x.mantissa : ℚ) ≤ 2 ^ 53 - 4 := by
        rw [le_sub_iff_add_le]
        exact_mod_cast hlow
      rw [hexp, hnext]
      generalize (2 : ℚ) ^ (970 : Int) = y at hbig
      nlinarith
  · rw [heq]
    generalize (2 : ℚ) ^ (970 : Int) = y at hbig
    linarith

end Double

end WebToken
