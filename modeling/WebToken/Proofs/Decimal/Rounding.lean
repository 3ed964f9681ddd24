import Mathlib
import WebToken.Decimal.Double

/-!
# Rounding keeps a number in range

A ratio that is at least one is rounded to a double that is no smaller than one and exceeds it by
less than one part in `2 ^ 53`. So a decimal that lies some way below the largest double is scaled
in one rounded multiplication without leaving the range.

* `Double.exists_ofRatio` : a ratio of at least one that is not too large is rounded to a double;
* `Double.isSome_ofDecimal` : a decimal of at most `Double.safeBound` is in range.
-/

namespace WebToken

namespace Double

/-! ## Values -/

/-- The magnitude as a rational number. -/
def toRat (x : Double) : ℚ := x.mantissa * 2 ^ x.exponent

theorem toRatio_spec (x : Double) :
    0 < x.toRatio.2 ∧ (x.toRatio.1 : ℚ) / x.toRatio.2 = x.toRat := by
  unfold toRatio toRat
  by_cases h : 0 ≤ x.exponent
  · rw [if_pos h]
    refine ⟨Nat.one_pos, ?_⟩
    rw [Nat.shiftLeft_eq, Nat.cast_mul, Nat.cast_pow, Nat.cast_one, div_one, Nat.cast_ofNat,
      ← zpow_natCast, Int.toNat_of_nonneg h]
  · rw [if_neg h]
    refine ⟨by rw [Nat.shiftLeft_eq]; positivity, ?_⟩
    rw [Nat.shiftLeft_eq, one_mul, Nat.cast_pow, Nat.cast_ofNat, ← zpow_natCast,
      Int.toNat_of_nonneg (by omega), zpow_neg, div_inv_eq_mul]

/-- Shifting a ratio divides it by a power of two. -/
theorem shifted_spec (num : Nat) {den : Nat} (hd : 0 < den) (e : Int) :
    0 < (shifted num den e).2 ∧
      ((shifted num den e).1 : ℚ) / (shifted num den e).2 = num / den / 2 ^ e := by
  unfold shifted
  by_cases h : 0 ≤ e
  · rw [if_pos h]
    refine ⟨by rw [Nat.shiftLeft_eq]; positivity, ?_⟩
    rw [Nat.shiftLeft_eq, Nat.cast_mul, Nat.cast_pow, Nat.cast_ofNat, ← zpow_natCast,
      Int.toNat_of_nonneg h, div_div]
  · rw [if_neg h]
    refine ⟨hd, ?_⟩
    rw [Nat.shiftLeft_eq, Nat.cast_mul, Nat.cast_pow, Nat.cast_ofNat, ← zpow_natCast,
      Int.toNat_of_nonneg (by omega), zpow_neg]
    ring

/-! ## The exponent -/

/-- The logarithms of two numbers bound their ratio. -/
theorem log2_bounds {num den : Nat} (hn : 0 < num) (hd : 0 < den) :
    (2 : ℚ) ^ ((num.log2 : Int) - den.log2 - 1) < num / den ∧
      (num : ℚ) / den < 2 ^ ((num.log2 : Int) - den.log2 + 1) := by
  have two : (2 : ℚ) ≠ 0 := by norm_num
  have hden : (0 : ℚ) < den := by exact_mod_cast hd
  have hnum : (0 : ℚ) < num := by exact_mod_cast hn
  have bound : ∀ {n : Nat}, 0 < n →
      (2 : ℚ) ^ (n.log2 : Int) ≤ n ∧ (n : ℚ) < 2 ^ ((n.log2 : Int) + 1) := by
    intro n hn
    have hle : 2 ^ n.log2 ≤ n := Nat.log2_self_le (by omega)
    have hlt : n < 2 ^ (n.log2 + 1) := Nat.lt_log2_self
    constructor
    · rw [zpow_natCast]
      exact_mod_cast hle
    · rw [← Nat.cast_succ, zpow_natCast]
      exact_mod_cast hlt
  obtain ⟨hnl, hnu⟩ := bound hn
  obtain ⟨hdl, hdu⟩ := bound hd
  constructor
  · rw [lt_div_iff₀ hden]
    calc (2 : ℚ) ^ ((num.log2 : Int) - den.log2 - 1) * den
        < 2 ^ ((num.log2 : Int) - den.log2 - 1) * 2 ^ ((den.log2 : Int) + 1) :=
          mul_lt_mul_of_pos_left hdu (by positivity)
      _ = 2 ^ (num.log2 : Int) := by
          rw [← zpow_add₀ two]
          congr 1
          omega
      _ ≤ num := hnl
  · rw [div_lt_iff₀ hden]
    calc (num : ℚ) < 2 ^ ((num.log2 : Int) + 1) := hnu
      _ = 2 ^ ((num.log2 : Int) - den.log2 + 1) * 2 ^ (den.log2 : Int) := by
          rw [← zpow_add₀ two]
          congr 1
          omega
      _ ≤ 2 ^ ((num.log2 : Int) - den.log2 + 1) * den :=
          mul_le_mul_of_nonneg_left hdl (by positivity)

/-- The exponent is the one at which the ratio has a mantissa of 53 bits, unless that is below the
least one. -/
theorem exists_exponentOf_eq_max {num den : Nat} (hn : 0 < num) (hd : 0 < den) :
    ∃ e, exponentOf num den = max e minExponent ∧
      (2 : ℚ) ^ 52 * 2 ^ e ≤ num / den ∧ (num : ℚ) / den < 2 ^ 53 * 2 ^ e := by
  obtain ⟨hlow, hhigh⟩ := log2_bounds hn hd
  have two : (2 : ℚ) ≠ 0 := by norm_num
  have join : ∀ (k : Nat) (e : Int), (2 : ℚ) ^ k * 2 ^ e = 2 ^ ((k : Int) + e) := by
    intro k e
    rw [zpow_add₀ two, zpow_natCast]
  obtain ⟨hpos, hshift⟩ := shifted_spec num hd ((num.log2 : Int) - den.log2 - 52)
  obtain ⟨n, d, hs⟩ : ∃ n d, shifted num den ((num.log2 : Int) - den.log2 - 52) = (n, d) :=
    ⟨_, _, rfl⟩
  unfold exponentOf
  simp only [hs] at hpos hshift ⊢
  have hdpos : (0 : ℚ) < d := by exact_mod_cast hpos
  by_cases hlt : n < d <<< 52
  · -- the quotient of the logarithms was one too large
    refine ⟨(num.log2 : Int) - den.log2 - 52 - 1, by rw [if_pos hlt], ?_⟩
    have hlt' : (n : ℚ) / d < 2 ^ 52 := by
      rw [div_lt_iff₀ hdpos]
      rw [Nat.shiftLeft_eq, Nat.mul_comm] at hlt
      exact_mod_cast hlt
    rw [hshift, div_lt_iff₀ (by positivity), join] at hlt'
    rw [join, join]
    constructor
    · refine le_of_lt (lt_of_eq_of_lt ?_ hlow)
      congr 1
      omega
    · refine lt_of_lt_of_eq hlt' ?_
      congr 1
      omega
  · refine ⟨(num.log2 : Int) - den.log2 - 52, by rw [if_neg hlt], ?_⟩
    have hge : (2 : ℚ) ^ 52 ≤ n / d := by
      rw [le_div_iff₀ hdpos]
      rw [Nat.shiftLeft_eq, Nat.mul_comm, Nat.not_lt] at hlt
      exact_mod_cast hlt
    rw [hshift, le_div_iff₀ (by positivity), join] at hge
    rw [join, join]
    constructor
    · exact hge
    · refine lt_of_lt_of_eq hhigh ?_
      congr 1
      omega

/-- At its exponent a ratio of at least one has a mantissa of 53 bits. -/
theorem exponentOf_spec {num den : Nat} (hd : 0 < den) (hle : den ≤ num) :
    (2 : ℚ) ^ 52 * 2 ^ exponentOf num den ≤ num / den ∧
      (num : ℚ) / den < 2 ^ 53 * 2 ^ exponentOf num den := by
  obtain ⟨e, hexp, hlow, hhigh⟩ := exists_exponentOf_eq_max (show 0 < num by omega) hd
  have hone : (1 : ℚ) ≤ num / den := by
    rw [le_div_iff₀ (by exact_mod_cast hd), one_mul]
    exact_mod_cast hle
  have hnotSmall : minExponent ≤ e := by
    by_contra hsmall
    have hpow : (2 : ℚ) ^ e ≤ 2 ^ (-53 : Int) := by
      refine zpow_le_zpow_right₀ (by norm_num) ?_
      have hmin : minExponent = -1074 := rfl
      omega
    have hval : (2 : ℚ) ^ (-53 : Int) * 2 ^ 53 = 1 := by norm_num
    linarith
  rw [hexp, max_eq_left hnotSmall]
  exact ⟨hlow, hhigh⟩

/-! ## The mantissa -/

/-- A quotient is rounded up by one half at most. -/
theorem roundDiv_bounds (num : Nat) {den : Nat} (hd : 0 < den) :
    num / den ≤ roundDiv num den ∧ (roundDiv num den : ℚ) ≤ num / den + 1 / 2 := by
  have hden : (0 : ℚ) < den := by exact_mod_cast hd
  have hdiv := Nat.div_add_mod num den
  have hmod := Nat.mod_lt num hd
  have htwice : 2 * (den * roundDiv num den) ≤ 2 * num + den := by
    unfold roundDiv
    simp only
    split
    · next h =>
      rw [Nat.mul_add]
      omega
    · omega
  constructor
  · unfold roundDiv
    simp only
    split
    · exact Nat.le_succ _
    · exact le_refl _
  · rw [← sub_le_iff_le_add, le_div_iff₀ hden]
    have hcast : (2 : ℚ) * (den * roundDiv num den) ≤ 2 * num + den := by exact_mod_cast htwice
    linarith

/-! ## Rounded ratios -/

/-- A ratio from here on is rounded beyond the largest double. -/
def overflowBound : Nat := (2 ^ 54 - 1) * 2 ^ 970

/-- Halfway between the largest double and what the next one would be. -/
theorem overflowBound_eq : (overflowBound : ℚ) = (2 ^ 53 - 1 / 2) * 2 ^ (971 : Int) := by
  have hpow : (2 : ℚ) ^ (971 : Int) = 2 ^ 970 * 2 := by
    rw [← pow_succ]
    rfl
  rw [overflowBound, hpow, Nat.cast_mul, Nat.cast_pow, Nat.cast_ofNat]
  generalize (2 : ℚ) ^ 970 = x
  norm_num
  ring

/-- The greatest powers that the reader of a decimal text scales by are in range. -/
theorem lt_overflowBound : 2 ^ 64 < overflowBound ∧ 10 ^ maxPower < overflowBound := by
  decide +kernel

/-- The mantissa that a ratio of at least one is rounded to, before a carry into the next power of
two is put right. -/
theorem exists_mantissa {num den : Nat} (hd : 0 < den) (hle : den ≤ num) :
    ∃ (m : Nat) (e : Int), (2 : ℚ) ^ 52 * 2 ^ e ≤ num / den ∧ 2 ^ 52 ≤ m ∧ -52 ≤ e ∧
      (m : ℚ) * 2 ^ e ≤ num / den + 2 ^ e / 2 ∧
      ofRatio num den =
        if m = 1 <<< 53 then if maxExponent < e + 1 then none else some ⟨false, 1 <<< 52, e + 1⟩
        else if maxExponent < e then none else some ⟨false, m, e⟩ := by
  obtain ⟨hlow, hhigh⟩ := exponentOf_spec hd hle
  obtain ⟨hpos, hshift⟩ := shifted_spec num hd (exponentOf num den)
  have hone : (1 : ℚ) ≤ num / den := by
    rw [le_div_iff₀ (by exact_mod_cast hd), one_mul]
    exact_mod_cast hle
  obtain ⟨e, he⟩ : ∃ e, exponentOf num den = e := ⟨_, rfl⟩
  obtain ⟨n, d, hs⟩ : ∃ n d, shifted num den e = (n, d) := ⟨_, _, rfl⟩
  simp only [he, hs] at hlow hhigh hpos hshift
  have hpow : (0 : ℚ) < 2 ^ e := by positivity
  obtain ⟨hfloor, hround⟩ := roundDiv_bounds n hpos
  have hm : 2 ^ 52 ≤ roundDiv n d := by
    refine le_trans ?_ hfloor
    have hquot : (2 : ℚ) ^ 52 ≤ n / d := by
      rw [hshift, le_div_iff₀ hpow]
      exact hlow
    rw [Nat.le_div_iff_mul_le hpos]
    rw [le_div_iff₀ (by exact_mod_cast hpos)] at hquot
    exact_mod_cast hquot
  refine ⟨roundDiv n d, e, hlow, hm, ?_, ?_, ?_⟩
  · by_contra hneg
    have hsmall : (2 : ℚ) ^ e ≤ 2 ^ (-53 : Int) := zpow_le_zpow_right₀ (by norm_num) (by omega)
    have hval : (2 : ℚ) ^ (-53 : Int) * 2 ^ 53 = 1 := by norm_num
    linarith
  · rw [hshift] at hround
    calc (roundDiv n d : ℚ) * 2 ^ e ≤ ((num : ℚ) / den / 2 ^ e + 1 / 2) * 2 ^ e :=
          mul_le_mul_of_nonneg_right hround hpow.le
      _ = num / den + 2 ^ e / 2 := by
          rw [add_mul, div_mul_cancel₀ _ hpow.ne']
          ring
  · unfold ofRatio
    simp only [he, hs]
    generalize roundDiv n d = m at hm
    by_cases hcarry : m = 1 <<< 53
    · rw [if_pos hcarry, if_pos hcarry]
      rfl
    · rw [if_neg hcarry, if_neg hcarry, if_neg (by omega)]

/-- A ratio of at least one that is not too large is rounded to a double that is no smaller than
one and exceeds it by one part in `2 ^ 53` at most. -/
theorem exists_ofRatio {num den : Nat} (hd : 0 < den) (hle : den ≤ num)
    (hlt : (num : ℚ) / den < overflowBound) :
    ∃ y, ofRatio num den = some y ∧ 1 ≤ y.toRat ∧ y.toRat ≤ num / den * (1 + 1 / 2 ^ 53) := by
  obtain ⟨m, e, hlow, hm, hle52, hvalue, heq⟩ := exists_mantissa hd hle
  rw [heq]
  generalize (num : ℚ) / den = v at hlt hlow hvalue ⊢
  have hone : (1 : ℚ) ≤ m * 2 ^ e := by
    have hm' : (2 : ℚ) ^ 52 ≤ m := by exact_mod_cast hm
    have hbig : (2 : ℚ) ^ (-52 : Int) ≤ 2 ^ e := zpow_le_zpow_right₀ (by norm_num) hle52
    calc (1 : ℚ) = 2 ^ 52 * 2 ^ (-52 : Int) := by norm_num
      _ ≤ m * 2 ^ e := mul_le_mul hm' hbig (by positivity) (by positivity)
  have hupper : (m : ℚ) * 2 ^ e ≤ v * (1 + 1 / 2 ^ 53) := by
    linarith
  rw [overflowBound_eq] at hlt
  have hle971 : e ≤ 971 := by
    by_contra hbig
    have hpow : (2 : ℚ) ^ ((971 : Int) + 1) ≤ 2 ^ e :=
      zpow_le_zpow_right₀ (by norm_num) (by omega)
    rw [zpow_add_one₀ (by norm_num)] at hpow
    have hpos : (0 : ℚ) < 2 ^ (971 : Int) := by positivity
    generalize (2 : ℚ) ^ (971 : Int) = x at hlt hpow hpos
    linarith
  by_cases hcarry : m = 1 <<< 53
  · have hcast : (m : ℚ) = 2 ^ 53 := by
      rw [hcarry, Nat.shiftLeft_eq, one_mul, Nat.cast_pow, Nat.cast_ofNat]
    have hlt971 : e < 971 := by
      refine lt_of_le_of_ne hle971 ?_
      rintro rfl
      -- at the greatest exponent the bound leaves no room for a carry
      rw [hcast] at hvalue
      linarith
    have hmax : ¬maxExponent < e + 1 := by
      show ¬(971 : Int) < e + 1
      omega
    have hsame : (m : ℚ) * (2 : ℚ) ^ e = ((1 <<< 52 : Nat) : ℚ) * (2 : ℚ) ^ (e + 1) := by
      rw [hcast, zpow_add_one₀ (by norm_num), Nat.shiftLeft_eq, one_mul, Nat.cast_pow,
        Nat.cast_ofNat]
      ring
    rw [if_pos hcarry, if_neg hmax]
    rw [hsame] at hone hupper
    exact ⟨_, rfl, hone, hupper⟩
  · have hmax : ¬maxExponent < e := by
      show ¬(971 : Int) < e
      omega
    rw [if_neg hcarry, if_neg hmax]
    exact ⟨_, rfl, hone, hupper⟩

/-- Zero is rounded to zero. -/
theorem ofRatio_zero (den : Nat) : ofRatio 0 den = some zero := by
  have hshift : ∀ e, (shifted 0 den e).1 = 0 := by
    intro e
    unfold shifted
    split <;> simp
  have hround : ∀ d, roundDiv 0 d = 0 := by
    intro d
    unfold roundDiv
    simp
  unfold ofRatio
  simp only [hshift, hround]
  rfl

/-! ## Decimals in range -/

/-- A power of ten that is a finite number. -/
theorem powerOfTen_spec {k : Nat} (hk : k ≤ maxPower) :
    1 ≤ (powerOfTen k).toRat ∧ (powerOfTen k).toRat ≤ 10 ^ k * (1 + 1 / 2 ^ 53) := by
  have hlt : ((10 ^ k : Nat) : ℚ) / (1 : Nat) < overflowBound := by
    have hpow : 10 ^ k ≤ 10 ^ maxPower := Nat.pow_le_pow_right (by decide) hk
    rw [Nat.cast_one, div_one]
    exact_mod_cast lt_of_le_of_lt hpow lt_overflowBound.2
  obtain ⟨y, hy, hone, hupper⟩ := exists_ofRatio Nat.one_pos (Nat.one_le_pow k 10 (by decide)) hlt
  have hpower : powerOfTen k = y := by
    rw [powerOfTen, show Nat.pow 10 k = 10 ^ k from rfl, hy]
    rfl
  rw [hpower]
  rw [Nat.cast_one, div_one, Nat.cast_pow, Nat.cast_ofNat] at hupper
  exact ⟨hone, hupper⟩

/-- Up to here a decimal is in range, with room for three roundings. -/
def safeBound : Nat := (2 ^ 54 - 7) * 2 ^ 970

theorem safeBound_lt_overflowBound :
    (safeBound : ℚ) * ((1 + 1 / 2 ^ 53) * (1 + 1 / 2 ^ 53)) < overflowBound := by
  rw [safeBound, overflowBound, Nat.cast_mul, Nat.cast_mul, mul_right_comm]
  refine mul_lt_mul_of_pos_right ?_ (by positivity)
  norm_num

theorem safeBound_lt_power : safeBound < 10 ^ (maxPower + 1) := by
  decide +kernel

/-- The rounded product of two doubles of at least one is a double, if the product is not too
large. -/
theorem isSome_mul {x y : Double} (hx : 1 ≤ x.toRat) (hy : 1 ≤ y.toRat)
    (hlt : x.toRat * y.toRat < overflowBound) : (x.mul y).isSome = true := by
  obtain ⟨hb, hxr⟩ := x.toRatio_spec
  obtain ⟨hd, hyr⟩ := y.toRatio_spec
  unfold mul
  generalize x.toRatio = r at *
  generalize y.toRatio = s at *
  obtain ⟨a, b⟩ := r
  obtain ⟨c, d⟩ := s
  simp only at hb hd hxr hyr ⊢
  have hquot : ((a * c : Nat) : ℚ) / (b * d : Nat) = x.toRat * y.toRat := by
    rw [Nat.cast_mul, Nat.cast_mul, mul_div_mul_comm, hxr, hyr]
  have hpos : 0 < b * d := Nat.mul_pos hb hd
  have hone : (1 : ℚ) ≤ x.toRat * y.toRat := one_le_mul_of_one_le_of_one_le hx hy
  have hle : b * d ≤ a * c := by
    rw [← hquot, le_div_iff₀ (by exact_mod_cast hpos), one_mul] at hone
    exact_mod_cast hone
  obtain ⟨z, hz, -⟩ := exists_ofRatio hpos hle (by rw [hquot]; exact hlt)
  rw [hz]
  rfl

/-- A significand of 64 bits is rounded to a double. -/
theorem exists_ofRatio_one {n : Nat} (hn : n < 2 ^ 64) (hpos : 0 < n) :
    ∃ x, ofRatio n 1 = some x ∧ 1 ≤ x.toRat ∧ x.toRat ≤ n * (1 + 1 / 2 ^ 53) := by
  have hlt : (n : ℚ) / (1 : Nat) < overflowBound := by
    rw [Nat.cast_one, div_one]
    exact_mod_cast lt_trans hn lt_overflowBound.1
  obtain ⟨x, hx, hone, hupper⟩ := exists_ofRatio Nat.one_pos hpos hlt
  rw [Nat.cast_one, div_one] at hupper
  exact ⟨x, hx, hone, hupper⟩

/-- A decimal of at most `safeBound` whose significand has 64 bits is in range. -/
theorem isSome_ofDecimal (negative : Bool) {n : Nat} {e : Int} (hn : n < 2 ^ 64)
    (hle : (n : ℚ) * 10 ^ e ≤ safeBound) : (ofDecimal negative n e).isSome = true := by
  rcases Nat.eq_zero_or_pos n with rfl | hpos
  · -- zero stays zero
    unfold ofDecimal
    rw [ofRatio_zero]
    simp only [Option.bind_eq_bind, Option.bind_some]
    have hmul : zero.mul (powerOfTen e.toNat) = some zero := by
      unfold mul
      show ofRatio (0 * _) _ = _
      rw [Nat.zero_mul, ofRatio_zero]
    split
    · split
      · rw [hmul]
        rfl
      · rfl
    · rfl
  · obtain ⟨x, hx, hone, hupper⟩ := exists_ofRatio_one hn hpos
    have hcast : (1 : ℚ) ≤ n := by exact_mod_cast hpos
    unfold ofDecimal
    rw [hx]
    simp only [Option.bind_eq_bind, Option.bind_some]
    by_cases he : 0 ≤ e
    · obtain ⟨k, rfl⟩ := Int.eq_ofNat_of_zero_le he
      rw [if_pos he, Int.toNat_natCast]
      rw [zpow_natCast] at hle
      have hk : k ≤ maxPower := by
        by_contra hbig
        have hpow : (10 : ℚ) ^ (maxPower + 1) ≤ 10 ^ k :=
          pow_le_pow_right₀ (by norm_num) (Nat.lt_of_not_le hbig)
        have hsafe : (safeBound : ℚ) < 10 ^ (maxPower + 1) := by exact_mod_cast safeBound_lt_power
        have hmul : (10 : ℚ) ^ k ≤ n * 10 ^ k := le_mul_of_one_le_left (by positivity) hcast
        linarith
      obtain ⟨hpone, hpupper⟩ := powerOfTen_spec hk
      -- each of the two factors exceeds what it stands for by one part in `2 ^ 53`
      have hprod : x.toRat * (powerOfTen k).toRat < overflowBound := by
        calc x.toRat * (powerOfTen k).toRat
            ≤ (n * (1 + 1 / 2 ^ 53)) * (10 ^ k * (1 + 1 / 2 ^ 53)) :=
              mul_le_mul hupper hpupper (by linarith) (by positivity)
          _ = n * 10 ^ k * ((1 + 1 / 2 ^ 53) * (1 + 1 / 2 ^ 53)) := by ring
          _ ≤ safeBound * ((1 + 1 / 2 ^ 53) * (1 + 1 / 2 ^ 53)) :=
              mul_le_mul_of_nonneg_right hle (by positivity)
          _ < overflowBound := safeBound_lt_overflowBound
      obtain ⟨y, hy⟩ := Option.isSome_iff_exists.1 (isSome_mul hone hpone hprod)
      rw [if_pos hk, hy]
      rfl
    · rw [if_neg he]
      rfl

end Double

end WebToken
