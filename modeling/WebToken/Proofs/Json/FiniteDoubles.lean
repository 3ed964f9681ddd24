import WebToken.Proofs.Json.Reread

/-!
# Doubles that are read are finite

Rounding gives a mantissa of 53 bits, or of fewer at the least exponent, and an exponent in range,
or nothing at all. So every double that a text denotes is finite, however it was scaled, and what
was read can be printed again.

* `Double.isFinite_ofRatio` : a rounded ratio is finite;
* `Json.Members.printable_values` : what was read can be printed.
-/

namespace WebToken

namespace Double

/-! ## Rounded ratios -/

theorem isFinite_zero : zero.IsFinite := ⟨by decide, by decide, by decide, .inr rfl⟩

/-- The sign does not count. -/
theorem IsFinite.withSign {x : Double} (hx : x.IsFinite) (negative : Bool) :
    (x.withSign negative).IsFinite := hx

/-- A mantissa of 53 bits, or of fewer at the least exponent, gives a finite number or none. -/
theorem isFinite_of_mantissa {m : Nat} {e : Int} {y : Double} (hm : m < 2 ^ 53)
    (he : minExponent ≤ e) (hnormal : 2 ^ 52 ≤ m ∨ e = minExponent)
    (h : (if m = 0 then some zero else if maxExponent < e then none else some ⟨false, m, e⟩) =
      some y) : y.IsFinite := by
  split at h
  · cases h
    exact isFinite_zero
  · split at h
    · cases h
    · next hmax =>
      cases h
      exact ⟨hm, he, Int.not_lt.1 hmax, hnormal⟩

/-- At its exponent a ratio is rounded to a mantissa of 53 bits, or of fewer at the least exponent,
before a carry is put right. -/
theorem mantissa_spec {num den n d : Nat} {e : Int} (hn : 0 < num) (hd : 0 < den)
    (he : exponentOf num den = e) (hs : shifted num den e = (n, d)) :
    minExponent ≤ e ∧ roundDiv n d ≤ 2 ^ 53 ∧ (2 ^ 52 ≤ roundDiv n d ∨ e = minExponent) := by
  obtain ⟨e₀, hexp, hlow, hhigh⟩ := exists_exponentOf_eq_max hn hd
  have hmax : e = max e₀ minExponent := he.symm.trans hexp
  obtain ⟨hpos, hshift⟩ := shifted_spec num hd e
  simp only [hs] at hpos hshift
  have hdpos : (0 : ℚ) < d := by exact_mod_cast hpos
  have hpow : (0 : ℚ) < 2 ^ e := by positivity
  obtain ⟨hfloor, hround⟩ := roundDiv_bounds n hpos
  refine ⟨by omega, ?_, ?_⟩
  · have hquotient : (n : ℚ) / d < 2 ^ 53 := by
      rw [hshift, div_lt_iff₀ hpow]
      refine lt_of_lt_of_le hhigh (mul_le_mul_of_nonneg_left ?_ (by positivity))
      exact zpow_le_zpow_right₀ (by norm_num) (by omega)
    have hlt : (roundDiv n d : ℚ) < ((2 ^ 53 + 1 : Nat) : ℚ) := by
      push_cast
      linarith
    have := Nat.cast_lt.mp hlt
    omega
  · by_cases hleast : e = minExponent
    · exact .inr hleast
    · -- above the least exponent the mantissa has all its bits
      have hsame : e₀ = e := by omega
      refine .inl (le_trans ?_ hfloor)
      rw [hsame, ← le_div_iff₀ hpow, ← hshift, le_div_iff₀ hdpos] at hlow
      rw [Nat.le_div_iff_mul_le hpos]
      exact_mod_cast hlow

/-- A rounded ratio is finite. -/
theorem isFinite_ofRatio {num den : Nat} {y : Double} (hd : 0 < den)
    (h : ofRatio num den = some y) : y.IsFinite := by
  rcases Nat.eq_zero_or_pos num with rfl | hn
  · rw [ofRatio_zero] at h
    cases h
    exact isFinite_zero
  · obtain ⟨e, he⟩ : ∃ e, exponentOf num den = e := ⟨_, rfl⟩
    obtain ⟨n, d, hs⟩ : ∃ n d, shifted num den e = (n, d) := ⟨_, _, rfl⟩
    obtain ⟨hleast, hupper, hnormal⟩ := mantissa_spec hn hd he hs
    unfold ofRatio at h
    simp only [he, hs] at h
    by_cases hcarry : roundDiv n d = 1 <<< 53
    · rw [if_pos hcarry] at h
      exact isFinite_of_mantissa (m := 1 <<< 52) (e := e + 1) (by decide) (by omega)
        (.inl (by decide)) h
    · rw [if_neg hcarry] at h
      have hlt : roundDiv n d < 2 ^ 53 := lt_of_le_of_ne hupper hcarry
      exact isFinite_of_mantissa hlt hleast hnormal h

/-! ## Scaled decimals -/

theorem isFinite_getD_zero {x? : Option Double} (h : ∀ y, x? = some y → y.IsFinite) :
    (x?.getD zero).IsFinite := by
  cases x? with
  | none => exact isFinite_zero
  | some y => exact h y rfl

theorem isFinite_mul {x y z : Double} (h : x.mul y = some z) : z.IsFinite := by
  have hpos := Nat.mul_pos x.toRatio_spec.1 y.toRatio_spec.1
  unfold mul at h
  exact isFinite_ofRatio hpos h

/-- A quotient by a number of at least one is finite. -/
theorem isFinite_div {x y z : Double} (hy : 1 ≤ y.toRat) (h : x.div y = some z) : z.IsFinite := by
  obtain ⟨-, hvalue⟩ := y.toRatio_spec
  have hpos : 0 < y.toRatio.1 := by
    refine Nat.pos_of_ne_zero fun hzero => ?_
    rw [← hvalue, hzero, Nat.cast_zero, zero_div] at hy
    exact absurd hy (by norm_num)
  have hden := Nat.mul_pos x.toRatio_spec.1 hpos
  unfold div at h
  exact isFinite_ofRatio hden h

theorem isFinite_divPower {x : Double} {k : Nat} (hx : x.IsFinite) :
    (x.divPower k).IsFinite := by
  induction x, k using divPower.induct with
  | case1 x k hk =>
    rw [divPower, if_pos hk]
    exact isFinite_getD_zero fun y hy => isFinite_div (powerOfTen_spec hk).1 hy
  | case2 x k hk hzero =>
    rw [divPower, if_neg hk, if_pos hzero]
    exact hx
  | case3 x k hk hzero ih =>
    rw [divPower, if_neg hk, if_neg hzero]
    exact ih (isFinite_getD_zero fun y hy => isFinite_div (powerOfTen_spec (le_refl _)).1 hy)

/-- A scaled decimal is finite. -/
theorem isFinite_ofDecimal {negative : Bool} {significand : Nat} {exponent : Int} {y : Double}
    (h : ofDecimal negative significand exponent = some y) : y.IsFinite := by
  unfold ofDecimal at h
  simp only [Option.bind_eq_bind, Option.bind_eq_some_iff] at h
  obtain ⟨x, hx, h⟩ := h
  have hfinite : x.IsFinite := isFinite_ofRatio Nat.one_pos hx
  split at h
  · split at h
    · obtain ⟨z, hz, h⟩ := Option.bind_eq_some_iff.1 h
      cases h
      exact (isFinite_mul hz).withSign negative
    · split at h
      · cases h
        exact hfinite.withSign negative
      · cases h
  · cases h
    exact (isFinite_divPower hfinite).withSign negative

end Double

namespace Json

/-! ## Values of documents -/

theorem Numeral.finiteDoubles_value {x : Numeral} {v : Value} (h : x.value = .ok v) :
    v.FiniteDoubles := by
  rcases number_of_value h with ⟨n, -, rfl⟩ | ⟨d, hd, rfl⟩
  · exact nofun
  · rintro y hy
    rw [← Value.float.inj hy]
    exact Double.isFinite_ofDecimal hd

theorem Value.holdsAsRead_finite : HoldsAsRead fun w => ∀ x, w = .float x → x.IsFinite where
  null := nofun
  bool := fun _ => nofun
  number := fun _ _ h => Numeral.finiteDoubles_value h
  string := fun _ => nofun
  array := fun _ => nofun
  object := fun _ _ => nofun

/-- Whether a text of the value is read again: whole numbers have 64 bits, the names in an object
are distinct, and doubles are finite. -/
structure Value.Printable (v : Value) : Prop where
  wellFormed : v.WellFormed
  finiteDoubles : v.FiniteDoubles

/-- What was read can be printed. -/
theorem Members.printable_values {members : Members} {depth : Nat} {ms : Object}
    (h : members.values depth = .ok ms) : ∀ m ∈ ms, m.2.Printable :=
  fun m hm => ⟨wellFormed_values members h m hm, all_values Value.holdsAsRead_finite members h m hm⟩

/-- An object with distinct names can be printed if its values can. -/
theorem Value.printable_object {o : Object} (hnames : o.names.Nodup)
    (hvalues : ∀ m ∈ o, m.2.Printable) : (Value.object o).Printable where
  wellFormed := all_object.2 ⟨hnames, fun m hm => (hvalues m hm).wellFormed⟩
  finiteDoubles := all_object.2 ⟨nofun, fun m hm => (hvalues m hm).finiteDoubles⟩

end Json

end WebToken
