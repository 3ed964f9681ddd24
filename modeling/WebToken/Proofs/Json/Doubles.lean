import WebToken.Proofs.Decimal.Shortest
import WebToken.Proofs.Json.Numerals

/-!
# A printed double is read back as a double

A double is printed with a point or a power of ten, so it is never taken for a whole number, and
the number that its text denotes is in range. It may differ from the double in the last place: a
reader gathers the digits in 64 bits and scales them in one rounded step.

* `Json.Numeral.read_toChars` : the printed double is read as the numeral `Numeral.ofDouble`;
* `Double.value_ofDouble` : that numeral denotes a double, `Double.reread`.
-/

namespace WebToken

namespace Json

namespace Numeral

/-! ## The parts behind the whole digits -/

theorem readFraction_of_head {rest : Bytes} (hr : ∀ b ∈ rest.head?, b ≠ 0x2E) :
    readFraction rest = .ok (none, rest) := by
  unfold readFraction
  split
  · next text => exact absurd rfl (hr 0x2E rfl)
  · rfl

/-- A point and digits are read as the digits after the point. -/
theorem readFraction_utf8 {cs : List Char} (hcs : ∀ c ∈ cs, c.isDigit = true) (hne : cs ≠ [])
    {rest : Bytes} (hr : ∀ b ∈ rest.head?, digit? b = none) :
    readFraction (0x2E :: (Bytes.utf8 cs ++ rest)) = .ok (some (cs.map ofChar), rest) := by
  rw [readFraction, digits_utf8 hcs hr]
  obtain ⟨c, cs, rfl⟩ := List.exists_cons_of_ne_nil hne
  rfl

/-- A printed power of ten is read back. -/
theorem readPower_utf8 (power : Int) {rest : Bytes} (hr : ∀ b ∈ rest.head?, digit? b = none) :
    readPower (Bytes.utf8 ('e' :: (if power < 0 then '-' else '+') ::
      Nat.toDigits 10 power.natAbs) ++ rest) = .ok (some power, rest) := by
  have hdigits := digits_utf8
    (fun c hc => isDigit_of_mem_toDigits (n := power.natAbs) (c := c) hc) hr
  obtain ⟨c, cs, hc⟩ :=
    List.exists_cons_of_ne_nil (Nat.toDigits_ne_nil (n := power.natAbs) (b := 10))
  have hvalue := ofDigits_toDigits power.natAbs
  have hchars (sign : Char) (hs : sign.toNat < 128) :
      Bytes.utf8 ('e' :: sign :: Nat.toDigits 10 power.natAbs) ++ rest =
        0x65 :: UInt8.ofNat sign.toNat :: (Bytes.utf8 (Nat.toDigits 10 power.natAbs) ++ rest) := by
    rw [Bytes.utf8_cons_ascii _ (by decide), Bytes.utf8_cons_ascii _ hs]
    rfl
  by_cases hneg : power < 0
  · rw [if_pos hneg, hchars '-' (by decide)]
    show readPower (0x65 :: 0x2D :: _) = _
    rw [readPower, if_pos (.inl rfl)]
    simp only [readSign, hdigits]
    rw [hc, List.map_cons] at hvalue ⊢
    simp only [if_true, hvalue]
    congr
    omega
  · rw [if_neg hneg, hchars '+' (by decide)]
    show readPower (0x65 :: 0x2B :: _) = _
    rw [readPower, if_pos (.inl rfl)]
    simp only [readSign, hdigits]
    rw [hc, List.map_cons] at hvalue ⊢
    simp only [Bool.false_eq_true, if_false, hvalue]
    congr
    omega

/-! ## Digits around a point -/

theorem utf8_point_cons (cs : List Char) (rest : Bytes) :
    Bytes.utf8 ('.' :: cs) ++ rest = 0x2E :: (Bytes.utf8 cs ++ rest) := by
  rw [Bytes.utf8_cons_ascii _ (by decide)]
  rfl

theorem digit?_of_mem_head?_point (rest : Bytes) :
    ∀ b ∈ (0x2E :: rest : Bytes).head?, digit? b = none := by
  intro b hb
  cases hb
  rfl

theorem isDigit_of_mem_zeros (k : Nat) : ∀ c ∈ List.replicate k '0', c.isDigit = true := by
  intro c hc
  rw [List.eq_of_mem_replicate hc]
  rfl

/-- Digits around a point are read as such. -/
theorem read_pointed (negative : Bool) {c : Char} {cs ds : List Char}
    (hcs : ∀ d ∈ c :: cs, d.isDigit = true) (h0 : ofChar c ≠ 0 ∨ cs = [])
    (hds : ∀ d ∈ ds, d.isDigit = true) (hne : ds ≠ []) {rest : Bytes} (hr : Ends rest) :
    read ((if negative then [0x2D] else []) ++ (Bytes.utf8 (c :: cs ++ '.' :: ds) ++ rest)) =
      .ok (⟨negative, (c :: cs).map ofChar, some (ds.map ofChar), none⟩, rest) := by
  rw [Bytes.utf8_append, List.append_assoc, utf8_point_cons]
  exact read_of_parts negative (readWhole_utf8 hcs h0 (digit?_of_mem_head?_point _))
    (readFraction_utf8 hds hne fun b hb => (hr b hb).1) (readPower_of_ends hr)

/-- One digit, the digits after a point if there are any, and a power of ten are read as such. -/
theorem read_scientific (negative : Bool) {c : Char} {cs : List Char}
    (hcs : ∀ d ∈ c :: cs, d.isDigit = true) (power : Int) {rest : Bytes} (hr : Ends rest) :
    read ((if negative then [0x2D] else []) ++
        (Bytes.utf8 ((if cs = [] then [c] else c :: '.' :: cs) ++
          'e' :: (if power < 0 then '-' else '+') :: Nat.toDigits 10 power.natAbs) ++ rest)) =
      .ok (⟨negative, [ofChar c], if cs = [] then none else some (cs.map ofChar), some power⟩,
        rest) := by
  have hpower := readPower_utf8 power fun b hb => (hr b hb).1
  have hhead : ∀ b ∈ (Bytes.utf8 ('e' :: (if power < 0 then '-' else '+') ::
      Nat.toDigits 10 power.natAbs) ++ rest).head?, digit? b = none ∧ b ≠ 0x2E := by
    intro b hb
    rw [Bytes.utf8_cons_ascii _ (by decide)] at hb
    cases hb
    decide
  have hc : ∀ d ∈ [c], d.isDigit = true := fun d hd =>
    hcs d (List.mem_cons.2 (.inl (List.mem_singleton.1 hd)))
  rw [Bytes.utf8_append, List.append_assoc]
  by_cases hnil : cs = []
  · rw [if_pos hnil, if_pos hnil]
    exact read_of_parts negative (readWhole_utf8 hc (.inr rfl) fun b hb => (hhead b hb).1)
      (readFraction_of_head fun b hb => (hhead b hb).2) hpower
  · rw [if_neg hnil, if_neg hnil, show c :: '.' :: cs = [c] ++ '.' :: cs from rfl,
      Bytes.utf8_append, List.append_assoc, utf8_point_cons]
    exact read_of_parts negative (readWhole_utf8 hc (.inr rfl) (digit?_of_mem_head?_point _))
      (readFraction_utf8 (fun d hd => hcs d (List.mem_cons_of_mem _ hd)) hnil fun b hb =>
        (hhead b hb).1) hpower

/-! ## Placed digits -/

/-- The numeral of digits whose point stands `point` places after the first digit begins. -/
def ofPlace (style : Double.Layout) (negative : Bool) (ds : List Nat) (point : Int) : Numeral :=
  let count : Int := ds.length
  if style.least ≤ point ∧ point ≤ style.greatest then
    if count ≤ point then
      ⟨negative, ds ++ List.replicate (point - count).toNat 0, some [0], none⟩
    else if 0 < point then
      ⟨negative, ds.take point.toNat, some (ds.drop point.toNat), none⟩
    else
      ⟨negative, [0], some (List.replicate (-point).toNat 0 ++ ds), none⟩
  else
    ⟨negative, ds.take 1, if ds.drop 1 = [] then none else some (ds.drop 1), some (point - 1)⟩

/-- The numeral of a printed double. -/
def ofDouble (x : Double) : Numeral :=
  if x.isZero then ⟨x.negative, [0], some [0], none⟩
  else
    let ds := (Nat.toDigits 10 x.shortest.digits).map ofChar
    ofPlace Double.layout x.negative ds (ds.length + x.shortest.scale)

/-- Placed digits are read as their numeral. -/
theorem read_place (style : Double.Layout) (negative : Bool) {c : Char} {cs : List Char}
    (hcs : ∀ d ∈ c :: cs, d.isDigit = true) (h0 : ofChar c ≠ 0) (point : Int) {rest : Bytes}
    (hr : Ends rest) :
    read ((if negative then [0x2D] else []) ++
        (Bytes.utf8 (Double.place style (c :: cs) point) ++ rest)) =
      .ok (ofPlace style negative ((c :: cs).map ofChar) point, rest) := by
  unfold Double.place ofPlace
  simp only [List.length_map]
  by_cases hplain : style.least ≤ point ∧ point ≤ style.greatest
  · rw [if_pos hplain, if_pos hplain]
    by_cases hcount : ((c :: cs).length : Int) ≤ point
    · -- all digits stand before the point
      rw [if_pos hcount, if_pos hcount]
      generalize (point - ((c :: cs).length : Int)).toNat = k
      have hwhole : ∀ d ∈ c :: (cs ++ List.replicate k '0'), d.isDigit = true := by
        intro d hd
        rw [← List.cons_append, List.mem_append] at hd
        exact hd.elim (hcs d) (isDigit_of_mem_zeros k d)
      have hread := read_pointed negative hwhole (.inl h0) (isDigit_of_mem_zeros 1) (by decide) hr
      rw [← List.cons_append, List.map_append, List.map_replicate] at hread
      exact hread
    · rw [if_neg hcount, if_neg hcount]
      by_cases hpos : 0 < point
      · -- the point stands between two digits
        rw [if_pos hpos, if_pos hpos]
        obtain ⟨k, hk⟩ : ∃ k, point.toNat = k + 1 := ⟨point.toNat - 1, by omega⟩
        have hne : cs.drop k ≠ [] := by
          rw [Ne, List.drop_eq_nil_iff]
          rw [List.length_cons] at hcount
          omega
        have hwhole : ∀ d ∈ c :: cs.take k, d.isDigit = true :=
          fun d hd => hcs d (List.mem_of_mem_take (i := k + 1) hd)
        have hread := read_pointed negative hwhole (.inl h0)
          (fun d hd => hcs d (List.mem_of_mem_drop (i := k + 1) hd)) hne hr
        rw [hk, ← List.map_take, ← List.map_drop]
        exact hread
      · -- a zero stands before the point
        rw [if_neg hpos, if_neg hpos]
        have hfrac : ∀ d ∈ List.replicate (-point).toNat '0' ++ c :: cs, d.isDigit = true :=
          fun d hd => (List.mem_append.1 hd).elim (isDigit_of_mem_zeros _ d) (hcs d)
        have hread := read_pointed negative (isDigit_of_mem_zeros 1) (.inr rfl) hfrac (by simp) hr
        rw [List.map_append, List.map_replicate] at hread
        exact hread
  · rw [if_neg hplain, if_neg hplain]
    have hread := read_scientific negative hcs (point - 1) hr
    cases cs <;> exact hread

/-- A printed double is read as its numeral. -/
theorem read_toChars (x : Double) {rest : Bytes} (hr : Ends rest) :
    read (Bytes.utf8 x.toChars ++ rest) = .ok (ofDouble x, rest) := by
  have hsign (cs : List Char) :
      Bytes.utf8 (if x.negative then '-' :: cs else cs) ++ rest =
        (if x.negative then [0x2D] else []) ++ (Bytes.utf8 cs ++ rest) := by
    cases x.negative
    · rfl
    · rw [if_pos rfl, if_pos rfl, Bytes.utf8_cons_ascii _ (by decide)]
      rfl
  unfold Double.toChars ofDouble
  rw [hsign]
  by_cases hzero : x.isZero = true
  · rw [if_pos hzero, if_pos hzero]
    exact read_pointed x.negative (isDigit_of_mem_zeros 1) (.inr rfl) (isDigit_of_mem_zeros 1)
      (by decide) hr
  · rw [if_neg hzero, if_neg hzero]
    have hx : x.mantissa ≠ 0 := by
      intro h
      exact hzero (by rw [Double.isZero, h]; rfl)
    obtain ⟨c, cs, hc, h0⟩ := head_toDigits (Nat.pos_of_ne_zero (Double.shortest_spec hx).1)
    have hcs : ∀ d ∈ c :: cs, d.isDigit = true := by
      rw [← hc]
      exact fun d hd => isDigit_of_mem_toDigits hd
    simp only [hc, List.length_map]
    exact read_place _ _ hcs h0 _ hr

/-! ## Gathering digits -/

/-- Digits that spell a number of 64 bits are gathered without excess. -/
theorem gather_of_lt {ds : List Nat} {n : Nat}
    (h : ds.foldl (fun n d => 10 * n + d) n < 2 ^ 64) :
    gather n ds = (ds.foldl (fun n d => 10 * n + d) n, []) := by
  induction ds generalizing n with
  | nil => rfl
  | cons d ds ih =>
    have hmono : ∀ (ds : List Nat) (k : Nat), k ≤ ds.foldl (fun n d => 10 * n + d) k := by
      intro ds
      induction ds with
      | nil => exact fun k => le_refl k
      | cons d ds ih => exact fun k => le_trans (by omega) (ih (10 * k + d))
    have hlt : 10 * n + d < 0x10000000000000000 := lt_of_le_of_lt (hmono ds _) h
    rw [gather, if_pos hlt]
    exact ih h

/-- What is gathered has 64 bits, and is no more than the digits spell without those dropped. -/
theorem gather_bounds (ds : List Nat) {n : Nat} (hn : n < 2 ^ 64) :
    (gather n ds).1 < 2 ^ 64 ∧ (gather n ds).2.length ≤ ds.length ∧
      (gather n ds).1 * 10 ^ (gather n ds).2.length ≤ ds.foldl (fun n d => 10 * n + d) n := by
  have hmono : ∀ (ds : List Nat) (k : Nat),
      k * 10 ^ ds.length ≤ ds.foldl (fun n d => 10 * n + d) k := by
    intro ds
    induction ds with
    | nil => exact fun k => by simp
    | cons d ds ih =>
      intro k
      rw [List.foldl_cons, List.length_cons, pow_succ, mul_comm _ 10, ← mul_assoc, mul_comm k]
      exact le_trans (Nat.mul_le_mul_right _ (Nat.le_add_right _ _)) (ih (10 * k + d))
  induction ds generalizing n with
  | nil => exact ⟨hn, le_refl _, by simp [gather]⟩
  | cons d ds ih =>
    rw [gather]
    by_cases hlt : 10 * n + d < 0x10000000000000000
    · rw [if_pos hlt]
      obtain ⟨h64, hlen, hle⟩ := ih hlt
      exact ⟨h64, le_trans hlen (Nat.le_succ _), hle⟩
    · rw [if_neg hlt]
      exact ⟨hn, le_refl _, hmono (d :: ds) n⟩

/-! ## What the numeral denotes -/

/-- The digits of a numeral, before and after the point. -/
def allDigits (x : Numeral) : List Nat := x.whole ++ x.fraction.getD []

/-- What a numeral denotes, before any rounding and up to its sign. -/
def toRat (x : Numeral) : ℚ :=
  ofDigits x.allDigits * 10 ^ (x.power.getD 0 - ((x.fraction.getD []).length : Int))

/-- A numeral with few digits before the point denotes a double, if it is not too large. -/
theorem isSome_toDouble? {x : Numeral} (hwhole : ofDigits x.whole < 2 ^ 64)
    (hle : x.toRat ≤ Double.safeBound) : x.toDouble?.isSome = true := by
  have hg : gather 0 x.whole = (ofDigits x.whole, []) := gather_of_lt hwhole
  obtain ⟨h64, hlen, hsig⟩ := gather_bounds (x.fraction.getD []) hwhole
  have hall : (x.fraction.getD []).foldl (fun n d => 10 * n + d) (ofDigits x.whole) =
      ofDigits x.allDigits := by
    rw [allDigits, ofDigits, ofDigits, List.foldl_append]
  obtain ⟨n, dropped, hgather⟩ :
      ∃ n dropped, gather (ofDigits x.whole) (x.fraction.getD []) = (n, dropped) := ⟨_, _, rfl⟩
  unfold toDouble?
  rw [hall] at hsig
  simp only [hg, hgather] at h64 hlen hsig ⊢
  refine Double.isSome_ofDecimal x.negative h64 (le_trans ?_ hle)
  -- the digits dropped are below the digits gathered
  have hexp : ((List.length ([] : List Nat) : Int) -
      (((x.fraction.getD []).length : Int) - (dropped.length : Int)) + x.power.getD 0) =
      (dropped.length : Int) + (x.power.getD 0 - ((x.fraction.getD []).length : Int)) := by
    rw [List.length_nil]
    omega
  rw [hexp, zpow_add₀ (by norm_num), ← mul_assoc, zpow_natCast, toRat]
  refine mul_le_mul_of_nonneg_right ?_ (by positivity)
  exact_mod_cast hsig

/-! ## What the numeral of a double denotes -/

theorem ofDigits_append_zeros (ds : List Nat) (k : Nat) :
    ofDigits (ds ++ List.replicate k 0) = ofDigits ds * 10 ^ k := by
  induction k with
  | zero => simp
  | succ k ih =>
    rw [List.replicate_succ', ← List.append_assoc, ofDigits, List.foldl_append, ← ofDigits, ih,
      List.foldl_cons, List.foldl_nil, pow_succ]
    ring

theorem ofDigits_zeros_append (k : Nat) (ds : List Nat) :
    ofDigits (List.replicate k 0 ++ ds) = ofDigits ds := by
  induction k with
  | zero => simp
  | succ k ih =>
    rw [List.replicate_succ, List.cons_append, ofDigits, List.foldl_cons]
    exact ih

theorem ofDigits_lt {ds : List Nat} (hds : ∀ d ∈ ds, d < 10) : ofDigits ds < 10 ^ ds.length := by
  induction ds using List.reverseRecOn with
  | nil => decide
  | append_singleton ds d ih =>
    have hd := hds d (by simp)
    have := ih fun c hc => hds c (by simp [hc])
    rw [ofDigits, List.foldl_append, ← ofDigits, List.foldl_cons, List.foldl_nil,
      List.length_append, List.length_singleton, pow_succ]
    omega

/-- Placing digits neither adds nor takes away, and puts few of them before the point. -/
theorem ofPlace_spec (style : Double.Layout) (hstyle : style.greatest ≤ 19) (negative : Bool)
    {ds : List Nat} (hds : ∀ d ∈ ds, d < 10) (hne : ds ≠ []) (point : Int) :
    ofDigits (ofPlace style negative ds point).whole < 2 ^ 64 ∧
      (ofPlace style negative ds point).toRat = ofDigits ds * 10 ^ (point - (ds.length : Int)) := by
  have hbound {cs : List Nat} (hcs : ∀ d ∈ cs, d < 10) (hlen : cs.length ≤ 19) :
      ofDigits cs < 2 ^ 64 :=
    lt_of_lt_of_le (ofDigits_lt hcs)
      (le_trans (Nat.pow_le_pow_right (by decide) hlen) (by norm_num))
  have hlength : 0 < ds.length := List.length_pos_of_ne_nil hne
  unfold ofPlace toRat allDigits
  simp only
  by_cases hplain : style.least ≤ point ∧ point ≤ style.greatest
  · rw [if_pos hplain]
    by_cases hcount : (ds.length : Int) ≤ point
    · rw [if_pos hcount]
      obtain ⟨k, hk⟩ : ∃ k : Nat, point - ds.length = k := ⟨(point - ds.length).toNat, by omega⟩
      rw [hk, Int.toNat_natCast]
      constructor
      · refine hbound (fun d hd => ?_) (by rw [List.length_append, List.length_replicate]; omega)
        rcases List.mem_append.1 hd with hd | hd
        · exact hds d hd
        · rw [List.eq_of_mem_replicate hd]
          decide
      · simp only [Option.getD_some, Option.getD_none, List.length_singleton]
        rw [show [0] = List.replicate 1 0 from rfl, ofDigits_append_zeros, ofDigits_append_zeros,
          zpow_natCast]
        push_cast
        norm_num
        ring
    · rw [if_neg hcount]
      by_cases hpos : 0 < point
      · rw [if_pos hpos]
        constructor
        · refine hbound (fun d hd => hds d (List.mem_of_mem_take hd)) ?_
          rw [List.length_take]
          omega
        · simp only [Option.getD_some, Option.getD_none, List.take_append_drop, List.length_drop]
          congr 2
          omega
      · rw [if_neg hpos]
        have hzero : ∀ d ∈ [0], d < 10 := by decide
        refine ⟨hbound hzero (show [0].length ≤ 19 by decide), ?_⟩
        simp only [Option.getD_some, Option.getD_none, List.length_append, List.length_replicate]
        rw [show ([0] : List Nat) = List.replicate 1 0 from rfl, ofDigits_zeros_append,
          ofDigits_zeros_append]
        congr 2
        omega
  · rw [if_neg hplain]
    refine ⟨hbound (fun d hd => hds d (List.mem_of_mem_take hd)) ?_, ?_⟩
    · rw [List.length_take]
      omega
    · have hfrac : (if ds.drop 1 = [] then none else some (ds.drop 1)).getD [] = ds.drop 1 := by
        split
        · next h => exact h.symm
        · rfl
      rw [hfrac, List.take_append_drop, List.length_drop, Option.getD_some]
      congr 2
      omega

theorem ofChar_lt {c : Char} (h : c.isDigit = true) : ofChar c < 10 := by
  have := toNat_of_isDigit h
  unfold ofChar
  omega

end Numeral

end Json

/-! ## Doubles read back -/

namespace Double

open Json (Numeral)

/-- Whether a number is a finite double: its mantissa has 53 bits, or fewer at the least
exponent. -/
def IsFinite (x : Double) : Prop :=
  x.mantissa < 2 ^ 53 ∧ minExponent ≤ x.exponent ∧ x.exponent ≤ maxExponent ∧
    (2 ^ 52 ≤ x.mantissa ∨ x.exponent = minExponent)

/-- The largest numbers are read back, though their decimals leave no room for roundings. -/
theorem isSome_toDouble?_topmost (negative : Bool) {k : Nat} (hk : k < 3) :
    (Numeral.ofDouble ⟨negative, 2 ^ 53 - 3 + k, maxExponent⟩).toDouble?.isSome = true := by
  have table : ∀ b : Bool, ∀ k < 3,
      (Numeral.ofDouble ⟨b, 2 ^ 53 - 3 + k, maxExponent⟩).toDouble?.isSome = true := by
    decide +kernel
  exact table negative k hk

/-- The text of a finite double denotes a double. -/
theorem isSome_toDouble?_ofDouble {x : Double} (hx : x.IsFinite) :
    (Numeral.ofDouble x).toDouble?.isSome = true := by
  obtain ⟨hm, -, he, -⟩ := hx
  by_cases htop : x.Topmost
  · obtain ⟨hlow, hexp⟩ := htop
    obtain ⟨k, hk, hmantissa⟩ : ∃ k < 3, x.mantissa = 2 ^ 53 - 3 + k :=
      ⟨x.mantissa - (2 ^ 53 - 3), by omega, by omega⟩
    have := isSome_toDouble?_topmost x.negative hk
    rw [← hmantissa, ← hexp] at this
    exact this
  · unfold Numeral.ofDouble
    by_cases hzero : x.isZero = true
    · rw [if_pos hzero]
      have hwhole : Numeral.ofDigits [0] < 2 ^ 64 := by decide
      refine Numeral.isSome_toDouble? hwhole ?_
      rw [Numeral.toRat, show Numeral.ofDigits (Numeral.allDigits _) = 0 from rfl, Nat.cast_zero,
        zero_mul]
      exact Nat.cast_nonneg _
    · rw [if_neg hzero]
      have hx : x.mantissa ≠ 0 := by
        intro h
        exact hzero (by rw [isZero, h]; rfl)
      have hds : ∀ d ∈ (Nat.toDigits 10 x.shortest.digits).map Numeral.ofChar, d < 10 := by
        intro d hd
        obtain ⟨c, hc, rfl⟩ := List.mem_map.1 hd
        exact Numeral.ofChar_lt (Numeral.isDigit_of_mem_toDigits hc)
      have hne : (Nat.toDigits 10 x.shortest.digits).map Numeral.ofChar ≠ [] := by
        rw [Ne, List.map_eq_nil_iff]
        exact Nat.toDigits_ne_nil
      obtain ⟨hwhole, hvalue⟩ := Numeral.ofPlace_spec layout (by decide) x.negative hds hne
        (((Nat.toDigits 10 x.shortest.digits).map Numeral.ofChar).length + x.shortest.scale)
      refine Numeral.isSome_toDouble? hwhole ?_
      rw [hvalue, add_sub_cancel_left, Numeral.ofDigits_toDigits]
      exact shortest_le_safeBound hx hm he htop

/-- What the text of a double is read as: a double that may differ in the last place. -/
def reread (x : Double) : Double := (Numeral.ofDouble x).toDouble?.getD x

/-- The numeral of a printed double denotes the double read back. -/
theorem value_ofDouble {x : Double} (hx : x.IsFinite) :
    (Numeral.ofDouble x).value = .ok (.float x.reread) := by
  have hpointed : (Numeral.ofDouble x).fraction.isSome = true ∨
      (Numeral.ofDouble x).power.isSome = true := by
    unfold Numeral.ofDouble Numeral.ofPlace
    simp only
    split
    · exact .inl rfl
    · split
      · split
        · exact .inl rfl
        · split <;> exact .inl rfl
      · exact .inr rfl
  obtain ⟨y, hy⟩ := Option.isSome_iff_exists.1 (isSome_toDouble?_ofDouble hx)
  rw [Numeral.value, Numeral.toInteger?, if_pos hpointed, reread, hy]
  rfl

end Double

end WebToken
