import TensorGraph.Number.Binary32
import TensorGraph.Proofs.Rounding

/-! Magnitudes in the two widths of floating-point numbers. A number of 32 bits is one of 64 bits as well,
and rounding to 64 bits moves a magnitude only by a factor close to one. -/
namespace TensorGraph

/-- Two magnitudes of which neither is greater than a factor times the other. -/
structure Within (r x y : ℚ) : Prop where
  one_le : 1 ≤ r
  pos : 0 < y
  le : x ≤ r * y
  ge : y ≤ r * x

namespace Within

variable {r r' x x' y y' z : ℚ}

theorem pos_left (h : Within r x y) : 0 < x := by
  have : 0 < r * x := h.pos.trans_le h.ge
  exact (mul_pos_iff_of_pos_left (zero_lt_one.trans_le h.one_le)).mp this

theorem refl (pos : 0 < x) : Within 1 x x := ⟨le_rfl, pos, (one_mul x).ge, (one_mul x).ge⟩

theorem mono (h : Within r x y) (more : r ≤ r') : Within r' x y where
  one_le := h.one_le.trans more
  pos := h.pos
  le := h.le.trans (mul_le_mul_of_nonneg_right more h.pos.le)
  ge := h.ge.trans (mul_le_mul_of_nonneg_right more h.pos_left.le)

theorem trans (h : Within r x y) (h' : Within r' y z) : Within (r * r') x z := by
  have r_pos := zero_lt_one.trans_le h.one_le
  have r'_pos := zero_lt_one.trans_le h'.one_le
  refine ⟨one_le_mul_of_one_le_of_one_le h.one_le h'.one_le, h'.pos, ?_, ?_⟩
  · calc x ≤ r * y := h.le
      _ ≤ r * (r' * z) := by gcongr; exact h'.le
      _ = r * r' * z := (mul_assoc ..).symm
  · calc z ≤ r' * y := h'.ge
      _ ≤ r' * (r * x) := by gcongr; exact h.ge
      _ = r * r' * x := by ring

theorem mul (h : Within r x y) (h' : Within r' x' y') : Within (r * r') (x * x') (y * y') := by
  have r_pos := zero_lt_one.trans_le h.one_le
  have := h.pos
  have := h.pos_left
  have := h'.pos
  have := h'.pos_left
  refine ⟨one_le_mul_of_one_le_of_one_le h.one_le h'.one_le, by positivity, ?_, ?_⟩
  · calc x * x' ≤ r * y * (r' * y') := by gcongr; exacts [h.le, h'.le]
      _ = r * r' * (y * y') := by ring
  · calc y * y' ≤ r * x * (r' * x') := by gcongr; exacts [h.ge, h'.ge]
      _ = r * r' * (x * x') := by ring

theorem inv (h : Within r x y) : Within r x⁻¹ y⁻¹ := by
  have y_pos := h.pos
  have x_pos := h.pos_left
  refine ⟨h.one_le, inv_pos.mpr y_pos, ?_, ?_⟩
  · rw [inv_eq_one_div, div_le_iff₀ x_pos]
    calc (1 : ℚ) = y⁻¹ * y := (inv_mul_cancel₀ y_pos.ne').symm
      _ ≤ y⁻¹ * (r * x) := by gcongr; exact h.ge
      _ = r * y⁻¹ * x := by ring
  · rw [inv_eq_one_div, div_le_iff₀ y_pos]
    calc (1 : ℚ) = x⁻¹ * x := (inv_mul_cancel₀ x_pos.ne').symm
      _ ≤ x⁻¹ * (r * y) := by gcongr; exact h.le
      _ = r * x⁻¹ * y := by ring

theorem div (h : Within r x y) (h' : Within r' x' y') : Within (r * r') (x / x') (y / y') := by
  rw [div_eq_mul_inv, div_eq_mul_inv]
  exact h.mul h'.inv

/-- A small distance relative to a magnitude is a factor close to one. -/
theorem of_abs_sub_le {u : ℚ} (small : u ≤ 1 / 2) (pos : 0 < y) (near : |x - y| ≤ u * y) :
    Within (1 + 2 * u) x y := by
  have u_nonneg : 0 ≤ u := nonneg_of_mul_nonneg_left ((abs_nonneg _).trans near) pos
  obtain ⟨low, high⟩ := abs_le.mp near
  refine ⟨by linarith, pos, by nlinarith, ?_⟩
  calc y ≤ (1 + 2 * u) * ((1 - u) * y) := by nlinarith [mul_nonneg u_nonneg pos.le]
    _ ≤ (1 + 2 * u) * x := by gcongr; linarith

theorem abs_sub_le (h : Within r x y) : |x - y| ≤ (r - 1) * y := by
  have one_le := h.one_le
  rw [abs_le]
  constructor
  · rcases le_total x y with less | more
    · nlinarith [h.ge]
    · nlinarith [h.pos]
  · linarith [h.le]

end Within

namespace FloatFormat

variable {f : FloatFormat} {word : ℕ}

theorem significand_lt (f : FloatFormat) (word : ℕ) : f.significand word < 2 * f.binadeSize := by
  have split := Nat.div_add_mod' word f.binadeSize
  have rest := Nat.mod_lt word f.binadeSize_pos
  rw [significand, binade, Nat.sub_mul]
  omega

/-- Words of the first so many binades stand for numbers below a power of two. -/
theorem value_lt {k : ℕ} (low : word < (k + 2) * f.binadeSize) :
    f.value word < 2 ^ (f.lowest + f.places + 1 + k) := by
  have binade : f.binade word ≤ k := by
    have := (Nat.div_lt_iff_lt_mul f.binadeSize_pos).mpr low
    rw [FloatFormat.binade]
    omega
  have significand : (f.significand word : ℚ) < 2 ^ (f.places + 1 : ℤ) := by
    rw [zpow_add_one₀ (by norm_num), zpow_natCast]
    have := f.significand_lt word
    rw [binadeSize_eq] at this
    exact_mod_cast this.trans_eq (mul_comm ..)
  calc f.value word < 2 ^ (f.places + 1 : ℤ) * 2 ^ f.exponent word := by
        rw [value]
        gcongr
    _ = 2 ^ (f.places + 1 + f.exponent word) := (zpow_add₀ (by norm_num) ..).symm
    _ ≤ 2 ^ (f.lowest + f.places + 1 + k) := by
        refine zpow_le_zpow_right₀ (by norm_num) ?_
        rw [exponent]
        omega

theorem significand_pos (pos : 0 < word) : 0 < f.significand word := by
  have split := Nat.div_add_mod' word f.binadeSize
  have size := f.binadeSize_pos
  rw [significand, binade, Nat.sub_mul]
  rcases Nat.eq_zero_or_pos (word / f.binadeSize) with none | some
  · rw [none] at split ⊢
    omega
  · have := Nat.le_mul_of_pos_left f.binadeSize some
    omega

/-- Words above zero stand for no less than the smallest number. -/
theorem le_value (pos : 0 < word) : 2 ^ f.lowest ≤ f.value word := by
  have significand : (1 : ℚ) ≤ f.significand word := by exact_mod_cast significand_pos pos
  calc (2 : ℚ) ^ f.lowest ≤ 2 ^ f.exponent word := by
        refine zpow_le_zpow_right₀ (by norm_num) ?_
        rw [exponent]
        omega
    _ ≤ f.value word := by
        rw [value]
        exact le_mul_of_one_le_left (by positivity) significand

/-- A magnitude whose digits fit into a significand is not changed by rounding. -/
theorem value_round_of_fits {r : ℕ} {e : ℤ} (pos : 0 < r) (fits : r < 2 * f.binadeSize)
    (low : f.lowest ≤ e) (finite : f.round (r * 2 ^ e) < f.infinity) :
    f.value (f.round (r * 2 ^ e)) = r * 2 ^ e := by
  have r_rat : (0 : ℚ) < r := by exact_mod_cast pos
  have x_pos : (0 : ℚ) < r * 2 ^ e := by positivity
  have grid : f.grid (r * 2 ^ e) ≤ e := by
    have above : (r : ℚ) * 2 ^ e < 2 ^ (f.places + 1 + e) := by
      rw [zpow_add₀ (by norm_num), zpow_add_one₀ (by norm_num), zpow_natCast]
      gcongr
      rw [binadeSize_eq] at fits
      exact_mod_cast fits.trans_eq (mul_comm ..)
    have := zpow_two_lt_iff.mp ((floorLog2_spec x_pos).1.trans_lt above)
    rw [FloatFormat.grid]
    omega
  obtain ⟨shift, same⟩ := Int.eq_ofNat_of_zero_le (sub_nonneg.mpr grid)
  have whole : (r : ℚ) * 2 ^ e / 2 ^ f.grid (r * 2 ^ e) = (r * 2 ^ shift : ℕ) := by
    rw [mul_div_assoc, ← zpow_sub₀ (by norm_num), same, zpow_natCast]
    push_cast
    rfl
  rw [value_round x_pos finite, whole, roundHalfEven_near (n := r * 2 ^ shift) (by norm_num), ← whole,
    div_mul_cancel₀ _ (by positivity)]

end FloatFormat

namespace Binary64

open FloatFormat

variable {x : ℚ}

theorem magnitude_lt (x : Binary64) : x.magnitude < signBit := Nat.mod_lt _ (by decide)

theorem round_lt_signBit (x : ℚ) : binary64.round x < signBit :=
  (binary64.round_le_infinity x).trans_lt (by decide)

theorem magnitude_nearest (x : ℚ) : (nearest x).magnitude = binary64.round x :=
  magnitude_signed false (round_lt_signBit x)

theorem abs_nearest (x : ℚ) : (nearest x).abs = binary64.value (binary64.round x) := by
  rw [abs, magnitude_nearest]

theorem nearest_zero : nearest 0 = zero := by decide +kernel

/-- Far below the greatest numbers everything is rounded to a finite one. -/
theorem round_lt_infinity (pos : 0 < x) (high : x < 2 ^ (250 : ℤ)) :
    binary64.round x < binary64.infinity := by
  have below : x < 2 ^ (binary64.lowest + binary64.places + (1272 : ℕ)) := by
    rw [show binary64.lowest + binary64.places + (1272 : ℕ) = 250 from rfl]
    exact high
  exact (round_le_of_lt pos below).trans_lt (by decide)

theorem isFinite_nearest (pos : 0 < x) (high : x < 2 ^ (250 : ℤ)) : (nearest x).isFinite = true := by
  rw [isFinite, magnitude_nearest]
  exact decide_eq_true (round_lt_infinity pos high)

/-- Magnitudes that are not very small are rounded to one close by. -/
theorem within_nearest (low : 2 ^ (-250 : ℤ) ≤ x) (high : x < 2 ^ (250 : ℤ)) :
    Within (1 + 1 / 2 ^ 52) (nearest x).abs x := by
  have pos : 0 < x := lt_of_lt_of_le (by positivity) low
  have full : (2 : ℚ) ^ (binary64.lowest + binary64.places) ≤ x :=
    (zpow_le_zpow_right₀ (by norm_num) (by decide)).trans low
  have near := abs_value_round_sub_le full (round_lt_infinity pos high)
  have size : (binary64.binadeSize : ℚ) = 2 ^ 52 := by
    rw [binadeSize_eq]
    norm_num [binary64]
  rw [abs_nearest]
  convert Within.of_abs_sub_le (u := 1 / 2 ^ 53) (by norm_num) pos (near.trans_eq ?_) using 1
  · norm_num
  · rw [size]
    ring

end Binary64

namespace Binary32

open FloatFormat

variable {x : Binary32}

theorem round_lt_signBit (x : ℚ) : binary32.round x < signBit :=
  (binary32.round_le_infinity x).trans_lt (by decide)

/-- Integers of 64 bits are far below the greatest numbers. -/
theorem isFinite_ofInt (i : Int64) : (ofInt i.toInt).isFinite = true := by
  rw [isFinite, ofInt, magnitude_signed _ (round_lt_signBit _), decide_eq_true_eq]
  rcases Nat.eq_zero_or_pos i.toInt.natAbs with none | pos
  · rw [none]
    decide
  · have bound : i.toInt.natAbs < 2 ^ 64 := by
      have := i.toInt_lt
      have := i.le_toInt
      omega
    have below : ((i.toInt.natAbs : ℕ) : ℚ) < 2 ^ (binary32.lowest + binary32.places + (190 : ℕ)) := by
      rw [show binary32.lowest + binary32.places + (190 : ℕ) = ((64 : ℕ) : ℤ) from rfl, zpow_natCast]
      exact_mod_cast bound
    exact (round_le_of_lt (by exact_mod_cast pos) below).trans_lt (by decide)

theorem value_lt_of_isFinite (finite : x.isFinite) : binary32.value x.magnitude < 2 ^ (128 : ℤ) := by
  rw [isFinite, decide_eq_true_eq] at finite
  exact value_lt (k := 253) (finite.trans_eq (by decide))

/-- The number of 64 bits for one of 32 bits has its sign and its value. -/
theorem abs_toBinary64 (finite : x.isFinite) : x.toBinary64.abs = binary32.value x.magnitude := by
  rw [toBinary64, Binary64.abs, Binary64.magnitude_signed _ (Binary64.round_lt_signBit _)]
  rcases Nat.eq_zero_or_pos x.magnitude with none | pos
  · rw [none]
    decide +kernel
  · have below : binary32.value x.magnitude < 2 ^ (250 : ℤ) :=
      (value_lt_of_isFinite finite).trans (zpow_two_lt_iff.mpr (by decide))
    have rounded := Binary64.round_lt_infinity (lt_of_lt_of_le (by positivity) (le_value pos)) below
    exact value_round_of_fits (significand_pos pos)
      ((binary32.significand_lt _).trans (by decide))
      (show binary64.lowest ≤ binary32.exponent _ by
        rw [exponent, show binary64.lowest = -1074 from rfl, show binary32.lowest = -149 from rfl]
        omega) rounded

theorem negative_toBinary64 (x : Binary32) : x.toBinary64.negative = x.negative :=
  Binary64.negative_signed _ (Binary64.round_lt_signBit _)

/-- A number of 64 bits that is close enough to one of 32 bits is narrowed to it. -/
theorem ofBinary64_of_round {y : Binary64} (sign : y.negative = x.negative) (number : y.isNaN = false)
    (rounded : binary32.round y.abs = x.magnitude) : ofBinary64 y = x := by
  rw [ofBinary64, number, sign, if_neg Bool.false_ne_true, rounded, signed_magnitude]

/-- A finite number survives being widened and narrowed. -/
theorem ofBinary64_toBinary64 (finite : x.isFinite) : ofBinary64 x.toBinary64 = x := by
  have word : x.magnitude ≤ binary32.infinity := by
    rw [isFinite, decide_eq_true_eq] at finite
    exact finite.le
  apply ofBinary64_of_round x.negative_toBinary64
  · rw [Binary64.isNaN, decide_eq_false_iff_not, toBinary64,
      Binary64.magnitude_signed _ (Binary64.round_lt_signBit _), not_lt]
    exact binary64.round_le_infinity _
  · rw [abs_toBinary64 finite, round_value word]

end Binary32
end TensorGraph
