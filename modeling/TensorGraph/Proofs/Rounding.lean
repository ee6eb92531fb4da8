import Mathlib.Algebra.Order.Field.Power
import Mathlib.Data.Rat.Floor
import Mathlib.Tactic.Linarith
import Mathlib.Tactic.Positivity
import Mathlib.Tactic.Ring
import TensorGraph.Number.FloatFormat

/-! Rounding into a binary format. What is rounded is measured in units of a last place, which depends on
its magnitude; a number of the format is rounded to itself, and so is all that is near enough to it. -/
namespace TensorGraph

theorem two_zpow_log2_le {n : ℕ} (pos : 0 < n) : (2 : ℚ) ^ (n.log2 : ℤ) ≤ n := by
  rw [zpow_natCast]
  exact_mod_cast Nat.log2_self_le (Nat.pos_iff_ne_zero.mp pos)

theorem lt_two_zpow_log2 (n : ℕ) : (n : ℚ) < 2 ^ ((n.log2 : ℤ) + 1) := by
  have above : n < 2 ^ (n.log2 + 1) := Nat.lt_log2_self
  rw [← Nat.cast_succ, zpow_natCast]
  exact_mod_cast above

/-- The logarithm is the exponent of the greatest power of two that is not greater. -/
theorem floorLog2_spec {x : ℚ} (pos : 0 < x) :
    (2 : ℚ) ^ floorLog2 x ≤ x ∧ x < 2 ^ (floorLog2 x + 1) := by
  obtain ⟨n, d, n_pos, d_pos, num, den, quotient⟩ : ∃ n d : ℕ, 0 < n ∧ 0 < d ∧
      x.num.toNat = n ∧ x.den = d ∧ x * d = n := by
    have num_pos : 0 < x.num := Rat.num_pos.mpr pos
    have cast : ((x.num.toNat : ℕ) : ℚ) = x.num := by
      exact_mod_cast Int.toNat_of_nonneg num_pos.le
    exact ⟨_, _, by omega, x.den_pos, rfl, rfl, cast ▸ Rat.mul_den_eq_num x⟩
  -- The quotient of the numbers is within a factor of two of that of their powers.
  have below : (2 : ℚ) ^ ((n.log2 : ℤ) - d.log2 - 1) < x := by
    have d_rat : (0 : ℚ) < d := by exact_mod_cast d_pos
    rw [← mul_lt_mul_iff_left₀ d_rat, quotient]
    calc (2 : ℚ) ^ ((n.log2 : ℤ) - d.log2 - 1) * d
        < 2 ^ ((n.log2 : ℤ) - d.log2 - 1) * 2 ^ ((d.log2 : ℤ) + 1) := by
          gcongr
          exact lt_two_zpow_log2 d
      _ = 2 ^ (n.log2 : ℤ) := by
          rw [← zpow_add₀ (by norm_num)]
          congr 1
          ring
      _ ≤ n := two_zpow_log2_le n_pos
  have above : x < (2 : ℚ) ^ ((n.log2 : ℤ) - d.log2 + 1) := by
    have d_rat : (0 : ℚ) < d := by exact_mod_cast d_pos
    rw [← mul_lt_mul_iff_left₀ d_rat, quotient]
    calc (n : ℚ) < 2 ^ ((n.log2 : ℤ) + 1) := lt_two_zpow_log2 n
      _ = 2 ^ ((n.log2 : ℤ) - d.log2 + 1) * 2 ^ (d.log2 : ℤ) := by
          rw [← zpow_add₀ (by norm_num)]
          congr 1
          ring
      _ ≤ 2 ^ ((n.log2 : ℤ) - d.log2 + 1) * d := by
          gcongr
          exact two_zpow_log2_le d_pos
  have guess : floorLog2 x = if x < 2 ^ ((n.log2 : ℤ) - d.log2) then (n.log2 : ℤ) - d.log2 - 1
      else (n.log2 : ℤ) - d.log2 := by
    rw [floorLog2, num, den]
    rfl
  rw [guess]
  split
  · rename_i less
    rw [sub_add_cancel]
    exact ⟨below.le, less⟩
  · rename_i notLess
    exact ⟨not_lt.mp notLess, above⟩

theorem zpow_two_lt_iff {a b : ℤ} : (2 : ℚ) ^ a < 2 ^ b ↔ a < b :=
  zpow_lt_zpow_iff_right₀ (by norm_num)

theorem floor_toNat_eq {x : ℚ} {n : ℕ} (low : (n : ℚ) ≤ x) (high : x < n + 1) :
    x.floor.toNat = n := by
  have floor : ⌊x⌋ = n := Int.floor_eq_iff.mpr ⟨by exact_mod_cast low, by exact_mod_cast high⟩
  change ⌊x⌋.toNat = n
  rw [floor, Int.toNat_natCast]

/-- What is less than a half away from a natural number is rounded to it. -/
theorem roundHalfEven_near {x : ℚ} {n : ℕ} (near : |x - n| < 1 / 2) : roundHalfEven x = n := by
  obtain ⟨low, high⟩ := abs_lt.mp near
  by_cases below : x < n
  · cases n with
    | zero =>
      have floor : x.floor.toNat = 0 := by
        have negative : ⌊x⌋ < 0 := Int.floor_lt.mpr (by simpa using below)
        exact Int.toNat_of_nonpos negative.le
      rw [roundHalfEven, floor, if_pos]
      left
      push_cast at *
      linarith
    | succ n =>
      push_cast at *
      have floor : x.floor.toNat = n := floor_toNat_eq (by linarith) (by linarith)
      rw [roundHalfEven, floor, if_neg]
      rintro (less | ⟨half, -⟩)
      · linarith
      · linarith
  · have floor : x.floor.toNat = n := floor_toNat_eq (not_lt.mp below) (by linarith)
    rw [roundHalfEven, floor, if_pos (.inl (by linarith))]

theorem abs_roundHalfEven_sub_le {x : ℚ} (nonneg : 0 ≤ x) :
    |(roundHalfEven x : ℚ) - x| ≤ 1 / 2 := by
  obtain ⟨n, floor⟩ : ∃ n : ℕ, ⌊x⌋ = n := Int.eq_ofNat_of_zero_le (Int.floor_nonneg.mpr nonneg)
  obtain ⟨low, high⟩ := Int.floor_eq_iff.mp floor
  have floor' : x.floor.toNat = n := floor_toNat_eq (by exact_mod_cast low) (by exact_mod_cast high)
  push_cast at low high
  rw [roundHalfEven, floor', abs_le]
  split
  · rename_i half
    have less : x - n ≤ 1 / 2 := half.elim le_of_lt fun even => even.1.le
    exact ⟨by linarith, by linarith⟩
  · rename_i more
    rw [not_or, not_lt] at more
    push_cast
    exact ⟨by linarith, by linarith [more.1]⟩

namespace FloatFormat

variable {f : FloatFormat} {word : ℕ} {x y : ℚ}

theorem binadeSize_eq (f : FloatFormat) : f.binadeSize = 2 ^ f.places := Nat.one_shiftLeft _

theorem binadeSize_pos (f : FloatFormat) : 0 < f.binadeSize := by
  rw [binadeSize_eq]
  positivity

/-- The number of a binade and a significand, which may reach to the next binade. Below the first full
binade significands are small. -/
theorem value_word {k r : ℕ} (full : k = 0 ∨ f.binadeSize ≤ r) (fits : r ≤ 2 * f.binadeSize) :
    f.value (k * f.binadeSize + r) = r * 2 ^ (f.lowest + k) := by
  have size := f.binadeSize_pos
  have split : (k * f.binadeSize + r) / f.binadeSize = k + r / f.binadeSize := by
    rw [Nat.mul_comm, Nat.mul_add_div size]
  rcases lt_or_ge r f.binadeSize with small | large
  · obtain rfl : k = 0 := by omega
    have binade : f.binade (0 * f.binadeSize + r) = 0 := by
      rw [binade, split, Nat.div_eq_of_lt small]
    rw [value, exponent, significand, binade]
    simp
  · rcases eq_or_lt_of_le fits with rfl | inside
    · have binade : f.binade (k * f.binadeSize + 2 * f.binadeSize) = k + 1 := by
        rw [binade, split, Nat.mul_div_cancel _ size]
        rfl
      have rest : k * f.binadeSize + 2 * f.binadeSize - (k + 1) * f.binadeSize = f.binadeSize := by
        rw [Nat.add_mul]
        omega
      rw [value, exponent, significand, binade, rest]
      push_cast
      rw [← add_assoc, zpow_add_one₀ (by norm_num)]
      ring
    · have one : r / f.binadeSize = 1 := Nat.div_eq_of_lt_le (by omega) (by omega)
      have binade : f.binade (k * f.binadeSize + r) = k := by
        rw [binade, split, one]
        rfl
      rw [value, exponent, significand, binade, Nat.add_sub_cancel_left]

/-- Every word is that of its binade and its significand. -/
theorem exists_word (f : FloatFormat) (word : ℕ) : ∃ k r : ℕ, word = k * f.binadeSize + r ∧
    (k = 0 ∨ f.binadeSize ≤ r) ∧ r < 2 * f.binadeSize := by
  have size := f.binadeSize_pos
  have split := Nat.div_add_mod' word f.binadeSize
  have rest := Nat.mod_lt word size
  rcases Nat.eq_zero_or_pos (word / f.binadeSize) with none | some
  · exact ⟨0, word % f.binadeSize, by rw [none] at split; omega, .inl rfl, by omega⟩
  · obtain ⟨k, same⟩ := Nat.exists_eq_succ_of_ne_zero (Nat.pos_iff_ne_zero.mp some)
    rw [same, Nat.succ_mul] at split
    exact ⟨k, f.binadeSize + word % f.binadeSize, by omega, .inr (by omega), by omega⟩

/-- Exponent of the last place of numbers of a magnitude. -/
def grid (f : FloatFormat) (x : ℚ) : ℤ := max f.lowest (floorLog2 x - f.places)

theorem lowest_le_grid (f : FloatFormat) (x : ℚ) : f.lowest ≤ f.grid x := le_max_left _ _

theorem log_le_grid (f : FloatFormat) (x : ℚ) : floorLog2 x - f.places ≤ f.grid x := le_max_right _ _

theorem grid_of_ne_lowest (full : f.grid x ≠ f.lowest) : f.grid x = floorLog2 x - f.places := by
  rw [grid] at full ⊢
  omega

theorem round_of_pos (pos : 0 < x) : f.round x = min
    ((f.grid x - f.lowest).toNat * f.binadeSize + roundHalfEven (x / 2 ^ f.grid x)) f.infinity := by
  rw [round, if_neg (not_le.mpr pos)]
  rfl

/-- In units of its last place a number has no more than the digits of a significand, and as many in all
full binades. -/
theorem scaled_lt (pos : 0 < x) : x / 2 ^ f.grid x < 2 * f.binadeSize := by
  rw [div_lt_iff₀ (by positivity), binadeSize_eq]
  calc x < 2 ^ (floorLog2 x + 1) := (floorLog2_spec pos).2
    _ ≤ 2 ^ (f.places + 1 + f.grid x) := by
        refine zpow_le_zpow_right₀ (by norm_num) ?_
        have := f.log_le_grid x
        omega
    _ = 2 * ((2 ^ f.places : ℕ) : ℚ) * 2 ^ f.grid x := by
        rw [zpow_add₀ (by norm_num), zpow_add_one₀ (by norm_num)]
        push_cast
        rw [zpow_natCast]
        ring

theorem le_scaled (pos : 0 < x) (full : f.grid x = floorLog2 x - f.places) :
    f.binadeSize ≤ x / 2 ^ f.grid x := by
  rw [le_div_iff₀ (by positivity), binadeSize_eq]
  calc ((2 ^ f.places : ℕ) : ℚ) * 2 ^ f.grid x = 2 ^ (f.places + f.grid x) := by
        rw [zpow_add₀ (by norm_num)]
        push_cast
        rw [zpow_natCast]
    _ = 2 ^ floorLog2 x := by
        rw [full]
        congr 1
        ring
    _ ≤ x := (floorLog2_spec pos).1

theorem div_zpow_two {x : ℚ} (e g : ℤ) : x / 2 ^ e = x / 2 ^ g * 2 ^ (g - e) := by
  rw [zpow_sub₀ (by norm_num)]
  field_simp

/-- The distance from a number in units of a last place. -/
theorem abs_div_zpow_sub_le {r b : ℚ} {g : ℤ} (near : |y - r * 2 ^ g| ≤ r * 2 ^ g / b) :
    |y / 2 ^ g - r| ≤ r / b := by
  have unit : (0 : ℚ) < 2 ^ g := by positivity
  have same : y - r * 2 ^ g = (y / 2 ^ g - r) * 2 ^ g := by field_simp
  rw [same, abs_mul, abs_of_pos unit, mul_div_right_comm] at near
  exact le_of_mul_le_mul_right near unit

/-- The last place is not above one in which the digits of a significand suffice. -/
theorem grid_le {g : ℤ} (pos : 0 < y) (lowest_le : f.lowest ≤ g) (below : y / 2 ^ g < 2 * f.binadeSize) :
    f.grid y ≤ g := by
  by_contra higher
  have full := le_scaled pos (f.grid_of_ne_lowest (by omega))
  rw [div_zpow_two (f.grid y) g] at full
  have half : (2 : ℚ) ^ (g - f.grid y) ≤ 2 ^ (-1 : ℤ) := zpow_le_zpow_right₀ (by norm_num) (by omega)
  have : y / 2 ^ g * 2 ^ (g - f.grid y) ≤ y / 2 ^ g * 2 ^ (-1 : ℤ) := by gcongr
  norm_num at this
  linarith

/-- Nor is it below one in which they are all needed. -/
theorem le_grid {g : ℤ} (pos : 0 < y) (above : f.binadeSize ≤ y / 2 ^ g) : g ≤ f.grid y := by
  by_contra lower
  have fits := scaled_lt (f := f) pos
  rw [div_zpow_two (f.grid y) g] at fits
  have twice : y / 2 ^ g * 2 ^ (1 : ℤ) ≤ y / 2 ^ g * 2 ^ (g - f.grid y) := by
    gcongr
    · norm_num
    · omega
  rw [zpow_one] at twice
  linarith

/-- Where the last place is known, what is less than a half of it away from a significand is rounded to
the significand. -/
theorem round_of_grid_eq {k n : ℕ} (pos : 0 < y) (place : f.grid y = f.lowest + k)
    (near : |y / 2 ^ (f.lowest + k) - n| < 1 / 2) (finite : k * f.binadeSize + n ≤ f.infinity) :
    f.round y = k * f.binadeSize + n := by
  rw [round_of_pos pos, place, add_sub_cancel_left, Int.toNat_natCast, roundHalfEven_near near,
    Nat.min_eq_left finite]

/-- What is less than an eighth of a last place away from a number of the format is rounded to it. -/
theorem round_near (pos : 0 < word) (finite : word ≤ f.infinity)
    (near : |y - f.value word| ≤ f.value word / (8 * f.binadeSize)) : f.round y = word := by
  have size : (1 : ℚ) ≤ f.binadeSize := by exact_mod_cast f.binadeSize_pos
  obtain ⟨k, r, rfl, full, fits⟩ := f.exists_word word
  rw [value_word full fits.le] at near
  have distance := abs_div_zpow_sub_le near
  have r_rat : (1 : ℚ) ≤ r := by
    have : 0 < r := by
      rcases full with rfl | large
      · omega
      · exact f.binadeSize_pos.trans_le large
    exact_mod_cast this
  have fits_rat : (r : ℚ) + 1 ≤ 2 * f.binadeSize := by exact_mod_cast fits
  have quarter : (r : ℚ) / (8 * f.binadeSize) < 1 / 4 := by
    rw [div_lt_iff₀ (by linarith)]
    linarith
  obtain ⟨low, high⟩ := abs_lt.mp (distance.trans_lt quarter)
  have y_pos : 0 < y := by
    have scaled_pos : 0 < y / 2 ^ (f.lowest + k : ℤ) := by linarith
    exact (div_pos_iff_of_pos_right (by positivity)).mp scaled_pos
  have place : f.grid y ≤ f.lowest + k := grid_le y_pos (by omega) (by linarith)
  rcases place.lt_or_eq with lower | same
  -- Only from the first number of a binade does the distance reach into the one below.
  · have lowest_le := f.lowest_le_grid y
    obtain ⟨j, rfl⟩ := Nat.exists_eq_add_one.mpr (show 0 < k by omega)
    have large : f.binadeSize ≤ r := full.resolve_left (Nat.succ_ne_zero j)
    have large_rat : (f.binadeSize : ℚ) ≤ r := by exact_mod_cast large
    obtain rfl : r = f.binadeSize := by
      by_contra other
      have next : (f.binadeSize : ℚ) + 1 ≤ r := by exact_mod_cast lt_of_le_of_ne large (Ne.symm other)
      exact absurd (le_grid (f := f) y_pos (by linarith)) (not_le.mpr lower)
    have double : y / 2 ^ (f.lowest + j : ℤ) = y / 2 ^ (f.lowest + (j + 1 : ℕ) : ℤ) * 2 := by
      rw [div_zpow_two (f.lowest + j : ℤ) (f.lowest + (j + 1 : ℕ))]
      push_cast
      rw [add_sub_add_left_eq_sub, add_sub_cancel_left, zpow_one]
    have next : f.grid y = f.lowest + j :=
      le_antisymm (by omega) (le_grid y_pos (by rw [double]; linarith))
    have near' : |y / 2 ^ (f.lowest + j : ℤ) - ((2 * f.binadeSize : ℕ) : ℚ)| < 1 / 2 := by
      rw [double, Nat.cast_mul]
      exact abs_lt.mpr ⟨by push_cast at low ⊢; linarith, by push_cast at high ⊢; linarith⟩
    have binade : j * f.binadeSize + 2 * f.binadeSize = (j + 1) * f.binadeSize + f.binadeSize := by
      ring
    rw [round_of_grid_eq y_pos next near' (binade ▸ finite), binade]
  · exact round_of_grid_eq y_pos same (distance.trans_lt (by linarith)) finite

/-- Numbers of the format are rounded to themselves. -/
theorem round_value (finite : word ≤ f.infinity) : f.round (f.value word) = word := by
  rcases Nat.eq_zero_or_pos word with rfl | pos
  · have zero : f.value 0 = 0 := by
      have same := value_word (f := f) (k := 0) (r := 0) (.inl rfl) (Nat.zero_le _)
      simpa using same
    rw [zero, round_zero]
  · apply round_near pos finite
    rw [sub_self, abs_zero]
    have : 0 ≤ f.value word := by
      rw [value]
      positivity
    positivity

theorem roundHalfEven_scaled_le (pos : 0 < x) :
    roundHalfEven (x / 2 ^ f.grid x) ≤ 2 * f.binadeSize := by
  have scaled_pos : 0 < x / 2 ^ f.grid x := by positivity
  have near := (abs_le.mp (abs_roundHalfEven_sub_le scaled_pos.le)).2
  have below := scaled_lt (f := f) pos
  have : (roundHalfEven (x / 2 ^ f.grid x) : ℚ) < 2 * f.binadeSize + 1 := by linarith
  exact Nat.lt_add_one_iff.mp (by exact_mod_cast this)

/-- A magnitude and what it is rounded to, when that is finite. -/
theorem value_round (pos : 0 < x) (finite : f.round x < f.infinity) :
    f.value (f.round x) = roundHalfEven (x / 2 ^ f.grid x) * 2 ^ f.grid x := by
  have scaled_pos : 0 < x / 2 ^ f.grid x := by positivity
  obtain ⟨low, high⟩ := abs_le.mp (abs_roundHalfEven_sub_le scaled_pos.le)
  have whole : f.round x =
      (f.grid x - f.lowest).toNat * f.binadeSize + roundHalfEven (x / 2 ^ f.grid x) := by
    rw [round_of_pos pos] at finite ⊢
    omega
  have full : (f.grid x - f.lowest).toNat = 0 ∨ f.binadeSize ≤ roundHalfEven (x / 2 ^ f.grid x) := by
    rcases eq_or_ne (f.grid x) f.lowest with bottom | above
    · exact .inl (by omega)
    · have large := le_scaled pos (grid_of_ne_lowest above)
      have : (f.binadeSize : ℚ) < roundHalfEven (x / 2 ^ f.grid x) + 1 := by linarith
      exact .inr (Nat.lt_add_one_iff.mp (by exact_mod_cast this))
  have place : f.lowest + ((f.grid x - f.lowest).toNat : ℤ) = f.grid x := by
    have := f.lowest_le_grid x
    omega
  rw [whole, value_word full (roundHalfEven_scaled_le pos), place]

/-- In full binades rounding moves a magnitude by no more than half a last place of it. -/
theorem abs_value_round_sub_le (full : (2 : ℚ) ^ (f.lowest + f.places) ≤ x)
    (finite : f.round x < f.infinity) :
    |f.value (f.round x) - x| ≤ x / (2 * f.binadeSize) := by
  have pos : 0 < x := lt_of_lt_of_le (by positivity) full
  have unit : (0 : ℚ) < 2 ^ f.grid x := by positivity
  have size : (0 : ℚ) < f.binadeSize := by exact_mod_cast f.binadeSize_pos
  have binade : f.grid x = floorLog2 x - f.places := by
    have := zpow_two_lt_iff.mp (full.trans_lt (floorLog2_spec pos).2)
    rw [grid]
    omega
  have place : f.binadeSize * 2 ^ f.grid x ≤ x := (le_div_iff₀ unit).mp (le_scaled pos binade)
  have half := abs_roundHalfEven_sub_le (div_pos pos unit).le
  calc |f.value (f.round x) - x|
      = |((roundHalfEven (x / 2 ^ f.grid x) : ℚ) - x / 2 ^ f.grid x) * 2 ^ f.grid x| := by
        rw [value_round pos finite, sub_mul, div_mul_cancel₀ x unit.ne']
    _ = |(roundHalfEven (x / 2 ^ f.grid x) : ℚ) - x / 2 ^ f.grid x| * 2 ^ f.grid x := by
        rw [abs_mul, abs_of_pos unit]
    _ ≤ 1 / 2 * 2 ^ f.grid x := by gcongr
    _ ≤ x / (2 * f.binadeSize) := by
        rw [le_div_iff₀ (by positivity)]
        linarith

/-- What is less than a power of two is rounded to a word of the binades below it, or to the first of the
next. -/
theorem round_le_of_lt {k : ℕ} (pos : 0 < x) (below : x < 2 ^ (f.lowest + f.places + k)) :
    f.round x ≤ (k + 2) * f.binadeSize := by
  have binade : (f.grid x - f.lowest).toNat ≤ k := by
    have := zpow_two_lt_iff.mp ((floorLog2_spec pos).1.trans_lt below)
    rw [grid]
    omega
  rw [round_of_pos pos]
  calc min ((f.grid x - f.lowest).toNat * f.binadeSize + roundHalfEven (x / 2 ^ f.grid x))
        f.infinity
      ≤ (f.grid x - f.lowest).toNat * f.binadeSize + roundHalfEven (x / 2 ^ f.grid x) :=
        Nat.min_le_left _ _
    _ ≤ k * f.binadeSize + 2 * f.binadeSize :=
        Nat.add_le_add (Nat.mul_le_mul_right _ binade) (roundHalfEven_scaled_le pos)
    _ = (k + 2) * f.binadeSize := (Nat.add_mul ..).symm

end FloatFormat
end TensorGraph
