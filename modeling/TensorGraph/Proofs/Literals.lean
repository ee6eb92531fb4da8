import Mathlib.Tactic.NormNum
import TensorGraph.Attribute.Format
import TensorGraph.Proofs.Magnitudes

/-! What written numbers are read as. An integer is read exactly as it is written; any other number goes
through cut digits and up to four roundings to 64 bits, which leave it so close to what is written that a
number of 32 bits comes out unchanged. -/
namespace TensorGraph.Json

theorem foldl_digits (n : ℕ) (digits : List Digit) :
    digits.foldl (fun n d => 10 * n + d.val) n = n * 10 ^ digits.length + natOf digits := by
  induction digits generalizing n with
  | nil => simp [natOf]
  | cons d rest ih =>
    rw [natOf, List.foldl_cons, List.foldl_cons, ih (10 * n + d.val), ih (10 * 0 + d.val),
      List.length_cons]
    ring

theorem natOf_append (front back : List Digit) :
    natOf (front ++ back) = natOf front * 10 ^ back.length + natOf back := by
  rw [natOf, List.foldl_append, foldl_digits]
  rfl

theorem natOf_cons (d : Digit) (rest : List Digit) :
    natOf (d :: rest) = d.val * 10 ^ rest.length + natOf rest := by
  rw [natOf, List.foldl_cons, foldl_digits]
  simp

theorem natOf_lt (digits : List Digit) : natOf digits < 10 ^ digits.length := by
  induction digits with
  | nil => decide
  | cons d rest ih =>
    rw [natOf_cons, List.length_cons, pow_succ]
    have := Nat.mul_le_mul_right (10 ^ rest.length) (Nat.le_of_lt_succ d.isLt)
    omega

/-- Every natural number is written by digits. -/
theorem exists_natOf (n : ℕ) : ∃ digits, natOf digits = n := by
  induction n using Nat.strong_induction_on with
  | _ n ih =>
    rcases lt_or_ge n 10 with one | more
    · exact ⟨[⟨n, one⟩], by simp [natOf]⟩
    · obtain ⟨front, same⟩ := ih (n / 10) (by omega)
      refine ⟨front ++ [Fin.ofNat 10 n], ?_⟩
      rw [natOf_append, same]
      simp only [natOf, List.length_singleton, pow_one, List.foldl_cons, List.foldl_nil, Fin.val_ofNat]
      omega

/-- The number that digits write behind a point. -/
def behindPoint (digits : List Digit) : ℚ := natOf digits / 10 ^ digits.length

theorem behindPoint_nonneg (digits : List Digit) : 0 ≤ behindPoint digits := by
  rw [behindPoint]
  positivity

theorem behindPoint_lt_one (digits : List Digit) : behindPoint digits < 1 := by
  rw [behindPoint, div_lt_one (by positivity)]
  exact_mod_cast natOf_lt digits

@[simp] theorem behindPoint_nil : behindPoint [] = 0 := by simp [behindPoint, natOf]

/-- A point may be put in front of the last digits. -/
theorem natOf_append_mul (front back : List Digit) (place : ℤ) :
    (natOf (front ++ back) : ℚ) * 10 ^ (place - back.length) =
      (natOf front + behindPoint back) * 10 ^ place := by
  rw [natOf_append, behindPoint, zpow_sub₀ (by norm_num), zpow_natCast]
  push_cast
  field_simp

namespace Literal

/-- Digits are used as long as they fit, and those that are left over begin with one that does not. -/
theorem extend_spec (n : ℕ) (digits : List Digit) : ∃ used,
    digits = used ++ (extend n digits).2 ∧
      (extend n digits).1 = n * 10 ^ used.length + natOf used ∧
        ∀ d ∈ (extend n digits).2.head?, significandLimit ≤ 10 * (extend n digits).1 + d.val := by
  induction digits generalizing n with
  | nil => exact ⟨[], rfl, by simp [extend, natOf], by simp [extend]⟩
  | cons d rest ih =>
    rw [extend]
    split
    · obtain ⟨used, split, value, next⟩ := ih (10 * n + d.val)
      refine ⟨d :: used, by rw [List.cons_append, ← split], ?_, next⟩
      rw [value, natOf_cons, List.length_cons]
      ring
    · rename_i more
      exact ⟨[], rfl, by simp [natOf], by simpa using more⟩

theorem extend_lt {n : ℕ} (fits : n < significandLimit) (digits : List Digit) :
    (extend n digits).1 < significandLimit := by
  induction digits generalizing n with
  | nil => exact fits
  | cons d rest ih =>
    rw [extend]
    split
    · rename_i next
      exact ih next
    · exact fits

/-- Digits of a number that fits are all used. -/
theorem extend_zero_of_lt {digits : List Digit} (fits : natOf digits < significandLimit) :
    extend 0 digits = (natOf digits, []) := by
  obtain ⟨used, split, value, next⟩ := extend_spec 0 digits
  rw [Nat.zero_mul, Nat.zero_add] at value
  generalize extend 0 digits = found at split value next ⊢
  obtain ⟨m, left⟩ := found
  dsimp only at split value next
  subst value
  cases left with
  | nil => rw [split, List.append_nil]
  | cons d rest =>
    have := next d rfl
    rw [split, natOf_append, natOf_cons, List.length_cons, pow_succ] at fits
    have := Nat.le_mul_of_pos_right (10 * natOf used + d.val) (Nat.pow_pos (n := rest.length)
      (show 0 < 10 by decide))
    rw [Nat.add_mul] at this
    have : natOf used * (10 ^ rest.length * 10) = 10 * natOf used * 10 ^ rest.length := by ring
    omega

/-! Integers. -/

/-- The digits and the sign of an integer, with neither point nor exponent. Zero has no sign. -/
structure WritesInteger (literal : Literal) (i : ℤ) : Prop where
  fraction : literal.fraction = []
  exponent : literal.exponent = none
  value : i = if literal.negative then -(natOf literal.whole : ℤ) else natOf literal.whole
  signed : literal.negative = true → natOf literal.whole ≠ 0

theorem int64?_eq_some {number : Number} {i : Int64} :
    Attribute.int64? number = some i ↔ number = .integer i.toInt := by
  have := i.toInt_lt
  have := i.le_toInt
  cases number with
  | float => simp [Attribute.int64?]
  | integer value =>
    rw [Attribute.int64?, Number.integer.injEq]
    split
    · rename_i range
      rw [Option.some.injEq]
      constructor
      · rintro rfl
        rw [Int64.toInt_ofInt_of_le (by omega) (by omega)]
      · rintro rfl
        exact Int64.ofInt_toInt i
    · simp only [reduceCtorEq, false_iff]
      omega

/-- Digits alone are read as an integer, where all of them fit. -/
theorem number?_eq_integer {literal : Literal} {value : ℤ} :
    literal.number? = some (.integer value) ↔ literal.fraction = [] ∧ literal.exponent = none ∧
      natOf literal.whole < significandLimit ∧
        ofSignificand literal.negative (natOf literal.whole) = .integer value := by
  constructor
  · intro read
    obtain ⟨used, split, sum, -⟩ := extend_spec 0 literal.whole
    have fits := extend_lt (show 0 < significandLimit by decide) literal.whole
    rw [number?] at read
    generalize extend 0 literal.whole = found at split sum fits read
    obtain ⟨m, left⟩ := found
    dsimp only at split sum fits read
    split at read
    · rename_i plain
      obtain ⟨all, fraction, exponent⟩ := plain
      rw [List.isEmpty_iff] at all fraction
      rw [all, List.append_nil] at split
      rw [Nat.zero_mul, Nat.zero_add, ← split] at sum
      subst sum
      exact ⟨fraction, exponent, fits, Option.some.inj read⟩
    · obtain ⟨y, -, float⟩ := Option.map_eq_some_iff.mp read
      cases float
  · rintro ⟨fraction, exponent, fits, integer⟩
    rw [number?, extend_zero_of_lt fits]
    simp [fraction, exponent, integer]

theorem ofSignificand_eq_integer {negative : Bool} {n : ℕ} {i : Int64} :
    ofSignificand negative n = .integer i.toInt ↔
      i.toInt = (if negative then -(n : ℤ) else n) ∧ (negative = true → n ≠ 0) := by
  have low := i.le_toInt
  rw [ofSignificand]
  cases negative with
  | false => simp [eq_comm]
  | true =>
    rw [if_neg Bool.noConfusion, if_pos rfl]
    split
    · rw [Number.integer.injEq]
      constructor
      · exact fun same => ⟨same.symm, fun _ => by omega⟩
      · exact fun h => h.1.symm
    · refine iff_of_false Number.noConfusion ?_
      rintro ⟨same, signed⟩
      have := signed rfl
      omega

/-- A number is read as an integer exactly when it is written as one. -/
theorem int64?_number?_eq_some {literal : Literal} {i : Int64} :
    literal.number?.bind Attribute.int64? = some i ↔ literal.WritesInteger i.toInt := by
  have low := i.le_toInt
  have high := i.toInt_lt
  simp only [Option.bind_eq_some_iff, int64?_eq_some, exists_eq_right, number?_eq_integer,
    ofSignificand_eq_integer]
  constructor
  · rintro ⟨fraction, exponent, -, value, signed⟩
    exact ⟨fraction, exponent, value, signed⟩
  · rintro ⟨fraction, exponent, value, signed⟩
    refine ⟨fraction, exponent, ?_, value, signed⟩
    rw [significandLimit]
    split at value <;> omega

/-- Every integer can be written. -/
theorem exists_writesInteger (i : ℤ) : ∃ literal : Literal, literal.WritesInteger i := by
  obtain ⟨whole, same⟩ := exists_natOf i.natAbs
  refine ⟨⟨decide (i < 0), whole, [], none⟩, rfl, rfl, ?_, ?_⟩
  · simp only [same, decide_eq_true_eq]
    split <;> omega
  · simp only [same, decide_eq_true_eq]
    omega

/-! Floats. -/

/-- The magnitude that is written. -/
def magnitude (literal : Literal) : ℚ :=
  natOf (literal.whole ++ literal.fraction) *
    10 ^ (literal.exponent.getD 0 - literal.fraction.length)

/-- A number with a point or an exponent, which is exactly a float. -/
structure WritesFloat (literal : Literal) (y : Binary64) : Prop where
  form : literal.fraction ≠ [] ∨ literal.exponent ≠ none
  negative : literal.negative = y.negative
  magnitude : literal.magnitude = y.abs

/-- Digits behind so many do not count for much. -/
theorem within_of_many_digits {m : ℕ} {s t : ℚ} (many : significandLimit ≤ 10 * m + 9)
    (s_nonneg : 0 ≤ s) (s_lt : s < 1) (t_nonneg : 0 ≤ t) (t_lt : t < 1) (place : ℤ) :
    Within (1 + 1 / 2 ^ 59) ((m + s) * 10 ^ place) ((m + t) * 10 ^ place) := by
  have great : (2 : ℚ) ^ 60 ≤ m := by
    rw [significandLimit] at many
    exact_mod_cast show 2 ^ 60 ≤ m by omega
  have unit : (0 : ℚ) < 10 ^ place := by positivity
  have pos : 0 < m + t := by linarith
  have near : |(m + s) * 10 ^ place - (m + t) * 10 ^ place| ≤
      1 / 2 ^ 60 * ((m + t) * 10 ^ place) := by
    rw [← sub_mul, abs_mul, abs_of_pos unit, ← mul_assoc]
    gcongr
    calc |m + s - (m + t)| ≤ 1 := abs_le.mpr ⟨by linarith, by linarith⟩
      _ ≤ 1 / 2 ^ 60 * (m + t) := by linarith
  convert Within.of_abs_sub_le (by norm_num) (by positivity) near using 1
  norm_num

/-- Which digits are used of a number that is not written as an integer: from the front as many as fit, and
behind the point as many as still fit. -/
theorem exists_used_digits {literal : Literal} (form : literal.fraction ≠ [] ∨ literal.exponent ≠ none) :
    ∃ used left used' cut, literal.whole = used ++ left ∧ literal.fraction = used' ++ cut ∧
      natOf (used ++ used') < significandLimit ∧
      literal.number? = (float? literal.negative (natOf (used ++ used'))
        (left.length - used'.length + literal.exponent.getD 0)).map .float ∧
      (∀ d ∈ left.head?, significandLimit ≤ 10 * natOf used + d.val) ∧
      ∀ d ∈ cut.head?, significandLimit ≤ 10 * natOf (used ++ used') + d.val := by
  obtain ⟨used, whole, value, next⟩ := extend_spec 0 literal.whole
  have fits := extend_lt (show 0 < significandLimit by decide) literal.whole
  rw [Nat.zero_mul, Nat.zero_add] at value
  rw [number?]
  generalize extend 0 literal.whole = found at whole value next fits ⊢
  obtain ⟨m, left⟩ := found
  dsimp only at whole value next fits ⊢
  subst value
  obtain ⟨used', fraction, value', next'⟩ := extend_spec (natOf used) literal.fraction
  have fits' := extend_lt fits literal.fraction
  rw [if_neg (by simpa [imp_iff_not_or] using Or.inr form)]
  generalize extend (natOf used) literal.fraction = found at fraction value' next' fits' ⊢
  obtain ⟨n, cut⟩ := found
  dsimp only at fraction value' next' fits' ⊢
  rw [← natOf_append] at value'
  subst value'
  have places : literal.fraction.length - cut.length = used'.length := by
    rw [fraction, List.length_append, Nat.add_sub_cancel]
  rw [places]
  exact ⟨used, left, used', cut, whole, fraction, fits', rfl, next, next'⟩

/-- What is read of a number that is not written as an integer: the digits that are used write it, or
something that is close to it. -/
theorem number?_of_form {literal : Literal} (form : literal.fraction ≠ [] ∨ literal.exponent ≠ none) :
    ∃ (n : ℕ) (exponent : ℤ),
      literal.number? = (float? literal.negative n exponent).map .float ∧ n < significandLimit ∧
        (n * 10 ^ exponent = literal.magnitude ∨
          Within (1 + 1 / 2 ^ 59) (n * 10 ^ exponent) literal.magnitude) := by
  obtain ⟨used, left, used', cut, whole, fraction, fits, read, next, next'⟩ := exists_used_digits form
  refine ⟨_, _, read, fits, ?_⟩
  rw [magnitude]
  cases left with
  | nil =>
    -- All digits before the point are used, and what is cut stands behind the others.
    have written : (natOf (literal.whole ++ literal.fraction) : ℚ) *
        10 ^ (literal.exponent.getD 0 - literal.fraction.length) =
          (natOf (used ++ used') + behindPoint cut) * 10 ^ (literal.exponent.getD 0 - used'.length) := by
      rw [← natOf_append_mul, whole, fraction]
      simp only [List.append_nil, List.append_assoc, List.length_append]
      push_cast
      rw [sub_sub]
    have kept : (List.length ([] : List Digit) : ℤ) - used'.length + literal.exponent.getD 0 =
        literal.exponent.getD 0 - used'.length := by
      simp only [List.length_nil]
      ring
    rw [written, kept]
    cases cut with
    | nil => exact .inl (by rw [behindPoint_nil, add_zero])
    | cons d rest =>
      have many := next' d rfl
      have := d.isLt
      have close := within_of_many_digits (show significandLimit ≤ 10 * natOf (used ++ used') + 9 by
        omega) le_rfl one_pos (behindPoint_nonneg (d :: rest)) (behindPoint_lt_one (d :: rest))
        (literal.exponent.getD 0 - used'.length)
      rw [add_zero] at close
      exact .inr close
  | cons d rest =>
    -- Digits before the point are cut; those behind it that still fit take their place.
    have many := next d rfl
    have := d.isLt
    have written : (natOf (literal.whole ++ literal.fraction) : ℚ) *
        10 ^ (literal.exponent.getD 0 - literal.fraction.length) =
          (natOf used + behindPoint (d :: rest ++ literal.fraction)) *
            10 ^ (literal.exponent.getD 0 + (d :: rest).length) := by
      rw [← natOf_append_mul, whole]
      simp only [List.append_assoc, List.length_append, List.length_cons]
      push_cast
      congr 2
      ring
    have kept : (natOf (used ++ used') : ℚ) *
        10 ^ (((d :: rest).length : ℤ) - used'.length + literal.exponent.getD 0) =
          (natOf used + behindPoint used') * 10 ^ (literal.exponent.getD 0 + (d :: rest).length) := by
      rw [← natOf_append_mul]
      congr 2
      ring
    rw [written, kept]
    exact .inr (within_of_many_digits (by omega) (behindPoint_nonneg _) (behindPoint_lt_one _)
      (behindPoint_nonneg _) (behindPoint_lt_one _) _)

/-- Rounding to 64 bits adds a factor to those that a magnitude has. -/
theorem within_nearest_of_within {r s t : ℚ} (close : Within r s t) (bound : r ≤ 2)
    (low : 2 ^ (-240 : ℤ) ≤ t) (high : t < 2 ^ (240 : ℤ)) :
    (Binary64.nearest s).isFinite = true ∧
      Within ((1 + 1 / 2 ^ 52) * r) (Binary64.nearest s).abs t := by
  have s_pos := close.pos_left
  have s_low : (2 : ℚ) ^ (-250 : ℤ) ≤ s := by
    have half : t ≤ 2 * s := close.ge.trans (by gcongr)
    have : (2 : ℚ) * 2 ^ (-250 : ℤ) ≤ 2 ^ (-240 : ℤ) := by norm_num
    linarith
  have s_high : s < 2 ^ (250 : ℤ) := by
    have t_pos := close.pos
    have twice : s ≤ 2 * t := close.le.trans (by gcongr)
    have : (2 : ℚ) * 2 ^ (240 : ℤ) ≤ 2 ^ (250 : ℤ) := by norm_num
    linarith
  exact ⟨Binary64.isFinite_nearest s_pos s_high, (Binary64.within_nearest s_low s_high).trans close⟩

/-- Powers of ten that are not very great are floats, and the exact power is close to the float. -/
theorem within_power {places : ℕ} (small : (10 : ℚ) ^ places < 2 ^ (240 : ℤ)) :
    places ≤ greatestPower ∧ Within (1 + 1 / 2 ^ 52) (power places) (10 ^ places) := by
  have one_le : (1 : ℚ) ≤ 10 ^ places := one_le_pow₀ (by norm_num)
  constructor
  · by_contra more
    have : (10 : ℚ) ^ 100 ≤ 10 ^ places :=
      pow_le_pow_right₀ (by norm_num) (by rw [greatestPower] at more; omega)
    have : (2 : ℚ) ^ (240 : ℤ) ≤ 10 ^ 100 := by norm_num
    linarith
  · have low : (2 : ℚ) ^ (-250 : ℤ) ≤ 10 ^ places := le_trans (by norm_num) one_le
    exact Binary64.within_nearest low (small.trans (zpow_two_lt_iff.mpr (by decide)))

/-- A float is made of a significand and a power of ten with three roundings. -/
theorem float?_within (negative : Bool) {n : ℕ} {exponent : ℤ} (fits : n < significandLimit)
    (low : 2 ^ (-160 : ℤ) ≤ (n : ℚ) * 10 ^ exponent) (high : (n : ℚ) * 10 ^ exponent < 2 ^ (160 : ℤ)) :
    ∃ y, float? negative n exponent = some (.withSign negative y) ∧ y.isFinite = true ∧
      Within ((1 + 1 / 2 ^ 52) ^ 3) y.abs (n * 10 ^ exponent) := by
  have whole_pos : (0 : ℚ) < n * 10 ^ exponent := lt_of_lt_of_le (by positivity) low
  have n_low : (1 : ℚ) ≤ n := by
    have : (0 : ℚ) < n := (mul_pos_iff_of_pos_right (by positivity)).mp whole_pos
    exact_mod_cast this
  have n_high : (n : ℚ) < 2 ^ (64 : ℤ) := by
    rw [significandLimit] at fits
    exact_mod_cast fits
  have close : Within (1 + 1 / 2 ^ 52) (Binary64.nearest n).abs n := Binary64.within_nearest
    (le_trans (by norm_num) n_low) (n_high.trans (zpow_two_lt_iff.mpr (by decide)))
  have low' : (2 : ℚ) ^ (-240 : ℤ) ≤ n * 10 ^ exponent :=
    (zpow_le_zpow_right₀ (by norm_num) (by decide)).trans low
  have high' : (n : ℚ) * 10 ^ exponent < 2 ^ (240 : ℤ) := high.trans (zpow_two_lt_iff.mpr (by decide))
  have factor : (1 + 1 / 2 ^ 52) * (1 + 1 / 2 ^ 52) ≤ (2 : ℚ) := by norm_num
  have cube : (1 + 1 / 2 ^ 52) * ((1 + 1 / 2 ^ 52) * (1 + 1 / 2 ^ 52)) = (1 + 1 / 2 ^ 52 : ℚ) ^ 3 := by
    ring
  rw [float?]
  rcases le_or_gt 0 exponent with up | down
  · obtain ⟨places, rfl⟩ := Int.eq_ofNat_of_zero_le up
    rw [zpow_natCast] at low' high' high ⊢
    have small : (10 : ℚ) ^ places < 2 ^ (240 : ℤ) := by
      have : (10 : ℚ) ^ places ≤ n * 10 ^ places := le_mul_of_one_le_left (by positivity) n_low
      exact (this.trans_lt high).trans (zpow_two_lt_iff.mpr (by decide))
    obtain ⟨few, ten⟩ := within_power small
    obtain ⟨finite, product⟩ := within_nearest_of_within (close.mul ten) factor low' high'
    refine ⟨_, ?_, finite, cube ▸ product⟩
    rw [if_pos up, Int.toNat_natCast, scaleUp?, if_pos few, if_pos finite]
    rfl
  · obtain ⟨places, rfl⟩ : ∃ places : ℕ, exponent = -places := ⟨(-exponent).toNat, by omega⟩
    have quotient : (n : ℚ) * 10 ^ (-places : ℤ) = n / 10 ^ places := by
      rw [zpow_neg, zpow_natCast, div_eq_mul_inv]
    rw [quotient] at low low' high' ⊢
    have small : (10 : ℚ) ^ places < 2 ^ (240 : ℤ) := by
      rw [le_div_iff₀ (by positivity)] at low
      have : (2 : ℚ) ^ (64 : ℤ) ≤ 2 ^ (240 : ℤ) * 2 ^ (-160 : ℤ) := by norm_num
      nlinarith
    obtain ⟨few, ten⟩ := within_power small
    obtain ⟨finite, product⟩ := within_nearest_of_within (close.div ten) factor low' high'
    refine ⟨_, ?_, finite, cube ▸ product⟩
    rw [if_neg (not_le.mpr down), neg_neg, Int.toNat_natCast, scaleDown, if_pos few]
    rfl

/-- Zero stays zero whatever the exponent, and has a sign. -/
theorem float?_zero (negative : Bool) (exponent : ℤ) :
    float? negative 0 exponent = some (.withSign negative .zero) := by
  have zero : Binary64.nearest ((0 : ℕ) : ℚ) = .zero := Binary64.nearest_zero
  have abs : Binary64.zero.abs = 0 := by decide +kernel
  have finite : Binary64.zero.isFinite = true := by decide
  rw [float?, zero]
  split
  · rw [scaleUp?, abs, zero_mul, Binary64.nearest_zero]
    simp only [finite, ↓reduceIte]
    split <;> rfl
  · rw [scaleDown, abs, zero_div, Binary64.nearest_zero]
    simp

/-- A magnitude with a sign is narrowed by itself. -/
theorem ofBinary64_withSign {negative : Bool} {x : Binary32} {y : Binary64} (sign : negative = x.negative)
    (finite : y.isFinite = true) (rounded : FloatFormat.binary32.round y.abs = x.magnitude) :
    Binary32.ofBinary64 (.withSign negative y) = x := by
  have magnitude : (Binary64.withSign negative y).magnitude = y.magnitude :=
    Binary64.magnitude_signed _ y.magnitude_lt
  refine Binary32.ofBinary64_of_round ?_ ?_ ?_
  · rw [Binary64.withSign, Binary64.negative_signed _ y.magnitude_lt, sign]
  · rw [Binary64.isFinite, decide_eq_true_eq] at finite
    rw [Binary64.isNaN, magnitude, decide_eq_false_iff_not]
    exact finite.le.not_gt
  · rwa [Binary64.abs, magnitude]

/-- What is close to a number of 32 bits makes a float that is rounded to the number. -/
theorem float?_of_within (negative : Bool) {n : ℕ} {exponent : ℤ} {x : Binary32} (finite : x.isFinite)
    (pos : 0 < x.magnitude) (fits : n < significandLimit) (close : Within (1 + 1 / 2 ^ 59)
      (n * 10 ^ exponent) (FloatFormat.binary32.value x.magnitude)) :
    ∃ y, float? negative n exponent = some (.withSign negative y) ∧ y.isFinite = true ∧
      FloatFormat.binary32.round y.abs = x.magnitude := by
  have low : (2 : ℚ) ^ (-149 : ℤ) ≤ FloatFormat.binary32.value x.magnitude := FloatFormat.le_value pos
  have high := Binary32.value_lt_of_isFinite finite
  have low' : (2 : ℚ) ^ (-160 : ℤ) ≤ n * 10 ^ exponent := by
    have := close.ge
    have : (2 : ℚ) * 2 ^ (-160 : ℤ) ≤ 2 ^ (-149 : ℤ) := by norm_num
    have := close.pos_left
    linarith
  have high' : (n : ℚ) * 10 ^ exponent < 2 ^ (160 : ℤ) := by
    have := close.le
    have : (2 : ℚ) * 2 ^ (128 : ℤ) ≤ 2 ^ (160 : ℤ) := by norm_num
    linarith
  obtain ⟨y, made, finite', near⟩ := float?_within negative fits low' high'
  refine ⟨y, made, finite', FloatFormat.round_near pos ?_ ((near.trans close).abs_sub_le.trans ?_)⟩
  · rw [Binary32.isFinite, decide_eq_true_eq] at finite
    exact finite.le
  · refine (mul_le_mul_of_nonneg_right ?_ close.pos.le).trans_eq (div_eq_inv_mul ..).symm
    rw [FloatFormat.binadeSize_eq]
    norm_num [FloatFormat.binary32]

/-- What is written with the value of a number of 32 bits is read as a float that narrows to it. -/
theorem number?_of_writesFloat {literal : Literal} {x : Binary32} (finite : x.isFinite)
    (writes : literal.WritesFloat x.toBinary64) :
    ∃ y, literal.number? = some (.float y) ∧ Binary32.ofBinary64 y = x := by
  have sign : literal.negative = x.negative := writes.negative.trans x.negative_toBinary64
  obtain ⟨n, exponent, read, fits, written⟩ := number?_of_form writes.form
  rw [writes.magnitude, Binary32.abs_toBinary64 finite] at written
  rcases Nat.eq_zero_or_pos x.magnitude with none | pos
  · have zero : FloatFormat.binary32.value x.magnitude = 0 := by
      rw [none]
      decide +kernel
    obtain rfl : n = 0 := by
      rcases written with same | close
      · have unit : (10 : ℚ) ^ exponent ≠ 0 := by positivity
        rw [zero, mul_eq_zero, or_iff_left unit] at same
        exact_mod_cast same
      · exact absurd zero close.pos.ne'
    rw [float?_zero] at read
    refine ⟨_, read, ofBinary64_withSign sign (by decide) ?_⟩
    rw [none]
    decide +kernel
  · have close : Within (1 + 1 / 2 ^ 59) (n * 10 ^ exponent)
        (FloatFormat.binary32.value x.magnitude) := by
      rcases written with same | close
      · have value_pos : 0 < FloatFormat.binary32.value x.magnitude :=
          lt_of_lt_of_le (by positivity) (FloatFormat.le_value pos)
        rw [same]
        exact (Within.refl value_pos).mono (by norm_num)
      · exact close
    obtain ⟨y, made, finite', rounded⟩ := float?_of_within literal.negative finite pos fits close
    rw [made] at read
    exact ⟨_, read, ofBinary64_withSign sign finite' rounded⟩

/-- The value of every float can be written. -/
theorem exists_writesFloat (y : Binary64) : ∃ literal : Literal, literal.WritesFloat y := by
  have value : y.abs = FloatFormat.binary64.significand y.magnitude *
    2 ^ FloatFormat.binary64.exponent y.magnitude := rfl
  generalize FloatFormat.binary64.significand y.magnitude = s,
    FloatFormat.binary64.exponent y.magnitude = e at value
  rcases le_or_gt 0 e with up | down
  · obtain ⟨k, rfl⟩ := Int.eq_ofNat_of_zero_le up
    obtain ⟨whole, same⟩ := exists_natOf (s * 2 ^ k)
    refine ⟨⟨y.negative, whole, [], some 0⟩, .inr nofun, rfl, ?_⟩
    rw [value, Literal.magnitude, List.append_nil, same]
    push_cast
    simp
  · obtain ⟨k, rfl⟩ : ∃ k : ℕ, e = -k := ⟨(-e).toNat, by omega⟩
    obtain ⟨whole, same⟩ := exists_natOf (s * 5 ^ k)
    refine ⟨⟨y.negative, whole, [], some (-k)⟩, .inr nofun, rfl, ?_⟩
    rw [value, Literal.magnitude, List.append_nil, same]
    push_cast
    simp only [Option.getD_some, List.length_nil, Nat.cast_zero, sub_zero, zpow_neg, zpow_natCast]
    rw [show (10 : ℚ) = 5 * 2 by norm_num, mul_pow]
    field_simp

end Literal
end TensorGraph.Json
