/-! Binary floating-point formats, and rounding an exact number into one of them.
A number without its sign is its word: words count the magnitudes of a format in ascending order,
so that the word after the greatest finite one is infinity and greater words are no numbers. -/
namespace TensorGraph

structure FloatFormat where
  /-- Binary digits of a significand behind its first one. -/
  places : Nat
  /-- Exponent of the last place of the smallest numbers. -/
  lowest : Int
  /-- Word of infinity. -/
  infinity : Nat
  deriving DecidableEq

/-- Greatest exponent of two that does not exceed a positive number. -/
def floorLog2 (x : Rat) : Int :=
  let guess : Int := Int.ofNat x.num.toNat.log2 - Int.ofNat x.den.log2
  if x < 2 ^ guess then guess - 1 else guess

/-- Nearest natural number to one that is not negative; a half goes to the even neighbour. -/
def roundHalfEven (x : Rat) : Nat :=
  let low := x.floor.toNat
  let rest := x - low
  if rest < 1 / 2 ∨ (rest = 1 / 2 ∧ low % 2 = 0) then low else low + 1

namespace FloatFormat

def binary32 : FloatFormat := ⟨23, -149, 0x7f800000⟩
def binary64 : FloatFormat := ⟨52, -1074, 0x7ff0000000000000⟩

/-- Words of one binade; below the first full one stand the subnormal words. -/
def binadeSize (f : FloatFormat) : Nat := 1 <<< f.places

/-- Place of a word's binade; subnormal words share the last place of the first one. -/
def binade (f : FloatFormat) (word : Nat) : Nat := word / f.binadeSize - 1

def significand (f : FloatFormat) (word : Nat) : Nat := word - f.binade word * f.binadeSize

def exponent (f : FloatFormat) (word : Nat) : Int := f.lowest + f.binade word

/-- The number a finite word stands for. -/
def value (f : FloatFormat) (word : Nat) : Rat := f.significand word * 2 ^ f.exponent word

/-- Word of the number nearest to a magnitude, ties to the even significand. What rounds beyond the
greatest finite number becomes infinity. -/
def round (f : FloatFormat) (x : Rat) : Nat :=
  if x ≤ 0 then 0
  else
    let exponent := max f.lowest (floorLog2 x - f.places)
    let word := (exponent - f.lowest).toNat * f.binadeSize + roundHalfEven (x / 2 ^ exponent)
    min word f.infinity

@[simp] theorem round_zero (f : FloatFormat) : f.round 0 = 0 := rfl

theorem round_le_infinity (f : FloatFormat) (x : Rat) : f.round x ≤ f.infinity := by
  unfold round
  split
  · exact Nat.zero_le _
  · exact Nat.min_le_right _ _

example : binary32.round 1 = 0x3f800000 := by decide +kernel

/-- A tie between two neighbours goes to the even significand. -/
example : binary32.round 16777217 = binary32.round 16777216 := by decide +kernel

/-- Half of the smallest number rounds to zero, anything more to the smallest number. -/
example : binary32.round (2 ^ (-150 : Int)) = 0 ∧ binary32.round (3 * 2 ^ (-151 : Int)) = 1 := by
  decide +kernel

example : binary32.round (2 ^ (128 : Int)) = binary32.infinity := by decide +kernel

end FloatFormat
end TensorGraph
