import TensorGraph.Number.Binary32

/-! The shortest decimal that reads back as the same floating-point number, written positionally.
Of the decimals with as few digits as possible the nearest is taken, and of two equally near ones the
greater. -/
namespace TensorGraph

/-- The number coefficient · 10 ^ exponent. -/
structure Decimal where
  coefficient : Nat
  exponent : Int
  deriving DecidableEq, Repr

namespace Decimal

def value (d : Decimal) : Rat := d.coefficient * 10 ^ d.exponent

/-- How many decimal digits a natural number has; zero has none. -/
def length (n : Nat) : Nat := if n = 0 then 0 else (Nat.toDigits 10 n).length

/-- Greatest exponent of ten that does not exceed a positive number. -/
def floorLog10 (x : Rat) : Int :=
  if 1 ≤ x then Int.ofNat (length x.floor.toNat) - 1
  else -Int.ofNat (length ((1 / x).ceil.toNat - 1))

/-- The same number without a zero at the end of its coefficient. -/
def trimmed (d : Decimal) : Decimal :=
  if d.coefficient ≠ 0 ∧ d.coefficient % 10 = 0 then ⟨d.coefficient / 10, d.exponent + 1⟩ else d

/-- Digits with the point among them, never an exponent. -/
def positional (d : Decimal) : List Char :=
  let digits := Nat.toDigits 10 d.coefficient
  if 0 ≤ d.exponent then digits ++ List.replicate d.exponent.toNat '0'
  else
    let places := (-d.exponent).toNat
    let padded := List.replicate (places + 1 - digits.length) '0' ++ digits
    padded.take (padded.length - places) ++ '.' :: padded.drop (padded.length - places)

example : positional ⟨15, -1⟩ = ['1', '.', '5'] := by decide +kernel
example : positional ⟨1, -3⟩ = ['0', '.', '0', '0', '1'] := by decide +kernel
example : positional ⟨34, 2⟩ = ['3', '4', '0', '0'] := by decide +kernel

end Decimal

namespace FloatFormat

/-- Bounds of the magnitudes that round to a word. The gap below the first word of a binade is half
the gap above it. -/
def bounds (f : FloatFormat) (word : Nat) : Rat × Rat :=
  let x := f.value word
  let gap : Rat := 2 ^ f.exponent word
  let below := if f.significand word = f.binadeSize ∧ 0 < f.binade word then gap / 4 else gap / 2
  (x - below, x + gap / 2)

/-- Whether a magnitude rounds to a word: the bounds count for it when its significand is even. -/
def rounds (f : FloatFormat) (word : Nat) (x : Rat) : Bool :=
  let (low, high) := f.bounds word
  if f.significand word % 2 = 0 then low ≤ x && x ≤ high else low < x && x < high

/-- The decimal with so many digits that reads back as the word, if there is one. -/
def decimal? (f : FloatFormat) (word : Nat) (digits : Nat) : Option Decimal :=
  let x := f.value word
  let exponent := Decimal.floorLog10 x - digits + 1
  let scaled := x / 10 ^ exponent
  let low := scaled.floor.toNat
  let lower : Decimal := ⟨low, exponent⟩
  let upper : Decimal := ⟨low + 1, exponent⟩
  match f.rounds word lower.value, f.rounds word upper.value with
  | true, true => some (if scaled - low < 1 / 2 then lower else upper)
  | true, false => some lower
  | false, true => some upper
  | false, false => none

/-- The shortest decimal of a finite word, with at most so many digits. Its coefficient ends in a zero
only when it is ten. -/
def shortest (f : FloatFormat) (most : Nat) (word : Nat) : Decimal :=
  if word = 0 then ⟨0, 0⟩
  else ((List.range most).findSome? fun n => f.decimal? word (n + 1)).elim ⟨0, 0⟩ Decimal.trimmed

end FloatFormat

namespace Binary32

/-- Nine digits tell any two numbers of 32 bits apart. -/
def shortest (x : Binary32) : Decimal := FloatFormat.binary32.shortest 9 x.magnitude

/-- The text of a number: a sign when it is set, then the shortest digits. -/
def text (x : Binary32) : String :=
  if x.isNaN then "NaN"
  else (if x.negative then "-" else "") ++
    (if x.isFinite then String.ofList x.shortest.positional else "inf")

example : (⟨0x3dcccccd⟩ : Binary32).shortest = ⟨1, -1⟩ := by decide +kernel
example : (⟨0x7f7fffff⟩ : Binary32).shortest = ⟨34028235, 31⟩ := by decide +kernel
example : (⟨0x80000000⟩ : Binary32).shortest.positional = ['0'] := by decide +kernel

end Binary32
end TensorGraph
