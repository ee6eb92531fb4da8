import TensorGraph.Number.Binary64

/-! Numbers of JSON: how they are written, and what a written number stands for.
A number without fraction and exponent is an integer if it fits into 64 bits. Every other number is a
64-bit float, made from the digits that fit into 64 bits and one multiplication or division by a power of
ten, each rounded. A number too great for a float stands for nothing. -/
namespace TensorGraph.Json

abbrev Digit := Fin 10

def isDigit (octet : UInt8) : Bool := 0x30 ≤ octet && octet ≤ 0x39

def digit (octet : UInt8) : Digit := Fin.ofNat 10 (octet.toNat - 0x30)

/-- The longest run of digits at the front, and what follows it. -/
def digits (octets : List UInt8) : List Digit × List UInt8 :=
  ((octets.takeWhile isDigit).map digit, octets.dropWhile isDigit)

theorem length_digits (octets : List UInt8) :
    (digits octets).1.length + (digits octets).2.length = octets.length := by
  rw [digits, List.length_map, ← List.length_append, List.takeWhile_append_dropWhile]

/-- The natural number that digits write. -/
def natOf (digits : List Digit) : Nat := digits.foldl (fun n d => 10 * n + d.val) 0

/-- A written number. The fraction is empty when there is no point. -/
structure Literal where
  negative : Bool
  whole : List Digit
  fraction : List Digit
  exponent : Option Int
  deriving DecidableEq

/-- What a written number stands for. -/
inductive Number where
  | integer (value : Int)
  | float (value : Binary64)
  deriving DecidableEq

namespace Literal

/-- The digits before the point: a zero alone, or digits that do not begin with one. -/
def scanWhole (octets : List UInt8) : Option (List Digit × List UInt8) :=
  match digits octets with
  | ([], _) | (0 :: _ :: _, _) => none
  | found => some found

/-- The point and the digits behind it, of which there is at least one. -/
def scanFraction : List UInt8 → Option (List Digit × List UInt8)
  | 0x2e :: rest =>
    match digits rest with
    | ([], _) => none
    | found => some found
  | octets => some ([], octets)

def scanSign : List UInt8 → Bool × List UInt8
  | 0x2b :: rest => (false, rest)
  | 0x2d :: rest => (true, rest)
  | octets => (false, octets)

def scanExponent : List UInt8 → Option (Option Int × List UInt8)
  | octet :: rest =>
    if octet = 0x65 ∨ octet = 0x45 then
      let (negative, rest) := scanSign rest
      match digits rest with
      | ([], _) => none
      | (found, rest) =>
        some (some (if negative then -Int.ofNat (natOf found) else Int.ofNat (natOf found)), rest)
    else some (none, octet :: rest)
  | [] => some (none, [])

/-- A number at the front of the octets, as long as it goes. -/
def scan (octets : List UInt8) : Option (Literal × List UInt8) := do
  let (negative, rest) := match octets with
    | 0x2d :: rest => (true, rest)
    | _ => (false, octets)
  let (whole, rest) ← scanWhole rest
  let (fraction, rest) ← scanFraction rest
  let (exponent, rest) ← scanExponent rest
  return ({ negative, whole, fraction, exponent }, rest)

theorem length_scanWhole {octets rest : List UInt8} {found : List Digit}
    (h : scanWhole octets = some (found, rest)) : rest.length < octets.length := by
  have total := length_digits octets
  unfold scanWhole at h
  split at h
  · simp at h
  · simp at h
  · rename_i none _
    rw [Option.some.injEq] at h
    rw [h] at total none
    cases found with
    | nil => exact absurd rfl (none rest)
    | cons => simp only [List.length_cons] at total; omega

theorem length_scanFraction {octets rest : List UInt8} {found : List Digit}
    (h : scanFraction octets = some (found, rest)) : rest.length ≤ octets.length := by
  unfold scanFraction at h
  split at h
  · rename_i behind
    have total := length_digits behind
    split at h
    · simp at h
    · rw [Option.some.injEq] at h
      rw [h] at total
      dsimp only at total
      simp only [List.length_cons]; omega
  · simp_all

theorem length_scanSign (octets : List UInt8) : (scanSign octets).2.length ≤ octets.length := by
  unfold scanSign; split <;> simp

theorem length_scanExponent {octets rest : List UInt8} {found : Option Int}
    (h : scanExponent octets = some (found, rest)) : rest.length ≤ octets.length := by
  unfold scanExponent at h
  split at h
  · rename_i octet behind
    split at h
    · have signed := length_scanSign behind
      have total := length_digits (scanSign behind).2
      dsimp only at h
      split at h
      · simp at h
      · rename_i found' rest' run
        rw [run] at total
        simp only [Option.some.injEq, Prod.mk.injEq] at h
        simp only [List.length_cons] at *
        rw [← h.2]; omega
    · simp_all
  · simp_all

/-- A number takes at least one octet. -/
theorem length_scan {octets rest : List UInt8} {literal : Literal}
    (h : scan octets = some (literal, rest)) : rest.length < octets.length := by
  simp only [scan, Option.bind_eq_bind, Option.bind_eq_some_iff, Option.pure_def] at h
  obtain ⟨⟨_, afterWhole⟩, whole, ⟨_, afterFraction⟩, fraction, ⟨_, afterExponent⟩, exponent, h⟩ := h
  simp only [Option.some.injEq, Prod.mk.injEq] at h
  have first := length_scanWhole whole
  have second := length_scanFraction fraction
  have third := length_scanExponent exponent
  have start : (match octets with
      | 0x2d :: rest => (true, rest)
      | _ => (false, octets)).2.length ≤ octets.length := by split <;> simp
  dsimp only at *
  rw [← h.2]; omega

/-- Significands stay below two to the power 64. -/
def significandLimit : Nat := 0x10000000000000000

/-- Appends digits to a significand while they fit; the digits left over come second. -/
def extend (n : Nat) : List Digit → Nat × List Digit
  | [] => (n, [])
  | d :: rest =>
    if 10 * n + d.val < significandLimit then extend (10 * n + d.val) rest else (n, d :: rest)

/-- Powers of ten up to this one are floats. -/
def greatestPower : Nat := 308

def power (n : Nat) : Rat := (Binary64.nearest (10 ^ n)).abs

/-- A float times a power of ten, unless the product is too great. -/
def scaleUp? (x : Binary64) (places : Nat) : Option Binary64 :=
  if places ≤ greatestPower then
    let product := Binary64.nearest (x.abs * power places)
    if product.isFinite then some product else none
  else if x = .zero then some x
  else none

/-- A float divided by a power of ten; by more than one when the power is no float. -/
def scaleDown (x : Binary64) (places : Nat) : Binary64 :=
  if places ≤ greatestPower then .nearest (x.abs / power places)
  else if x = .zero then x
  else scaleDown (.nearest (x.abs / power greatestPower)) (places - greatestPower)
  termination_by places
  decreasing_by simp only [greatestPower] at *; omega

def float? (negative : Bool) (significand : Nat) (exponent : Int) : Option Binary64 :=
  let x := Binary64.nearest significand
  let scaled := if 0 ≤ exponent then scaleUp? x exponent.toNat
    else some (scaleDown x (-exponent).toNat)
  scaled.map (.withSign negative)

/-- An integer, or the float that stands for it: zero with a sign, or what does not fit below zero. -/
def ofSignificand (negative : Bool) (n : Nat) : Number :=
  if negative = false then .integer n
  else if 0 < n ∧ n ≤ 0x8000000000000000 then .integer (-n)
  else .float (.withSign true (.nearest n))

/-- What a written number stands for, if it is not too great. Digits before the point that do not fit
count as places; digits behind it that do not fit count for nothing. -/
def number? (literal : Literal) : Option Number :=
  let (n, left) := extend 0 literal.whole
  if left.isEmpty ∧ literal.fraction.isEmpty ∧ literal.exponent = none then
    some (ofSignificand literal.negative n)
  else
    let (n, cut) := extend n literal.fraction
    let places := literal.fraction.length - cut.length
    let exponent : Int := left.length - places + literal.exponent.getD 0
    (float? literal.negative n exponent).map .float

end Literal
end TensorGraph.Json
