import TensorGraph.Number.Binary64

/-! Floating-point numbers of 32 bits, given by their bits: conversion from integers and from wider
numbers, and their four octets in little-endian order. -/
namespace TensorGraph

structure Binary32 where
  bits : UInt32
  deriving DecidableEq, Inhabited

namespace Binary32

/-- The highest bit, which is the sign. -/
def signBit : Nat := 0x80000000

def magnitude (x : Binary32) : Nat := x.bits.toNat % signBit
def negative (x : Binary32) : Bool := signBit ≤ x.bits.toNat
def isFinite (x : Binary32) : Bool := x.magnitude < FloatFormat.binary32.infinity
def isNaN (x : Binary32) : Bool := FloatFormat.binary32.infinity < x.magnitude

/-- The number with the given sign and word. -/
def signed (negative : Bool) (word : Nat) : Binary32 :=
  ⟨UInt32.ofNat (if negative then signBit + word else word)⟩

def one : Binary32 := ⟨0x3f800000⟩

/-- The nearest number to an integer. -/
def ofInt (i : Int) : Binary32 :=
  signed (decide (i < 0)) (FloatFormat.binary32.round i.natAbs)

/-- The word of a quiet number that is none, as narrowing leaves it. -/
def quiet : Nat := FloatFormat.binary32.infinity + 0x400000

/-- The nearest number to a wider one; what is too great becomes infinity. -/
def ofBinary64 (x : Binary64) : Binary32 :=
  signed x.negative (if x.isNaN then quiet else FloatFormat.binary32.round x.abs)

/-- The wider number of the same value, for a finite number. -/
def toBinary64 (x : Binary32) : Binary64 :=
  Binary64.signed x.negative
    (FloatFormat.binary64.round (FloatFormat.binary32.value x.magnitude))

theorem magnitude_signed (negative : Bool) {word : Nat} (low : word < signBit) :
    (signed negative word).magnitude = word := by
  rw [signed, magnitude]
  dsimp only
  rw [UInt32.toNat_ofNat']
  cases negative <;> simp only [signBit, Bool.false_eq_true, ↓reduceIte] at low ⊢ <;> omega

/-- A number is that of its sign and its word. -/
theorem signed_magnitude (x : Binary32) : signed x.negative x.magnitude = x := by
  obtain ⟨bits⟩ := x
  have := bits.toNat_lt
  rw [signed, magnitude, negative, mk.injEq, ← UInt32.toNat_inj, UInt32.toNat_ofNat']
  dsimp only
  by_cases high : signBit ≤ bits.toNat
  · rw [if_pos (decide_eq_true high)]
    simp only [signBit] at high ⊢
    omega
  · rw [if_neg (by simpa using high)]
    simp only [signBit] at high ⊢
    omega

/-- The octets of the bits, lowest first. -/
def octets (x : Binary32) : List UInt8 :=
  let n := x.bits.toNat
  [.ofNat n, .ofNat (n / 0x100), .ofNat (n / 0x10000), .ofNat (n / 0x1000000)]

def ofOctets (a b c d : UInt8) : Binary32 :=
  ⟨.ofNat (a.toNat + 0x100 * b.toNat + 0x10000 * c.toNat + 0x1000000 * d.toNat)⟩

@[simp] theorem length_octets (x : Binary32) : x.octets.length = 4 := rfl

/-- The numbers that a run of octets holds; octets at the end that fill no number are left out. -/
def decode : List UInt8 → List Binary32
  | a :: b :: c :: d :: rest => ofOctets a b c d :: decode rest
  | _ => []

def encode (numbers : List Binary32) : List UInt8 := numbers.flatMap octets

theorem decode_octets_append (x : Binary32) (rest : List UInt8) :
    decode (x.octets ++ rest) = x :: decode rest := by
  obtain ⟨bits⟩ := x
  have := bits.toNat_lt
  simp only [octets, decode, List.cons_append, List.nil_append, ofOctets, List.cons.injEq,
    mk.injEq, and_true, ← UInt32.toNat_inj, UInt32.toNat_ofNat', UInt8.toNat_ofNat']
  omega

@[simp] theorem encode_cons (x : Binary32) (rest : List Binary32) :
    encode (x :: rest) = x.octets ++ encode rest := rfl

/-- Octets read back as the numbers they were written for, whatever their bits. -/
@[simp] theorem decode_encode (numbers : List Binary32) : decode (encode numbers) = numbers := by
  induction numbers with
  | nil => rfl
  | cons x rest ih => simp [decode_octets_append, ih]

@[simp] theorem length_encode (numbers : List Binary32) :
    (encode numbers).length = 4 * numbers.length := by
  induction numbers with
  | nil => rfl
  | cons x rest ih =>
    rw [encode_cons, List.length_append, ih, length_octets, List.length_cons]
    omega

theorem length_lt_of_short {data : List UInt8}
    (short : ∀ a b c d rest, data = a :: b :: c :: d :: rest → False) : data.length < 4 := by
  match data, short with
  | [], _ | [_], _ | [_, _], _ | [_, _, _], _ => simp
  | a :: b :: c :: d :: rest, short => exact absurd rfl (short a b c d rest)

theorem decode_of_length_lt {data : List UInt8} (few : data.length < 4) : decode data = [] := by
  match data, few with
  | [], _ | [_], _ | [_, _], _ | [_, _, _], _ => rfl

theorem length_decode (data : List UInt8) : (decode data).length = data.length / 4 := by
  induction data using decode.induct with
  | case1 a b c d rest ih =>
    simp only [decode, List.length_cons, ih]
    omega
  | case2 data short =>
    have few := length_lt_of_short short
    rw [decode_of_length_lt few, Nat.div_eq_of_lt few]
    rfl

theorem octets_ofOctets (a b c d : UInt8) : (ofOctets a b c d).octets = [a, b, c, d] := by
  have := a.toNat_lt
  have := b.toNat_lt
  have := c.toNat_lt
  have := d.toNat_lt
  simp only [octets, ofOctets, List.cons.injEq, and_true, ← UInt8.toNat_inj, UInt8.toNat_ofNat',
    UInt32.toNat_ofNat']
  omega

/-- Octets that fill their numbers are those that the numbers are written as. -/
theorem encode_decode {data : List UInt8} (whole : 4 ∣ data.length) : encode (decode data) = data := by
  induction data using decode.induct with
  | case1 a b c d rest ih =>
    have later : 4 ∣ rest.length := by
      simp only [List.length_cons] at whole
      omega
    rw [decode, encode_cons, octets_ofOctets, ih later]
    rfl
  | case2 data short =>
    have few := length_lt_of_short short
    rw [decode_of_length_lt few, List.eq_nil_of_length_eq_zero (Nat.eq_zero_of_dvd_of_lt whole few)]
    rfl

example : ofInt 16777217 = ofInt 16777216 := by decide +kernel
example : ofInt (-1) = ⟨0xbf800000⟩ := by decide +kernel
example : one.octets = [0, 0, 0x80, 0x3f] := by decide

end Binary32
end TensorGraph
