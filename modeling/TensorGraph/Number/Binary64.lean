import TensorGraph.Number.FloatFormat

/-! Floating-point numbers of 64 bits, given by their bits. The products and quotients are the exact
results rounded once. -/
namespace TensorGraph

structure Binary64 where
  bits : UInt64
  deriving DecidableEq, Inhabited

namespace Binary64

/-- The highest bit, which is the sign. -/
def signBit : Nat := 0x8000000000000000

def magnitude (x : Binary64) : Nat := x.bits.toNat % signBit
def negative (x : Binary64) : Bool := signBit ≤ x.bits.toNat
def isFinite (x : Binary64) : Bool := x.magnitude < FloatFormat.binary64.infinity
def isNaN (x : Binary64) : Bool := FloatFormat.binary64.infinity < x.magnitude

/-- The number with the given sign and word. -/
def signed (negative : Bool) (word : Nat) : Binary64 :=
  ⟨UInt64.ofNat (if negative then signBit + word else word)⟩

def zero : Binary64 := ⟨0⟩

/-- The nearest number to a magnitude, without a sign. -/
def nearest (x : Rat) : Binary64 := signed false (FloatFormat.binary64.round x)

/-- The magnitude of a finite number. -/
def abs (x : Binary64) : Rat := FloatFormat.binary64.value x.magnitude

def withSign (negative : Bool) (x : Binary64) : Binary64 := signed negative x.magnitude

theorem magnitude_signed (negative : Bool) {word : Nat} (low : word < signBit) :
    (signed negative word).magnitude = word := by
  rw [signed, magnitude]
  dsimp only
  rw [UInt64.toNat_ofNat']
  cases negative <;> simp only [signBit, Bool.false_eq_true, ↓reduceIte] at low ⊢ <;> omega

theorem negative_signed (negative : Bool) {word : Nat} (low : word < signBit) :
    (signed negative word).negative = negative := by
  rw [signed, Binary64.negative]
  dsimp only
  rw [UInt64.toNat_ofNat']
  cases negative
  · rw [if_neg Bool.false_ne_true, decide_eq_false_iff_not]
    simp only [signBit] at low ⊢
    omega
  · rw [if_pos rfl, decide_eq_true_eq]
    simp only [signBit] at low ⊢
    omega

example : nearest 1 = ⟨0x3ff0000000000000⟩ := by decide +kernel
example : (signed true 0).bits = 0x8000000000000000 := by decide +kernel

end Binary64
end TensorGraph
