import TensorGraph.Text.Lines

/-! Shapes: the extents of a tensor along its axes. Sizes that a machine word cannot address are
refused while they are multiplied, from the first axis to the last. -/
namespace TensorGraph

abbrev Shape := List Nat

namespace Shape

/-- How many elements a shape has. -/
def elements (shape : Shape) : Nat := shape.foldr (· * ·) 1

@[simp] theorem elements_nil : elements [] = 1 := rfl

@[simp] theorem elements_cons (extent : Nat) (rest : Shape) :
    elements (extent :: rest) = extent * elements rest := rfl

/-- Sizes from here on, two to the power 64, have no address. -/
def addressLimit : Nat := 0x10000000000000000

/-- A product that can be addressed. -/
def mulWithin? (a b : Nat) : Option Nat :=
  if a * b < addressLimit then some (a * b) else none

/-- The element count, provided that every product on the way to it can be addressed. -/
def elements? (shape : Shape) : Option Nat := shape.foldlM mulWithin? 1

/-- Element and octet count of a shape with elements of a width. -/
def sizes? (shape : Shape) (width : Nat) : Option (Nat × Nat) := do
  let count ← elements? shape
  let octets ← mulWithin? count width
  return (count, octets)

theorem mulWithin?_eq_some {a b n : Nat} :
    mulWithin? a b = some n ↔ n = a * b ∧ a * b < addressLimit := by
  simp only [mulWithin?, Option.ite_none_right_eq_some, Option.some.injEq]
  exact ⟨fun ⟨h, e⟩ => ⟨e.symm, h⟩, fun ⟨e, h⟩ => ⟨h, e.symm⟩⟩

/-- Extents in brackets. -/
def text (shape : Shape) : String := "[" ++ Text.commaList (shape.map toString) ++ "]"

example : elements? [0x10000000000, 0x10000000000, 0] = none := by decide
example : elements? [0, 0x10000000000, 0x10000000000] = some 0 := by decide

end Shape
end TensorGraph
