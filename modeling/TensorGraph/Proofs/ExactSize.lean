import TensorGraph.Proofs.Faults

/-! Weights by the exact size of their shapes. Products of extents are taken from the left, and the first
that cannot be addressed ends the matter. A zero therefore counts only when it comes in time: where it
does, or where there is none, the element count alone decides what becomes of a weight. -/
namespace TensorGraph

namespace Shape

/-- The extents in front of the first zero. -/
def lead (shape : Shape) : Shape := shape.takeWhile (· ≠ 0)

/-- A zero among the extents comes before their products are too large. -/
def ZeroInTime (shape : Shape) : Prop := 0 ∈ shape → elements (lead shape) < addressLimit

instance (shape : Shape) : Decidable shape.ZeroInTime :=
  inferInstanceAs (Decidable (0 ∈ shape → _))

@[simp] theorem lead_nil : lead [] = [] := rfl

@[simp] theorem lead_zero (rest : Shape) : lead (0 :: rest) = [] := rfl

theorem lead_cons {extent : Nat} (positive : 0 < extent) (rest : Shape) :
    lead (extent :: rest) = extent :: lead rest := by
  simp [lead, Nat.pos_iff_ne_zero.mp positive]

theorem lead_eq_self {shape : Shape} (nonzero : 0 ∉ shape) : lead shape = shape := by
  induction shape with
  | nil => rfl
  | cons extent rest ih =>
    rw [List.mem_cons, not_or] at nonzero
    rw [lead_cons (by omega), ih nonzero.2]

theorem elements_lead_pos (shape : Shape) : 0 < elements (lead shape) := by
  induction shape with
  | nil => simp
  | cons extent rest ih =>
    cases extent with
    | zero => simp
    | succ n =>
      rw [lead_cons (by omega), elements_cons]
      exact Nat.mul_pos (by omega) ih

theorem elements_perm {shape shape' : Shape} (perm : shape.Perm shape') :
    elements shape = elements shape' := by
  induction perm with
  | nil => rfl
  | cons extent _ ih => rw [elements_cons, elements_cons, ih]
  | swap a b rest => simp only [elements_cons, Nat.mul_left_comm]
  | trans _ _ first second => exact first.trans second

/-- The products from the left stay below a limit when the one in front of the first zero does. -/
theorem products_lt_iff (shape : Shape) (a limit : Nat) :
    (∀ front, front <+: shape → a * elements front < limit) ↔ a * elements (lead shape) < limit := by
  induction shape generalizing a with
  | nil => simp
  | cons extent rest ih =>
    constructor
    · intro below
      cases extent with
      | zero => exact below [] (List.nil_prefix)
      | succ n =>
        rw [lead_cons (by omega), elements_cons, ← Nat.mul_assoc]
        apply (ih _).mp
        intro front isFront
        have product := below ((n + 1) :: front) (List.cons_prefix_cons.mpr ⟨rfl, isFront⟩)
        rwa [elements_cons, ← Nat.mul_assoc] at product
    · intro below front isFront
      rcases List.prefix_cons_iff.mp isFront with rfl | ⟨tail, rfl, inRest⟩
      · have bound := Nat.le_mul_of_pos_right a (elements_lead_pos (extent :: rest))
        rw [elements_nil]
        omega
      · cases extent with
        | zero =>
          rw [elements_cons, Nat.zero_mul, Nat.mul_zero]
          omega
        | succ n =>
          rw [lead_cons (by omega), elements_cons, ← Nat.mul_assoc] at below
          rw [elements_cons, ← Nat.mul_assoc]
          exact (ih _).mpr below tail inRest

/-- A shape can be addressed when its octets can and its zero, if it has one, comes in time. -/
theorem addressable_iff (shape : Shape) {width : Nat} (positive : 0 < width) :
    shape.Addressable width ↔ shape.elements * width < addressLimit ∧ shape.ZeroInTime := by
  have products := products_lt_iff shape 1 addressLimit
  simp only [Nat.one_mul] at products
  constructor
  · intro addressable
    exact ⟨addressable.octets, fun _ => products.mp addressable.products⟩
  · intro h
    obtain ⟨octets, inTime⟩ := h
    refine ⟨products.mpr ?_, octets⟩
    by_cases zero : 0 ∈ shape
    · exact inTime zero
    · have bound := Nat.le_mul_of_pos_right shape.elements positive
      rw [lead_eq_self zero]
      omega

end Shape

namespace Registry

/-- Ends of a registration that are of the same sort and tell the same numbers. -/
inductive SameEnd : Except GraphError (Tensor × Registry) → Except GraphError (Tensor × Registry) → Prop
  | registered (done done' : Tensor × Registry) : SameEnd (.ok done) (.ok done')
  | invalid (name : String) (fault fault' : TensorFault) :
    SameEnd (.error (.invalidTensor name fault)) (.error (.invalidTensor name fault'))
  | mismatch (name : String) (expected actual : Nat) :
    SameEnd (.error (.shapeMismatch name expected actual)) (.error (.shapeMismatch name expected actual))

variable {r : Registry} {name : String} {shape : Shape} {data : List UInt8}

theorem materialize_isOk_iff (fresh : name ∉ r.names) :
    (∃ t s, r.materialize name .float32 shape data = .ok (t, s)) ↔
      shape.Addressable 4 ∧ data.length = shape.elements * 4 := by
  constructor
  · intro h
    obtain ⟨t, s, done⟩ := h
    obtain ⟨-, fits, whole, -⟩ := materialize_eq_ok.mp done
    exact ⟨fits, whole⟩
  · intro h
    obtain ⟨fits, whole⟩ := h
    have new : (Tensor.mk name .float32 (some shape) (.initialized data)).name ∉ r.names := fresh
    exact ⟨_, _, materialize_eq_ok.mpr ⟨rfl, fits, whole, rfl, tensors_append r _ new⟩⟩

theorem materialize_eq_error_iff (fresh : name ∉ r.names) {e : GraphError} :
    r.materialize name .float32 shape data = .error e ↔ Missized name shape data e := by
  rw [materialize_eq_error]
  simp [fresh]

theorem materialize_eq_invalid_iff (fresh : name ∉ r.names) :
    (∃ fault, r.materialize name .float32 shape data = .error (.invalidTensor name fault)) ↔
      ¬ shape.Addressable 4 := by
  simp only [materialize_eq_error_iff fresh]
  constructor
  · intro h
    obtain ⟨_, missized⟩ := h
    cases missized with
    | unaddressable large => exact large
  · intro large
    exact ⟨_, .unaddressable large⟩

/-- The order of extents does not matter where it does not matter for the size to be addressed. -/
theorem sameEnd_of_perm {shape' : Shape} (fresh : name ∉ r.names) (perm : shape.Perm shape')
    (alike : shape.Addressable 4 ↔ shape'.Addressable 4) :
    SameEnd (r.materialize name .float32 shape data) (r.materialize name .float32 shape' data) := by
  have count := Shape.elements_perm perm
  by_cases fits : shape.Addressable 4
  · have fits' := alike.mp fits
    by_cases whole : data.length = shape.elements * 4
    · obtain ⟨t, s, done⟩ := (materialize_isOk_iff fresh).mpr ⟨fits, whole⟩
      obtain ⟨t', s', done'⟩ := (materialize_isOk_iff fresh).mpr ⟨fits', count ▸ whole⟩
      rw [done, done']
      exact .registered _ _
    · rw [materialize_of_missized fresh (.mismatch fits whole),
        materialize_of_missized fresh (.mismatch fits' (count ▸ whole)), count]
      exact .mismatch _ _ _
  · rw [materialize_of_missized fresh (.unaddressable fits),
      materialize_of_missized fresh (.unaddressable fun fits' => fits (alike.mpr fits'))]
    exact .invalid _ _ _

/-- What becomes of a weight under a new name: it is registered when it has exactly the octets of its
shape, its size is invalid when it cannot be addressed, and any other data is told from the element
count. The exception is a zero that comes too late, with which every size is invalid. Where zeros come
in time the order of the extents does not matter. -/
theorem materialize_by_size (fresh : name ∉ r.names) (shape : Shape)
    (word : data.length < Shape.addressLimit) :
    ((∃ t s, r.materialize name .float32 shape data = .ok (t, s)) ↔
        data.length = 4 * shape.elements ∧ shape.ZeroInTime) ∧
      ((∃ fault, r.materialize name .float32 shape data = .error (.invalidTensor name fault)) ↔
        Shape.addressLimit ≤ shape.elements ∨ Shape.addressLimit ≤ 4 * shape.elements ∨
          ¬ shape.ZeroInTime) ∧
      (data.length ≠ 4 * shape.elements → 4 * shape.elements < Shape.addressLimit →
        shape.ZeroInTime → r.materialize name .float32 shape data =
          .error (.shapeMismatch name shape.elements (data.length / 4))) ∧
      ∀ shape' : Shape, shape.Perm shape' → shape.ZeroInTime → shape'.ZeroInTime →
        SameEnd (r.materialize name .float32 shape data)
          (r.materialize name .float32 shape' data) := by
  have fits := shape.addressable_iff (show 0 < 4 by decide)
  refine ⟨?_, ?_, ?_, ?_⟩
  · rw [materialize_isOk_iff fresh, fits]
    constructor
    · intro h
      exact ⟨by omega, h.1.2⟩
    · intro h
      exact ⟨⟨by omega, h.2⟩, by omega⟩
  · rw [materialize_eq_invalid_iff fresh, fits]
    by_cases inTime : shape.ZeroInTime
    · simp only [inTime, and_true, not_true_eq_false, or_false]
      omega
    · simp [inTime]
  · intro other below inTime
    exact materialize_of_missized fresh (.mismatch (fits.mpr ⟨by omega, inTime⟩) (by omega))
  · intro shape' perm inTime inTime'
    apply sameEnd_of_perm fresh perm
    rw [fits, shape'.addressable_iff (by decide), Shape.elements_perm perm]
    simp [inTime, inTime']

/-- Three floats are not the data of two by two, whatever the order of a third extent. -/
theorem materialize_by_size_partial :
    SameEnd (empty.materialize "w" .float32 [2, 1, 2] (List.replicate 12 0))
        (empty.materialize "w" .float32 [2, 2, 1] (List.replicate 12 0)) ∧
      empty.materialize "w" .float32 [2, 1, 2] (List.replicate 12 0) =
        .error (.shapeMismatch "w" 4 3) := by
  have fresh : "w" ∉ empty.names := by decide
  obtain ⟨-, -, mismatch, order⟩ := materialize_by_size fresh [2, 1, 2]
    (show (List.replicate 12 (0 : UInt8)).length < Shape.addressLimit by decide)
  exact ⟨order [2, 2, 1] (by decide) (by decide) (by decide), mismatch (by decide) (by decide) (by decide)⟩

/-- A shape without elements may have an invalid size: its zero stands behind extents whose product is
too large. The same extents in another order are the shape of a tensor. -/
theorem late_zero_invalid :
    empty.materialize "w" .float32 [0x10000000000, 0x10000000000, 0] [] =
        .error (.invalidTensor "w" (.unaddressable [0x10000000000, 0x10000000000, 0])) ∧
      ([] : List UInt8).length = 4 * Shape.elements [0x10000000000, 0x10000000000, 0] ∧
      ∃ t s, empty.materialize "w" .float32 [0, 0x10000000000, 0x10000000000] [] = .ok (t, s) := by
  refine ⟨by rfl, by decide, ?_⟩
  exact ⟨_, _, rfl⟩

end Registry
end TensorGraph
