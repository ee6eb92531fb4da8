import TensorGraph.Proofs.Registration

/-! What registration stops at. Every step that writes the registry complains of a label, of a name that
is taken, of a size that cannot be addressed or of data of another size, and says of which. -/
namespace TensorGraph

variable {e : GraphError}

namespace ElementType

/-- The text under which a label is refused: the name of its type, or the label where it has none. -/
def reported (label : String) : String := (ofLabel? label).elim label name

theorem ensureSupported_eq_error {t : ElementType} {place : Place} :
    t.ensureSupported place = .error e ↔ t ≠ .float32 ∧ e = .unsupportedType t.name place := by
  rw [ensureSupported, Ne, ← isSupported_iff]
  by_cases supported : t.isSupported = true
  · rw [if_pos supported]
    simp [supported]
  · rw [if_neg supported]
    simp [supported, eq_comm]

/-- A label is refused when it is not read as a type that models are built of. -/
theorem ofSupportedLabel_eq_error {label : String} {place : Place} :
    ofSupportedLabel label place = .error e ↔
      ofLabel? label ≠ some .float32 ∧ e = .unsupportedType (reported label) place := by
  rw [ofSupportedLabel, reported]
  cases read : ofLabel? label with
  | none => simp [eq_comm]
  | some t =>
    simp only [bind_eq_error, ensureSupported_eq_error, pure_ne_error, and_false, exists_false,
      or_false, ne_eq, Option.some.injEq, Option.elim_some]

end ElementType

namespace Registry

variable {r : Registry} {name : String} {elementType : ElementType}

theorem declare_eq_error {shape : Option Shape} {kind : TensorKind} {storage : Storage}
    (backed : declaredStorage name shape kind = .ok storage) :
    r.declare name elementType shape kind = .error e ↔
      (name ∈ r.names ∧ e = .duplicateName name) ∨
        (name ∉ r.names ∧ elementType ≠ .float32 ∧
          e = .unsupportedType elementType.name (.tensor name)) := by
  rw [declare, backed, ok_bind]
  by_cases taken : name ∈ r.names
  · rw [dif_pos taken, throw_eq_error]
    simp [taken, eq_comm]
  · rw [dif_neg taken, bind_eq_error, ElementType.ensureSupported_eq_error]
    simp only [pure_ne_error, and_false, exists_false, or_false]
    simp [taken]

/-- What is wrong with the size of a weight: it cannot be addressed, or the data has another one. -/
inductive Missized (name : String) (shape : Shape) (data : List UInt8) : GraphError → Prop
  | unaddressable : ¬ shape.Addressable 4 →
    Missized name shape data (.invalidTensor name (.unaddressable shape))
  | mismatch : shape.Addressable 4 → data.length ≠ shape.elements * 4 →
    Missized name shape data (.shapeMismatch name shape.elements (data.length / 4))

theorem materialize_of_missized {shape : Shape} {data : List UInt8} (fresh : name ∉ r.names)
    (missized : Missized name shape data e) :
    r.materialize name .float32 shape data = .error e := by
  rw [materialize, dif_neg fresh]
  cases missized with
  | unaddressable large =>
    have unsized : shape.sizes? ElementType.float32.width = none := by
      rw [Option.eq_none_iff_forall_ne_some]
      intro sizes sized
      exact large (Shape.sizes?_eq_some.mp sized).1
    rw [unsized]
    rfl
  | mismatch fits other =>
    have sized : shape.sizes? ElementType.float32.width =
        some (shape.elements, shape.elements * 4) := Shape.sizes?_eq_some.mpr ⟨fits, rfl, rfl⟩
    rw [sized]
    simp only [if_pos other]
    rfl

/-- A materialization stops at a name that is taken, then at its type, then at the size. -/
theorem materialize_eq_error {shape : Shape} {data : List UInt8} :
    r.materialize name elementType shape data = .error e ↔
      (name ∈ r.names ∧ e = .duplicateName name) ∨
        (name ∉ r.names ∧ elementType ≠ .float32 ∧
          e = .unsupportedType elementType.name (.weight name)) ∨
        (name ∉ r.names ∧ elementType = .float32 ∧ Missized name shape data e) := by
  by_cases taken : name ∈ r.names
  · rw [materialize, dif_pos taken, throw_eq_error]
    simp [taken, eq_comm]
  by_cases type : elementType = .float32
  · subst type
    simp only [taken, ne_eq, not_true_eq_false, false_and, and_false, not_false_eq_true, true_and,
      false_or]
    refine ⟨fun failed => ?_, materialize_of_missized taken⟩
    by_cases fits : shape.Addressable 4
    · by_cases whole : data.length = shape.elements * 4
      · have fresh : (Tensor.mk name .float32 (some shape) (.initialized data)).name ∉ r.names := taken
        have passed := materialize_eq_ok.mpr
          ⟨rfl, fits, whole, rfl, tensors_append r ⟨name, .float32, some shape, .initialized data⟩ fresh⟩
        rw [failed] at passed
        cases passed
      · have stopped := materialize_of_missized taken (.mismatch fits whole)
        rw [failed] at stopped
        rw [Except.error.inj stopped]
        exact .mismatch fits whole
    · have stopped : r.materialize name .float32 shape data = _ :=
        materialize_of_missized taken (.unaddressable fits)
      rw [failed] at stopped
      rw [Except.error.inj stopped]
      exact .unaddressable fits
  · rw [materialize, dif_neg taken, bind_eq_error, ElementType.ensureSupported_eq_error]
    simp [taken, type, ElementType.ensureSupported_eq_ok]

end Registry

namespace Graph

variable {r : Registry}

theorem declareInput_eq_error {input : Input} :
    declareInput r input = .error e ↔
      (ElementType.ofLabel? input.typeLabel ≠ some .float32 ∧
        e = .unsupportedType (ElementType.reported input.typeLabel) (.input input.name)) ∨
      (ElementType.ofLabel? input.typeLabel = some .float32 ∧ input.name ∈ r.names ∧
        e = .duplicateName input.name) := by
  have backed : Registry.declaredStorage input.name (some input.shape) .input = .ok .input := rfl
  simp only [declareInput, bind_eq_error, ElementType.ofSupportedLabel_eq_error,
    ElementType.ofSupportedLabel_eq_ok, Registry.declare_eq_error backed, pure_ne_error, and_false,
    exists_false, or_false]
  refine or_congr_right ⟨?_, ?_⟩
  · rintro ⟨t, ⟨label, rfl⟩, taken | ⟨-, other, -⟩⟩
    · exact ⟨label, taken⟩
    · exact absurd rfl other
  · intro h
    obtain ⟨label, taken⟩ := h
    exact ⟨_, ⟨label, rfl⟩, .inl taken⟩

theorem declareOutput_eq_error {name : String} :
    declareOutput .float32 r name = .error e ↔ name ∈ r.names ∧ e = .duplicateName name := by
  have backed : Registry.declaredStorage name none .intermediate = .ok .intermediate := rfl
  simp only [declareOutput, bind_eq_error, Registry.declare_eq_error backed, pure_ne_error, and_false,
    exists_false, or_false, ne_eq, not_true_eq_false, false_and]

theorem materializeWeight_eq_error {weight : Weight} :
    materializeWeight r weight = .error e ↔
      (ElementType.ofLabel? weight.typeLabel ≠ some .float32 ∧
        e = .unsupportedType (ElementType.reported weight.typeLabel) (.weight weight.name)) ∨
      (ElementType.ofLabel? weight.typeLabel = some .float32 ∧ weight.name ∈ r.names ∧
        e = .duplicateName weight.name) ∨
      (ElementType.ofLabel? weight.typeLabel = some .float32 ∧ weight.name ∉ r.names ∧
        Registry.Missized weight.name weight.shape weight.data e) := by
  simp only [materializeWeight, bind_eq_error, ElementType.ofSupportedLabel_eq_error,
    ElementType.ofSupportedLabel_eq_ok, Registry.materialize_eq_error, pure_ne_error, and_false,
    exists_false, or_false]
  refine or_congr_right ⟨?_, ?_⟩
  · rintro ⟨t, ⟨label, rfl⟩, taken | ⟨-, other, -⟩ | ⟨fresh, -, missized⟩⟩
    · exact .inl ⟨label, taken⟩
    · exact absurd rfl other
    · exact .inr ⟨label, fresh, missized⟩
  · rintro (⟨label, taken⟩ | ⟨label, fresh, missized⟩)
    · exact ⟨_, ⟨label, rfl⟩, .inl taken⟩
    · exact ⟨_, ⟨label, rfl⟩, .inr (.inr ⟨fresh, rfl, missized⟩)⟩

end Graph
end TensorGraph
