import TensorGraph.Graph.Compile
import TensorGraph.Proofs.Outcome

/-! Registration of tensors. Every step of a compilation that writes the registry puts one tensor at its
end, and a loop of such steps puts there the tensors of its elements in their order. -/
namespace TensorGraph

namespace ElementType

theorem ensureSupported_eq_ok {t : ElementType} {place : Place} {u : Unit} :
    t.ensureSupported place = .ok u ↔ t = .float32 := by
  rw [ensureSupported, ← isSupported_iff]
  split <;> simp_all

theorem ofSupportedLabel_eq_ok {label : String} {place : Place} {t : ElementType} :
    ofSupportedLabel label place = .ok t ↔ ofLabel? label = some .float32 ∧ t = .float32 := by
  rw [ofSupportedLabel]
  cases read : ofLabel? label with
  | none => simp
  | some found =>
    simp only [bind_eq_ok, ensureSupported_eq_ok, pure_eq_ok, Option.some.injEq]
    constructor
    · rintro ⟨_, rfl, rfl⟩
      exact ⟨rfl, rfl⟩
    · rintro ⟨rfl, rfl⟩
      exact ⟨(), rfl, rfl⟩

end ElementType

namespace Shape

/-- A loop of checked products goes through when no product on its way is too large. -/
theorem foldlM_mulWithin?_eq_some {shape : Shape} {a n : Nat} :
    shape.foldlM mulWithin? a = some n ↔
      n = a * elements shape ∧
        ∀ front, front <+: shape → front ≠ [] → a * elements front < addressLimit := by
  induction shape generalizing a with
  | nil => simp [eq_comm]
  | cons extent rest ih =>
    simp only [List.foldlM_cons, Option.bind_eq_bind, Option.bind_eq_some_iff, mulWithin?_eq_some, ih,
      elements_cons, ← Nat.mul_assoc]
    constructor
    · rintro ⟨_, ⟨rfl, fits⟩, rfl, below⟩
      refine ⟨rfl, fun front isFront nonempty => ?_⟩
      obtain ⟨tail, rfl, inRest⟩ := (List.prefix_cons_iff.mp isFront).resolve_left nonempty
      rw [elements_cons, ← Nat.mul_assoc]
      by_cases short : tail = []
      · simpa [short] using fits
      · exact below tail inRest short
    · rintro ⟨rfl, below⟩
      refine ⟨a * extent, ⟨rfl, ?_⟩, rfl, fun front isFront _ => ?_⟩
      · simpa using below [extent] (by simp) (by simp)
      · simpa [Nat.mul_assoc] using
          below (extent :: front) (List.cons_prefix_cons.mpr ⟨rfl, isFront⟩) (by simp)

/-- A shape whose products from the left, and whose octets, can be addressed. -/
structure Addressable (shape : Shape) (width : Nat) : Prop where
  products : ∀ front, front <+: shape → elements front < addressLimit
  octets : elements shape * width < addressLimit

theorem sizes?_eq_some {shape : Shape} {width count octets : Nat} :
    shape.sizes? width = some (count, octets) ↔
      shape.Addressable width ∧ count = elements shape ∧ octets = elements shape * width := by
  simp only [sizes?, elements?, Option.bind_eq_bind, Option.bind_eq_some_iff,
    foldlM_mulWithin?_eq_some, mulWithin?_eq_some, Nat.one_mul]
  constructor
  · rintro ⟨n, ⟨rfl, below⟩, _, ⟨rfl, fits⟩, same⟩
    obtain ⟨rfl, rfl⟩ := Prod.mk.inj (Option.some.inj same)
    refine ⟨⟨fun front isFront => ?_, fits⟩, rfl, rfl⟩
    by_cases short : front = []
    · simp [short, addressLimit]
    · exact below front isFront short
  · rintro ⟨⟨below, fits⟩, rfl, rfl⟩
    exact ⟨_, ⟨rfl, fun front isFront _ => below front isFront⟩, _, ⟨rfl, fits⟩, rfl⟩

end Shape

namespace Registry

/-- What stands behind the tensors of a registry is new to it. -/
theorem fresh_of_tensors_eq {r s : Registry} {t : Tensor} (h : s.tensors = r.tensors ++ [t]) :
    t.name ∉ r.names := by
  have distinct := s.distinct
  rw [h, List.map_append, List.nodup_append] at distinct
  exact fun mem => distinct.2.2 _ mem t.name (by simp) rfl

/-- Any front part of a registry is a registry. -/
theorem exists_of_prefix {r : Registry} {tensors : List Tensor} (h : tensors <+: r.tensors) :
    ∃ s : Registry, s.tensors = tensors :=
  ⟨⟨tensors, ((h.map Tensor.name).sublist).nodup r.distinct⟩, rfl⟩

theorem append_eq_iff {r s : Registry} {t : Tensor} (fresh : t.name ∉ r.names) :
    r.append t fresh = s ↔ s.tensors = r.tensors ++ [t] := by
  constructor
  · rintro rfl
    rfl
  · exact fun h => ext h.symm

/-- A declaration that succeeds appends the tensor that it returns. -/
theorem declare_eq_ok {r s : Registry} {name : String} {elementType : ElementType}
    {shape : Option Shape} {kind : TensorKind} {t : Tensor} :
    r.declare name elementType shape kind = .ok (t, s) ↔ elementType = .float32 ∧
      ∃ storage, declaredStorage name shape kind = .ok storage ∧
        t = ⟨name, .float32, shape, storage⟩ ∧ s.tensors = r.tensors ++ [t] := by
  simp only [declare, bind_eq_ok]
  constructor
  · intro h
    obtain ⟨storage, backed, h⟩ := h
    split at h
    · exact absurd h throw_ne_ok
    · rename_i fresh
      simp only [bind_eq_ok, ElementType.ensureSupported_eq_ok, pure_eq_ok] at h
      obtain ⟨_, rfl, h⟩ := h
      obtain ⟨rfl, same⟩ := Prod.mk.inj h
      exact ⟨rfl, storage, backed, rfl, (append_eq_iff fresh).mp same⟩
  · rintro ⟨rfl, storage, backed, rfl, h⟩
    have fresh := fresh_of_tensors_eq h
    refine ⟨storage, backed, ?_⟩
    rw [dif_neg fresh, bind_eq_ok]
    exact ⟨(), rfl, pure_eq_ok.mpr (Prod.ext rfl ((append_eq_iff fresh).mpr h))⟩

/-- A materialization that succeeds appends the tensor that it returns, with all of the data. -/
theorem materialize_eq_ok {r s : Registry} {name : String} {elementType : ElementType}
    {shape : Shape} {data : List UInt8} {t : Tensor} :
    r.materialize name elementType shape data = .ok (t, s) ↔ elementType = .float32 ∧
      shape.Addressable 4 ∧ data.length = shape.elements * 4 ∧
        t = ⟨name, .float32, some shape, .initialized data⟩ ∧ s.tensors = r.tensors ++ [t] := by
  rw [materialize]
  constructor
  · intro h
    split at h
    · exact absurd h throw_ne_ok
    · rename_i fresh
      simp only [bind_eq_ok, ElementType.ensureSupported_eq_ok] at h
      obtain ⟨_, rfl, h⟩ := h
      split at h
      · exact absurd h throw_ne_ok
      · rename_i count octets sized
        obtain ⟨fits, rfl, rfl⟩ := Shape.sizes?_eq_some.mp sized
        split at h
        · exact absurd h throw_ne_ok
        · rename_i whole
          obtain ⟨rfl, same⟩ := Prod.mk.inj (pure_eq_ok.mp h)
          exact ⟨rfl, fits, Decidable.not_not.mp whole, rfl, (append_eq_iff fresh).mp same⟩
  · rintro ⟨rfl, fits, whole, rfl, h⟩
    have fresh := fresh_of_tensors_eq h
    have sized : shape.sizes? ElementType.float32.width = some (shape.elements, data.length) :=
      Shape.sizes?_eq_some.mpr ⟨fits, rfl, whole⟩
    rw [dif_neg fresh, bind_eq_ok, sized]
    refine ⟨(), rfl, ?_⟩
    simp only [ne_eq, not_true_eq_false, if_false]
    exact pure_eq_ok.mpr (Prod.ext rfl ((append_eq_iff fresh).mpr h))

end Registry

/-- The tensor that a declaration of an input stands for. -/
def Input.tensor (input : Input) : Tensor :=
  ⟨input.name, .float32, some input.shape, .input⟩

/-- The tensor that a weight stands for. -/
def Weight.tensor (weight : Weight) : Tensor :=
  ⟨weight.name, .float32, some weight.shape, .initialized weight.data⟩

/-- The tensor under an output of a node. -/
def Tensor.intermediate (name : String) : Tensor := ⟨name, .float32, none, .intermediate⟩

/-- A weight that has exactly the data of its shape, in a size that can be addressed. -/
structure Weight.Sized (weight : Weight) : Prop where
  addressable : weight.shape.Addressable 4
  whole : weight.data.length = weight.shape.elements * 4

/-- A step of a compilation that appends the tensor of an element, provided that this is admitted. -/
def Registers {α : Type} (step : Registry → α → Except GraphError Registry) (Admitted : α → Prop)
    (tensor : α → Tensor) : Prop :=
  ∀ r a s, step r a = .ok s ↔ Admitted a ∧ s.tensors = r.tensors ++ [tensor a]

/-- A loop of registering steps appends the tensors of all elements, provided that all are admitted. -/
theorem Registers.foldlM_eq_ok {α : Type} {step : Registry → α → Except GraphError Registry}
    {Admitted : α → Prop} {tensor : α → Tensor} (registers : Registers step Admitted tensor)
    {elements : List α} {r s : Registry} :
    elements.foldlM step r = .ok s ↔
      (∀ a ∈ elements, Admitted a) ∧ s.tensors = r.tensors ++ elements.map tensor := by
  induction elements generalizing r with
  | nil =>
    rw [List.foldlM_nil, pure_eq_ok, Registry.ext_iff, eq_comm]
    simp
  | cons a rest ih =>
    simp only [List.foldlM_cons, bind_eq_ok, registers r a, ih, List.forall_mem_cons, List.map_cons]
    constructor
    · intro h
      obtain ⟨middle, ⟨here, appended⟩, later, h⟩ := h
      exact ⟨⟨here, later⟩, by simpa [appended] using h⟩
    · intro h
      obtain ⟨⟨here, later⟩, h⟩ := h
      have isFront : r.tensors ++ [tensor a] <+: s.tensors := ⟨rest.map tensor, by simp [h]⟩
      obtain ⟨middle, appended⟩ := Registry.exists_of_prefix isFront
      exact ⟨middle, ⟨here, appended⟩, later, by simp [appended, h]⟩

namespace Graph

theorem registers_declareInput :
    Registers declareInput (fun input => ElementType.ofLabel? input.typeLabel = some .float32)
      Input.tensor := by
  intro r input s
  simp only [declareInput, bind_eq_ok, ElementType.ofSupportedLabel_eq_ok, Prod.exists,
    Registry.declare_eq_ok, pure_eq_ok]
  constructor
  · rintro ⟨_, ⟨label, rfl⟩, t, _, ⟨-, _, backed, rfl, h⟩, rfl⟩
    cases backed
    exact ⟨label, h⟩
  · intro h
    obtain ⟨label, h⟩ := h
    exact ⟨_, ⟨label, rfl⟩, input.tensor, s, ⟨rfl, _, rfl, rfl, h⟩, rfl⟩

theorem registers_declareOutput :
    Registers (declareOutput .float32) (fun _ => True) Tensor.intermediate := by
  intro r name s
  simp only [declareOutput, bind_eq_ok, Prod.exists, Registry.declare_eq_ok, pure_eq_ok, true_and]
  constructor
  · rintro ⟨t, _, ⟨_, backed, rfl, h⟩, rfl⟩
    cases backed
    exact h
  · intro h
    exact ⟨.intermediate name, s, ⟨_, rfl, rfl, h⟩, rfl⟩

theorem registers_materializeWeight :
    Registers materializeWeight
      (fun weight => ElementType.ofLabel? weight.typeLabel = some .float32 ∧ weight.Sized)
      Weight.tensor := by
  intro r weight s
  simp only [materializeWeight, bind_eq_ok, ElementType.ofSupportedLabel_eq_ok, Prod.exists,
    Registry.materialize_eq_ok, pure_eq_ok]
  constructor
  · rintro ⟨_, ⟨label, rfl⟩, t, _, ⟨-, fits, whole, rfl, h⟩, rfl⟩
    exact ⟨⟨label, fits, whole⟩, h⟩
  · intro h
    obtain ⟨⟨label, fits, whole⟩, h⟩ := h
    exact ⟨_, ⟨label, rfl⟩, weight.tensor, s, ⟨rfl, fits, whole, rfl, h⟩, rfl⟩

end Graph
end TensorGraph
