import TensorGraph.GraphError
import TensorGraph.Tensor

/-! The tensors of a model in the order of their registration, each under a name of its own.
Registration appends one tensor or fails; nothing is ever replaced or removed. -/
namespace TensorGraph

structure Registry where
  tensors : List Tensor
  distinct : (tensors.map Tensor.name).Nodup := by simp
  deriving DecidableEq

namespace Registry

def empty : Registry := { tensors := [] }

instance : Inhabited Registry := ⟨empty⟩

@[ext] theorem ext {r s : Registry} (h : r.tensors = s.tensors) : r = s := by
  cases r; cases s; simp_all

def names (r : Registry) : List String := r.tensors.map Tensor.name

def size (r : Registry) : Nat := r.tensors.length

def get? (r : Registry) (name : String) : Option Tensor := r.tensors.find? (·.name == name)

def contains (r : Registry) (name : String) : Bool := name ∈ r.names

def lookup (r : Registry) (name : String) : Except GraphError Tensor :=
  match r.get? name with
  | some tensor => .ok tensor
  | none => .error (.unknownTensor name .lookup)

def ofKind (r : Registry) (kind : TensorKind) : List Tensor := r.tensors.filter (·.kind = kind)

/-- Appends a tensor of a new name. -/
def append (r : Registry) (tensor : Tensor) (fresh : tensor.name ∉ r.names) : Registry where
  tensors := r.tensors ++ [tensor]
  distinct := by
    rw [List.map_append, List.nodup_append]
    refine ⟨r.distinct, by simp, fun a mem b single same => ?_⟩
    rw [List.map_singleton, List.mem_singleton] at single
    exact fresh (single ▸ same ▸ mem)

@[simp] theorem tensors_append (r : Registry) (tensor : Tensor) (fresh : tensor.name ∉ r.names) :
    (r.append tensor fresh).tensors = r.tensors ++ [tensor] := rfl

@[simp] theorem contains_iff {r : Registry} {name : String} :
    r.contains name = true ↔ name ∈ r.names := by simp [contains]

theorem mem_of_get? {r : Registry} {name : String} {tensor : Tensor}
    (h : r.get? name = some tensor) : tensor ∈ r.tensors ∧ tensor.name = name :=
  ⟨List.mem_of_find?_eq_some h, by simpa using List.find?_some h⟩

theorem get?_eq_none_iff {r : Registry} {name : String} : r.get? name = none ↔ name ∉ r.names := by
  simp [get?, names]

theorem find?_of_mem {tensors : List Tensor} {tensor : Tensor}
    (distinct : (tensors.map Tensor.name).Nodup) (mem : tensor ∈ tensors) :
    tensors.find? (·.name == tensor.name) = some tensor := by
  induction tensors with
  | nil => simp at mem
  | cons head rest ih =>
    rw [List.map_cons, List.nodup_cons] at distinct
    rcases List.mem_cons.mp mem with rfl | later
    · simp
    · have other : head.name ≠ tensor.name := fun same =>
        distinct.1 (same ▸ List.mem_map_of_mem later)
      simp [other, ih distinct.2 later]

/-- Look-up finds exactly the registered tensors. -/
theorem get?_eq_some_iff {r : Registry} {name : String} {tensor : Tensor} :
    r.get? name = some tensor ↔ tensor ∈ r.tensors ∧ tensor.name = name := by
  constructor
  · exact mem_of_get?
  · rintro ⟨mem, rfl⟩
    exact find?_of_mem r.distinct mem

/-- What backs a tensor that is declared without data. -/
def declaredStorage (name : String) (shape : Option Shape) :
    TensorKind → Except GraphError Storage
  | .input =>
    if shape.isNone then .error (.invalidTensor name .inputWithoutShape) else .ok .input
  | .intermediate => .ok .intermediate
  | .initialized => .error (.invalidTensor name .initializedWithoutData)

/-- Registers an input or an intermediate tensor. -/
def declare (r : Registry) (name : String) (elementType : ElementType) (shape : Option Shape)
    (kind : TensorKind) : Except GraphError (Tensor × Registry) := do
  let storage ← declaredStorage name shape kind
  if taken : name ∈ r.names then throw (.duplicateName name)
  else
    elementType.ensureSupported (.tensor name)
    let tensor : Tensor := ⟨name, elementType, shape, storage⟩
    return (tensor, r.append tensor taken)

/-- Registers an initialized tensor, whose data has to be of exactly the size of its shape. -/
def materialize (r : Registry) (name : String) (elementType : ElementType) (shape : Shape)
    (data : List UInt8) : Except GraphError (Tensor × Registry) := do
  if taken : name ∈ r.names then throw (.duplicateName name)
  else
    elementType.ensureSupported (.weight name)
    match shape.sizes? elementType.width with
    | none => throw (.invalidTensor name (.unaddressable shape))
    | some (count, octets) =>
      if data.length ≠ octets then
        throw (.shapeMismatch name count (data.length / elementType.width))
      let tensor : Tensor := ⟨name, elementType, some shape, .initialized data⟩
      return (tensor, r.append tensor taken)

end Registry
end TensorGraph
