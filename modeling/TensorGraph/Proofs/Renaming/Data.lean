import Mathlib.Data.List.Nodup
import TensorGraph.Model.Shapes
import TensorGraph.Proofs.Outcome
import TensorGraph.Graph.Compile

/-! Renamings of tensors, and what they do to graphs, to models and to complaints. Names of operators,
labels and attributes are no names of tensors and stay. -/
namespace TensorGraph

/-- New names for tensors, different ones for different tensors. -/
structure Renaming where
  apply : String → String
  injective : Function.Injective apply

instance : CoeFun Renaming (fun _ => String → String) := ⟨Renaming.apply⟩

variable (ρ : Renaming)

namespace Renaming

variable {α β : Type}

theorem eq_iff {x y : String} : ρ x = ρ y ↔ x = y := ρ.injective.eq_iff

theorem mem_map {x : String} {names : List String} : ρ x ∈ names.map ρ ↔ x ∈ names :=
  List.mem_map_of_injective ρ.injective

/-- Looking for a new name among what is renamed finds what the old name does. -/
theorem find?_map (name : α → String) (name' : β → String) (f : α → β)
    (renamed : ∀ a, name' (f a) = ρ (name a)) (x : String) (list : List α) :
    (list.map f).find? (name' · == ρ x) = (list.find? (name · == x)).map f := by
  induction list with
  | nil => rfl
  | cons a rest ih =>
    rw [List.map_cons, List.find?_cons, List.find?_cons, renamed]
    by_cases here : name a = x
    · simp [here]
    · have other : ρ (name a) ≠ ρ x := mt ρ.eq_iff.mp here
      rw [beq_false_of_ne here, beq_false_of_ne other]
      exact ih

end Renaming

namespace Input

def rename (input : Input) : Input := { input with name := ρ input.name }

end Input

namespace Weight

def rename (weight : Weight) : Weight := { weight with name := ρ weight.name }

end Weight

namespace Node

/-- A node keeps its own name, which is no tensor's. -/
def rename (node : Node) : Node :=
  { node with inputs := node.inputs.map ρ, outputs := node.outputs.map ρ }

end Node

namespace Graph

def rename (g : Graph) : Graph where
  inputs := g.inputs.map (Input.rename ρ)
  nodes := g.nodes.map (Node.rename ρ)
  weights := g.weights.map (Weight.rename ρ)
  outputs := g.outputs.map ρ

end Graph

namespace Description

def rename (d : Description) : Description := { d with toGraph := d.toGraph.rename ρ }

end Description

namespace Tensor

def rename (t : Tensor) : Tensor := { t with name := ρ t.name }

end Tensor

namespace Registry

theorem map_name_rename (tensors : List Tensor) :
    (tensors.map (Tensor.rename ρ)).map Tensor.name = (tensors.map Tensor.name).map ρ := by
  rw [List.map_map, List.map_map]
  rfl

def rename (r : Registry) : Registry where
  tensors := r.tensors.map (Tensor.rename ρ)
  distinct := by
    rw [map_name_rename]
    exact r.distinct.map ρ.injective

@[simp] theorem tensors_rename (r : Registry) :
    (r.rename ρ).tensors = r.tensors.map (Tensor.rename ρ) := rfl

theorem names_rename (r : Registry) : (r.rename ρ).names = r.names.map ρ := map_name_rename ρ r.tensors

theorem mem_names_rename {r : Registry} {x : String} : ρ x ∈ (r.rename ρ).names ↔ x ∈ r.names := by
  rw [names_rename, ρ.mem_map]

theorem contains_rename (r : Registry) (x : String) : (r.rename ρ).contains (ρ x) = r.contains x := by
  rw [Bool.eq_iff_iff, contains_iff, contains_iff, mem_names_rename]

theorem get?_rename (r : Registry) (x : String) :
    (r.rename ρ).get? (ρ x) = (r.get? x).map (Tensor.rename ρ) :=
  ρ.find?_map Tensor.name Tensor.name (Tensor.rename ρ) (fun _ => rfl) x r.tensors

theorem append_rename (r : Registry) (t : Tensor) (fresh : t.name ∉ r.names)
    (fresh' : (t.rename ρ).name ∉ (r.rename ρ).names) :
    (r.rename ρ).append (t.rename ρ) fresh' = (r.append t fresh).rename ρ := by
  apply ext
  simp

end Registry

namespace Operator

def rename (op : Operator) : Operator :=
  { op with inputs := op.inputs.map ρ, outputs := op.outputs.map ρ }

end Operator

namespace Model

def rename (m : Model) : Model where
  name := m.name
  operators := m.operators.map (Operator.rename ρ)
  tensors := m.tensors.rename ρ
  outputs := m.outputs.map ρ

end Model

namespace NameMap

variable {α : Type}

/-- The same values under new names, which may come in another order. -/
def rename (known : NameMap α) : NameMap α := ofList (known.entries.map fun entry => (ρ entry.1, entry.2))

theorem get?_rename_eq_some_iff {known : NameMap α} {y : String} {value : α} :
    (known.rename ρ).get? y = some value ↔ ∃ x, ρ x = y ∧ known.get? x = some value := by
  have distinct : (known.entries.map (·.1)).Nodup := by
    rw [List.nodup_iff_pairwise_ne, List.pairwise_map]
    exact known.ascending.imp String.ne_of_lt
  have distinct' : ((known.entries.map fun entry => (ρ entry.1, entry.2)).map (·.1)).Nodup := by
    have mapped := distinct.map ρ.injective
    rwa [List.map_map] at mapped ⊢
  rw [rename, get?_ofList_eq_some_iff distinct']
  simp only [List.mem_map, Prod.mk.injEq, get?_eq_some_iff]
  constructor
  · intro h
    obtain ⟨entry, mem, named, rfl⟩ := h
    exact ⟨entry.1, named, mem⟩
  · intro h
    obtain ⟨x, named, mem⟩ := h
    exact ⟨(x, value), mem, named, rfl⟩

@[simp] theorem get?_rename (known : NameMap α) (x : String) :
    (known.rename ρ).get? (ρ x) = known.get? x := by
  ext value
  rw [get?_rename_eq_some_iff]
  constructor
  · intro h
    obtain ⟨x', same, found⟩ := h
    exact ρ.eq_iff.mp same ▸ found
  · intro found
    exact ⟨x, rfl, found⟩

theorem insert_rename (known : NameMap α) (x : String) (value : α) :
    (known.rename ρ).insert (ρ x) value = (known.insert x value).rename ρ := by
  apply eq_of_get?
  intro y
  ext found
  rw [get?_insert, get?_rename_eq_some_iff]
  by_cases here : ρ x = y
  · subst here
    rw [if_pos rfl]
    constructor
    · intro same
      exact ⟨x, rfl, by simpa using same⟩
    · intro h
      obtain ⟨x', same, there⟩ := h
      rw [ρ.eq_iff.mp same] at there
      simpa using there
  · rw [if_neg here, get?_rename_eq_some_iff]
    constructor
    · intro h
      obtain ⟨x', rfl, there⟩ := h
      exact ⟨x', rfl, by simpa [mt (congrArg ρ) here] using there⟩
    · intro h
      obtain ⟨x', rfl, there⟩ := h
      exact ⟨x', rfl, by simpa [mt (congrArg ρ) here] using there⟩

end NameMap

namespace Place

/-- A place is named after a tensor, unless an operator has the label. -/
def rename : Place → Place
  | input name => input (ρ name)
  | weight name => weight (ρ name)
  | tensor name => tensor (ρ name)
  | operator name kind => operator name kind
  | described text => described text

end Place

namespace AttributeFault

/-- Only the fault of ranks tells a tensor. -/
def rename : AttributeFault → AttributeFault
  | rankMismatch length input rank => rankMismatch length (ρ input) rank
  | fault => fault

end AttributeFault

namespace NodeFault

def rename : NodeFault → NodeFault
  | rank tensor expected found => rank (ρ tensor) expected found
  | fault => fault

end NodeFault

namespace GraphError

/-- The same complaint about tensors of new names. -/
def rename : GraphError → GraphError
  | unsupportedType label place => unsupportedType label (place.rename ρ)
  | unknownKind label => unknownKind label
  | missingAttribute node key => missingAttribute node key
  | invalidAttribute node key fault => invalidAttribute node key (fault.rename ρ)
  | invalidNode node fault => invalidNode node (fault.rename ρ)
  | duplicateName name => duplicateName (ρ name)
  | unknownTensor name referrer => unknownTensor (ρ name) referrer
  | shapeMismatch name expected actual => shapeMismatch (ρ name) expected actual
  | invalidTensor name fault => invalidTensor (ρ name) fault

end GraphError

namespace Renaming

variable {α α' β β' γ : Type}

/-- An outcome with new names, in what comes out or in the complaint. -/
def outcome (f : α → β) : Except GraphError α → Except GraphError β
  | .ok a => .ok (f a)
  | .error e => .error (e.rename ρ)

@[simp] theorem outcome_error (f : α → β) (e : GraphError) :
    ρ.outcome f (.error e) = .error (e.rename ρ) := rfl

/-- Renaming goes through a sequence when it goes through both of its parts. -/
theorem outcome_bind {f : α → α'} {g : β → β'} {x : Except GraphError α}
    {next : α → Except GraphError β} {next' : α' → Except GraphError β'}
    (later : ∀ a, next' (f a) = ρ.outcome g (next a)) :
    (ρ.outcome f x >>= next') = ρ.outcome g (x >>= next) := by
  cases x with
  | error e => rfl
  | ok a => exact later a

/-- A loop over what is renamed ends as the loop does, renamed, when every step does. -/
theorem outcome_foldlM {f : β → β'} {g : α → α'} {step : β → α → Except GraphError β}
    {step' : β' → α' → Except GraphError β'} (each : ∀ b a, step' (f b) (g a) = ρ.outcome f (step b a))
    (list : List α) (b : β) : (list.map g).foldlM step' (f b) = ρ.outcome f (list.foldlM step b) := by
  induction list generalizing b with
  | nil => rfl
  | cons a rest ih =>
    rw [List.map_cons, List.foldlM_cons, List.foldlM_cons, each]
    exact ρ.outcome_bind ih

/-- A check of all that is renamed ends as the check does, renamed. -/
theorem outcome_forM {g : α → α'} {check : α → Except GraphError Unit}
    {check' : α' → Except GraphError Unit} (each : ∀ a, check' (g a) = ρ.outcome id (check a))
    (list : List α) : (list.map g).forM check' = ρ.outcome id (list.forM check) := by
  induction list with
  | nil => rfl
  | cons a rest ih =>
    change (check' (g a) >>= fun _ => (rest.map g).forM check') =
      ρ.outcome id (check a >>= fun _ => rest.forM check)
    rw [each]
    exact ρ.outcome_bind fun _ => ih

/-- What stops at nothing but complaints that name no tensor is the same after a renaming. -/
theorem outcome_of_faultsIn {x : Except GraphError α} (faults : FaultsIn (fun e => e.rename ρ = e) x) :
    ρ.outcome id x = x := by
  cases x with
  | ok a => rfl
  | error e => rw [outcome_error, faults.of_error e rfl]

end Renaming
end TensorGraph
