import Mathlib.Data.List.Flatten
import TensorGraph.Proofs.Acceptance

/-! Models in single assignment form: every tensor has a name of its own and comes about once, before it
is used. Compilation gives no others. -/
namespace TensorGraph

/-- Inputs and initialized tensors are there before the first operator. -/
def Tensor.Given (t : Tensor) : Prop := t.kind = .input ∨ t.kind = .initialized

theorem Tensor.given_iff {t : Tensor} : t.Given ↔ t.kind ≠ .intermediate := by
  rw [Given]
  cases t.kind <;> simp

namespace Model

/-- The operator at a position has a name among its outputs. -/
def Defines (m : Model) (position : Nat) (name : String) : Prop :=
  ∃ op, m.operators[position]? = some op ∧ name ∈ op.outputs

structure SingleAssignment (m : Model) : Prop where
  distinct : m.tensors.names.Nodup
  produced : ∀ t ∈ m.tensors.tensors, t.kind = .intermediate → ∃! i, m.Defines i t.name
  given : ∀ t ∈ m.tensors.tensors, t.Given → ∀ i, ¬ m.Defines i t.name
  registered : ∀ i x, m.Defines i x → ∃ t ∈ m.tensors.tensors, t.kind = .intermediate ∧ t.name = x
  available : ∀ (i : Nat) (op : Operator), m.operators[i]? = some op → ∀ x ∈ op.inputs,
    (∃ t ∈ m.tensors.tensors, t.Given ∧ t.name = x) ∨ ∃ j < i, m.Defines j x
  operatorTypes : ∀ op ∈ m.operators, op.elementType = .float32
  tensorTypes : ∀ t ∈ m.tensors.tensors, t.elementType = .float32
  shaped : ∀ t ∈ m.tensors.tensors, t.shape = none ↔ t.kind = .intermediate
  outputs : m.outputs.Nodup ∧ ∀ x ∈ m.outputs, ∃ t ∈ m.tensors.tensors, t.name = x

/-- What compilation gives for a graph, or for a description without its placeholders. -/
inductive Compiled : Model → Prop
  | graph {g : Graph} {options : Options} {name : String} {m : Model} :
    g.compile options name = .ok m → Compiled m
  | description {d : Description} {options : Options} {m : Model} :
    d.compile options = .ok m → Compiled m

theorem Compiled.exists_graph {m : Model} (h : m.Compiled) :
    ∃ (g : Graph) (options : Options) (name : String), g.Accepted options ∧ g.Yields name m := by
  cases h with
  | graph h => exact ⟨_, _, _, Graph.compile_eq_ok.mp h⟩
  | description h => exact ⟨_, _, _, Graph.compile_eq_ok.mp h⟩

end Model

/-- In lists that have no element in common, an element tells where its list stands. -/
theorem getElem?_inj_of_mem {α β : Type} {f : α → List β} {xs : List α}
    (distinct : (xs.flatMap f).Nodup) {i j : Nat} {a a' : α} {b : β}
    (here : xs[i]? = some a) (mem : b ∈ f a) (there : xs[j]? = some a') (mem' : b ∈ f a') :
    i = j := by
  obtain ⟨inside, rfl⟩ := List.getElem?_eq_some_iff.mp here
  obtain ⟨inside', rfl⟩ := List.getElem?_eq_some_iff.mp there
  have apart := List.pairwise_iff_getElem.mp (List.nodup_flatMap.mp distinct).2
  by_contra other
  rcases Nat.lt_or_gt_of_ne other with before | behind
  · exact apart i j inside inside' before mem mem'
  · exact apart j i inside' inside behind mem' mem

namespace Graph

variable {g : Graph} {options : Options} {name : String} {m : Model}

theorem mem_tensors {t : Tensor} :
    t ∈ g.tensors ↔ (∃ input ∈ g.inputs, input.tensor = t) ∨
      (∃ node ∈ g.nodes, ∃ x ∈ node.outputs, .intermediate x = t) ∨
        ∃ weight ∈ g.weights, weight.tensor = t := by
  simp only [tensors, List.mem_append, List.mem_map, List.mem_flatMap, Node.results, or_assoc]

/-- Shapes that are known from the start are those of the tensors that have one. -/
theorem hasShape_iff {x : String} {shape : Shape} :
    g.HasShape x shape ↔ ∃ t ∈ g.tensors, t.shape = some shape ∧ t.name = x := by
  constructor
  · rintro (⟨input, mem, rfl, rfl⟩ | ⟨weight, mem, rfl, rfl⟩)
    · exact ⟨input.tensor, mem_tensors.mpr (.inl ⟨input, mem, rfl⟩), rfl, rfl⟩
    · exact ⟨weight.tensor, mem_tensors.mpr (.inr (.inr ⟨weight, mem, rfl⟩)), rfl, rfl⟩
  · rintro ⟨t, mem, declared, rfl⟩
    rcases mem_tensors.mp mem with ⟨input, source, rfl⟩ | ⟨node, -, x, -, rfl⟩ | ⟨weight, source, rfl⟩
    · exact .inl ⟨input, source, rfl, Option.some.inj declared⟩
    · cases declared
    · exact .inr ⟨weight, source, rfl, Option.some.inj declared⟩

/-- The names that are there before the first node. -/
def givenNames (g : Graph) : List String := g.inputs.map (·.name) ++ g.weights.map (·.name)

/-- What the tensors of a graph are like: there from the start and of a known shape, or results. -/
theorem mem_tensors_cases {t : Tensor} (mem : t ∈ g.tensors) :
    t.elementType = .float32 ∧ ((t.Given ∧ t.shape ≠ none ∧ t.name ∈ g.givenNames) ∨
      (t.kind = .intermediate ∧ t.shape = none ∧ t.name ∈ g.nodes.flatMap (·.outputs))) := by
  rcases mem_tensors.mp mem with ⟨input, source, rfl⟩ | ⟨node, source, x, output, rfl⟩ |
    ⟨weight, source, rfl⟩
  · have named : input.name ∈ g.givenNames := List.mem_append_left _ (List.mem_map_of_mem source)
    exact ⟨rfl, .inl ⟨.inl rfl, Option.some_ne_none _, named⟩⟩
  · exact ⟨rfl, .inr ⟨rfl, rfl, List.mem_flatMap.mpr ⟨node, source, output⟩⟩⟩
  · have named : weight.name ∈ g.givenNames := List.mem_append_right _ (List.mem_map_of_mem source)
    exact ⟨rfl, .inl ⟨.inr rfl, Option.some_ne_none _, named⟩⟩

theorem exists_given {x : String} (given : x ∈ g.givenNames) :
    ∃ t ∈ g.tensors, t.Given ∧ t.name = x := by
  rcases List.mem_append.mp given with mem | mem
  · obtain ⟨input, source, rfl⟩ := List.mem_map.mp mem
    exact ⟨input.tensor, mem_tensors.mpr (.inl ⟨input, source, rfl⟩), .inl rfl, rfl⟩
  · obtain ⟨weight, source, rfl⟩ := List.mem_map.mp mem
    exact ⟨weight.tensor, mem_tensors.mpr (.inr (.inr ⟨weight, source, rfl⟩)), .inr rfl, rfl⟩

theorem not_mem_outputs_of_given (distinct : g.names.Nodup) {x : String}
    (given : x ∈ g.givenNames) : x ∉ g.nodes.flatMap (·.outputs) := by
  intro output
  obtain ⟨front, -, apart⟩ := List.nodup_append.mp distinct
  rcases List.mem_append.mp given with mem | mem
  · exact (List.nodup_append.mp front).2.2 x mem x output rfl
  · exact apart x (List.mem_append_right _ output) x mem rfl

namespace Yields

variable (yields : g.Yields name m)
include yields

/-- Every operator comes from the node at its position. -/
theorem exists_node {i : Nat} {op : Operator} (h : m.operators[i]? = some op) :
    ∃ node, g.nodes[i]? = some node ∧ op.inputs = node.inputs ∧ op.outputs = node.outputs ∧
      op.elementType = .float32 ∧ op.WellBuilt := by
  have inside : i < g.nodes.length := yields.count ▸ (List.getElem?_eq_some_iff.mp h).1
  have found := List.getElem?_eq_getElem inside
  obtain ⟨kind, -, built⟩ := yields.operators i _ op found h
  obtain ⟨-, sameInputs, sameOutputs, type⟩ := Node.fields_of_complete built
  exact ⟨_, found, sameInputs, sameOutputs, type, Draft.wellBuilt_of_complete built⟩

theorem defines_iff {i : Nat} {x : String} :
    m.Defines i x ↔ ∃ node, g.nodes[i]? = some node ∧ x ∈ node.outputs := by
  constructor
  · intro h
    obtain ⟨op, found, mem⟩ := h
    obtain ⟨node, source, -, sameOutputs, -⟩ := yields.exists_node found
    exact ⟨node, source, sameOutputs ▸ mem⟩
  · intro h
    obtain ⟨node, source, mem⟩ := h
    have inside : i < m.operators.length := yields.count ▸ (List.getElem?_eq_some_iff.mp source).1
    have found := List.getElem?_eq_getElem inside
    obtain ⟨node', source', -, sameOutputs, -⟩ := yields.exists_node found
    obtain rfl : node' = node := Option.some.inj (source'.symm.trans source)
    exact ⟨_, found, sameOutputs ▸ mem⟩

theorem exists_defines_iff {x : String} :
    (∃ i, m.Defines i x) ↔ x ∈ g.nodes.flatMap (·.outputs) := by
  simp only [yields.defines_iff]
  rw [List.mem_flatMap]
  constructor
  · intro h
    obtain ⟨i, node, source, mem⟩ := h
    exact ⟨node, List.mem_of_getElem? source, mem⟩
  · intro h
    obtain ⟨node, mem, output⟩ := h
    obtain ⟨i, source⟩ := List.mem_iff_getElem?.mp mem
    exact ⟨i, node, source, output⟩

/-- A model that holds an accepted graph is in single assignment form. -/
theorem singleAssignment (accepted : g.Accepted options) : m.SingleAssignment := by
  have distinct := accepted.distinct
  have all := yields.tensors
  have given : ∀ t ∈ m.tensors.tensors, t.Given → t.name ∈ g.givenNames := by
    intro t mem given
    rcases (mem_tensors_cases (all ▸ mem)).2 with ⟨-, -, named⟩ | ⟨kind, -⟩
    · exact named
    · exact absurd kind (Tensor.given_iff.mp given)
  have result : ∀ t ∈ m.tensors.tensors, t.kind = .intermediate →
      t.shape = none ∧ t.name ∈ g.nodes.flatMap (·.outputs) := by
    intro t mem kind
    rcases (mem_tensors_cases (all ▸ mem)).2 with ⟨given, -⟩ | ⟨-, unknown, output⟩
    · exact absurd kind (Tensor.given_iff.mp given)
    · exact ⟨unknown, output⟩
  constructor
  case distinct => exact m.tensors.distinct
  case produced =>
    intro t mem kind
    obtain ⟨i, defined⟩ := yields.exists_defines_iff.mpr (result t mem kind).2
    refine ⟨i, defined, fun j again => ?_⟩
    -- Two positions with one result would be two occurrences of its name.
    have results := (List.nodup_append.mp (List.nodup_append.mp distinct).1).2.1
    obtain ⟨node, here, output⟩ := yields.defines_iff.mp defined
    obtain ⟨node', there, output'⟩ := yields.defines_iff.mp again
    exact getElem?_inj_of_mem results there output' here output
  case given =>
    intro t mem isGiven i defined
    exact not_mem_outputs_of_given distinct (given t mem isGiven)
      (yields.exists_defines_iff.mp ⟨i, defined⟩)
  case registered =>
    intro i x defined
    obtain ⟨node, source, output⟩ := List.mem_flatMap.mp (yields.exists_defines_iff.mp ⟨i, defined⟩)
    refine ⟨.intermediate x, ?_, rfl, rfl⟩
    rw [all]
    exact mem_tensors.mpr (.inr (.inl ⟨node, source, x, output, rfl⟩))
  case available =>
    intro i op found x used
    obtain ⟨node, source, sameInputs, -⟩ := yields.exists_node found
    obtain ⟨kind, op', compiles⟩ := accepted.nodes i node source
    rw [all]
    rcases compiles.inputs x (sameInputs ▸ used) with mem | mem | ⟨j, before, earlier⟩
    · exact .inl (exists_given (List.mem_append_left _ mem))
    · exact .inl (exists_given (List.mem_append_right _ mem))
    · exact .inr ⟨j, before, yields.defines_iff.mpr earlier⟩
  case operatorTypes =>
    intro op mem
    obtain ⟨i, found⟩ := List.mem_iff_getElem?.mp mem
    obtain ⟨node, -, -, -, type, -⟩ := yields.exists_node found
    exact type
  case tensorTypes =>
    intro t mem
    exact (mem_tensors_cases (all ▸ mem)).1
  case shaped =>
    intro t mem
    constructor
    · intro unknown
      rcases (mem_tensors_cases (all ▸ mem)).2 with ⟨-, known, -⟩ | ⟨kind, -⟩
      · exact absurd unknown known
      · exact kind
    · exact fun kind => (result t mem kind).1
  case outputs =>
    rw [yields.outputs]
    refine ⟨accepted.outputs.1, fun x mem => ?_⟩
    have named := accepted.outputs.2 x mem
    rw [← map_name_tensors, ← all] at named
    exact List.mem_map.mp named

end Yields
end Graph

/-- Whatever compiles is in single assignment form: names are distinct, every result has one operator
behind it, and no operator uses what does not come before it. -/
theorem Model.Compiled.isSingleAssignment {m : Model} (h : m.Compiled) : m.SingleAssignment := by
  obtain ⟨g, options, name, accepted, yields⟩ := h.exists_graph
  exact yields.singleAssignment accepted

/-- The layer with a placeholder in front of its input. -/
def Description.layer : Description :=
  { Graph.layer with
    inputs := { name := "self", typeLabel := "Double", shape := [] } :: Graph.layer.inputs
    placeholderInputs := 1 }

theorem Model.isSingleAssignment_layer :
    Description.layer.compile = .ok Graph.layerModel ∧ Graph.layerModel.SingleAssignment := by
  have compiled : Description.layer.compile = .ok Graph.layerModel := by decide +kernel
  exact ⟨compiled, Compiled.isSingleAssignment (.description compiled)⟩

end TensorGraph
