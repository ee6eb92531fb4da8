import TensorGraph.Proofs.Readings
import TensorGraph.Proofs.Reordering

/-! Compilation and inference together, said of a graph alone. Both succeed for a graph that is sound and
for which some shapes satisfy the rules of all nodes: this mentions no positions and no names of
operators, and no options, as such shapes leave nothing for the rank check to complain about. -/
namespace TensorGraph

/-- A node asks for an operation. -/
structure Node.Performs (node : Node) (operation : Operation) : Prop where
  ofKind : Kind.ofLabel? node.kindLabel = some operation.kind
  ofType : node.IsFloat32
  inputs : node.inputs.length = Draft.inputCount operation.kind
  outputs : node.outputs.length = 1
  attributes : node.attributes.Denotes operation

/-- A node has one output, of the shape that its operation gives it. -/
def Node.Holds (node : Node) (shapes : String → Shape) : Prop :=
  ∃ operation output, node.Performs operation ∧ node.outputs = [output] ∧
    operation.Rule (node.inputs.map shapes) (shapes output)

namespace Node

variable {node : Node} {operation : Operation} {op : Operator} {shapes shapes' : String → Shape}

theorem performs_of_built {kind : Kind} {i : Nat} (ofKind : Kind.ofLabel? node.kindLabel = some kind)
    (ofType : node.IsFloat32) (built : (node.draft kind i).complete kind = .ok op) :
    node.Performs op.operation := by
  obtain ⟨arity, -, asked, -⟩ := Draft.complete_eq_ok.mp built
  obtain ⟨rfl, denotes⟩ := Draft.readOperation_eq_ok.mp asked
  exact ⟨ofKind, ofType, arity.1, arity.2, denotes⟩

/-- A node that asks for an operation completes to its operator at every position. -/
theorem Performs.built (performs : node.Performs operation) (i : Nat) :
    (node.draft operation.kind i).complete operation.kind =
      .ok ⟨Graph.nodeName node operation.kind i, operation, node.inputs, node.outputs, .float32⟩ := by
  refine Draft.complete_eq_ok.mpr ⟨⟨performs.inputs, performs.outputs⟩, rfl, ?_, rfl⟩
  exact Draft.readOperation_eq_ok.mpr ⟨rfl, performs.attributes⟩

/-- Whatever a node completes to performs the operation that the node asks for. -/
theorem Performs.operation_eq (performs : node.Performs operation) {kind : Kind} {i : Nat}
    (ofKind : Kind.ofLabel? node.kindLabel = some kind)
    (built : (node.draft kind i).complete kind = .ok op) : op.operation = operation := by
  obtain rfl : operation.kind = kind := Option.some.inj (performs.ofKind.symm.trans ofKind)
  rw [← Except.ok.inj ((performs.built i).symm.trans built)]

theorem Holds.congr (holds : node.Holds shapes) (inputs : ∀ x ∈ node.inputs, shapes x = shapes' x)
    (outputs : ∀ x ∈ node.outputs, shapes x = shapes' x) : node.Holds shapes' := by
  obtain ⟨operation, output, performs, single, rule⟩ := holds
  have operands : node.inputs.map shapes = node.inputs.map shapes' := List.map_congr_left inputs
  have result : shapes output = shapes' output := outputs output (by simp [single])
  rw [operands, result] at rule
  exact ⟨operation, output, performs, single, rule⟩

end Node

namespace Graph

/-- A graph that has nothing wrong with it, the attributes of its nodes aside. -/
structure Sound (g : Graph) : Prop where
  inputs : ∀ input ∈ g.inputs, ElementType.ofLabel? input.typeLabel = some .float32
  distinct : g.names.Nodup
  resolved : g.Resolved
  weights : ∀ weight ∈ g.weights,
    ElementType.ofLabel? weight.typeLabel = some .float32 ∧ weight.Sized
  outputs : g.outputs.Nodup ∧ ∀ x ∈ g.outputs, x ∈ g.names

/-- Shapes that agree with those of inputs and weights and with what the nodes ask for. -/
structure Shaped (g : Graph) (shapes : String → Shape) : Prop where
  declared : ∀ x shape, g.HasShape x shape → shapes x = shape
  nodes : ∀ node ∈ g.nodes, node.Holds shapes

/-- A graph compiles to a model of which these shapes are inferred. -/
def Infers (g : Graph) (options : Options) (name : String) (known : NameMap Shape) : Prop :=
  ∃ m, g.compile options name = .ok m ∧ m.shapes = .ok known

variable {g : Graph} {options : Options} {name : String} {m : Model} {shapes : String → Shape}
  {known : NameMap Shape}

theorem HasShape.mem_names {x : String} {shape : Shape} (known : g.HasShape x shape) : x ∈ g.names := by
  obtain ⟨t, mem, -, rfl⟩ := hasShape_iff.mp known
  rw [← map_name_tensors]
  exact List.mem_map_of_mem mem

/-- Shapes of a graph are a matter of the names that it mentions. -/
theorem Shaped.congr {shapes' : String → Shape} (shaped : g.Shaped shapes)
    (names : ∀ x ∈ g.names, shapes x = shapes' x)
    (inputs : ∀ node ∈ g.nodes, ∀ x ∈ node.inputs, shapes x = shapes' x) : g.Shaped shapes' := by
  constructor
  · intro x shape known
    rw [← names x known.mem_names]
    exact shaped.declared x shape known
  · intro node mem
    refine (shaped.nodes node mem).congr (inputs node mem) fun x output => names x ?_
    exact List.mem_append_left _ (List.mem_append_right _ (List.mem_flatMap.mpr ⟨node, mem, output⟩))

theorem Accepted.sound (accepted : g.Accepted options) : g.Sound := by
  refine ⟨accepted.inputs, accepted.distinct, ?_, accepted.weights, accepted.outputs⟩
  intro i node source x used
  obtain ⟨kind, op, compiles⟩ := accepted.nodes i node source
  exact compiles.inputs x used

/-- Shapes of a model are shapes of its graph. -/
theorem Accepted.shaped (accepted : g.Accepted options) (yields : g.Yields name m)
    (consistent : m.Consistent shapes) : g.Shaped shapes := by
  constructor
  · intro x shape known
    obtain ⟨t, mem, declared, rfl⟩ := hasShape_iff.mp known
    exact consistent.declared t (yields.tensors ▸ mem) shape declared
  · intro node mem
    obtain ⟨i, source⟩ := List.mem_iff_getElem?.mp mem
    obtain ⟨kind, op, compiles⟩ := accepted.nodes i node source
    obtain ⟨op', kind', found, ofKind', built'⟩ := yields.exists_operator source
    have performs := Node.performs_of_built ofKind' compiles.ofType built'
    obtain ⟨-, sameInputs, sameOutputs, -⟩ := Node.fields_of_complete built'
    obtain ⟨output, single, rule⟩ := consistent.rules op' (List.mem_of_getElem? found)
    rw [sameInputs] at rule
    exact ⟨op'.operation, output, performs, sameOutputs ▸ single, rule⟩

/-- Shapes of a graph are shapes of its model. -/
theorem Shaped.consistent (shaped : g.Shaped shapes) (yields : g.Yields name m) :
    m.Consistent shapes := by
  constructor
  · intro t mem shape declared
    exact shaped.declared t.name shape (hasShape_iff.mpr ⟨t, yields.tensors ▸ mem, declared, rfl⟩)
  · intro op mem
    obtain ⟨i, found⟩ := List.mem_iff_getElem?.mp mem
    obtain ⟨node, source, sameInputs, sameOutputs, -⟩ := yields.exists_node found
    obtain ⟨kind, ofKind, built⟩ := yields.operators i node op source found
    obtain ⟨operation, output, performs, single, rule⟩ :=
      shaped.nodes node (List.mem_of_getElem? source)
    refine ⟨output, sameOutputs ▸ single, ?_⟩
    rw [performs.operation_eq ofKind built, sameInputs]
    exact rule

/-- Where there are shapes, the rank check has nothing to complain about. -/
theorem Shaped.fitsRanks (shaped : g.Shaped shapes) {op : Operator} {result : Shape}
    (rule : op.operation.Rule (op.inputs.map shapes) result) : op.FitsRanks g.HasShape := by
  intro permutation transpose x used shape known
  rw [transpose] at rule
  generalize operands : op.inputs.map shapes = list at rule
  cases rule with
  | transpose rank sameRank extents =>
    obtain ⟨y, single, shapeY⟩ := List.map_eq_singleton_iff.mp operands
    obtain rfl : x = y := by simpa [single] using used
    rw [rank, ← shapeY, shaped.declared x shape known]

theorem Sound.accepted (sound : g.Sound) (shaped : g.Shaped shapes) (options : Options) :
    g.Accepted options := by
  refine ⟨sound.inputs, sound.distinct, ?_, sound.weights, sound.outputs⟩
  intro i node source
  obtain ⟨operation, output, performs, single, rule⟩ := shaped.nodes node (List.mem_of_getElem? source)
  refine ⟨operation.kind, _, performs.ofKind, performs.ofType, sound.resolved i node source,
    performs.built i, fun _ => ?_⟩
  exact shaped.fitsRanks rule

/-- Compilation and inference succeed for a sound graph that has shapes. -/
theorem exists_infers_iff :
    (∃ known, g.Infers options name known) ↔ g.Sound ∧ ∃ shapes, g.Shaped shapes := by
  constructor
  · rintro ⟨known, m, compiled, inferred⟩
    obtain ⟨accepted, yields⟩ := compile_eq_ok.mp compiled
    obtain ⟨form, built⟩ := (Model.Compiled.graph compiled).exists_form
    obtain ⟨shapes, consistent, -⟩ := (form.ordered built).shapes_eq_ok.mp inferred
    exact ⟨accepted.sound, shapes, accepted.shaped yields consistent⟩
  · rintro ⟨sound, shapes, shaped⟩
    have accepted := sound.accepted shaped options
    obtain ⟨m, yields⟩ := accepted.exists_yields name
    have compiled := compile_eq_ok.mpr ⟨accepted, yields⟩
    obtain ⟨form, built⟩ := (Model.Compiled.graph compiled).exists_form
    obtain ⟨known, records⟩ := NameMap.exists_records (m.ready m.operators.length) shapes
    exact ⟨known, m, compiled,
      (form.ordered built).shapes_eq_ok.mpr ⟨shapes, shaped.consistent yields, records⟩⟩

/-- What is inferred for the names of a graph are its shapes. -/
theorem Infers.get?_of_shaped (infers : g.Infers options name known) (shaped : g.Shaped shapes)
    {x : String} (mem : x ∈ g.names) : known.get? x = some (shapes x) := by
  obtain ⟨m, compiled, inferred⟩ := infers
  have yields := (compile_eq_ok.mp compiled).2
  obtain ⟨form, built⟩ := (Model.Compiled.graph compiled).exists_form
  have ordered := form.ordered built
  obtain ⟨shapes', consistent', records⟩ := ordered.shapes_eq_ok.mp inferred
  have ready : x ∈ m.ready m.operators.length := by
    rwa [form.mem_ready_length_iff, Registry.names, yields.tensors, map_name_tensors]
  rw [records.get?_of_mem ready,
    ordered.agree_of_consistent consistent' (shaped.consistent yields) x ready]

end Graph
end TensorGraph
