import Mathlib.Data.List.Infix
import TensorGraph.Proofs.Acceptance
import TensorGraph.Proofs.Faults
import TensorGraph.Proofs.Readings

/-! What a compilation that fails complains of. Every complaint is true of the graph: the name, the label
or the weight that it is about is there, and wrong in the way that the complaint says. -/
namespace TensorGraph

/-- A loop of registering steps has the faults of its steps, each of which finds registered what the
elements before its own stand for. -/
theorem Registers.faultsIn_foldlM {α : Type} {step : Registry → α → Except GraphError Registry}
    {Admitted : α → Prop} {tensor : α → Tensor} (registers : Registers step Admitted tensor)
    {P : GraphError → Prop} {elements : List α} {r : Registry}
    (each : ∀ t front a back, elements = front ++ a :: back →
      t.tensors = r.tensors ++ front.map tensor → FaultsIn P (step t a)) :
    FaultsIn P (elements.foldlM step r) := by
  induction elements generalizing r with
  | nil => exact .ok _
  | cons a rest ih =>
    rw [List.foldlM_cons]
    refine (each r [] a rest rfl (by simp)).bind fun s stepped => ?_
    have appended := ((registers r a s).mp stepped).2
    refine ih fun t front b back split registered => each t (a :: front) b back ?_ ?_
    · rw [split, List.cons_append]
    · simp [registered, appended]

namespace Graph

/-- The node at a position is of a kind and gives its operator a name. -/
structure NamesOperator (g : Graph) (i : Nat) (node : Node) (kind : Kind) (name : String) : Prop where
  source : g.nodes[i]? = some node
  ofKind : Kind.ofLabel? node.kindLabel = some kind
  named : nodeName node kind i = name

/-- A weight is the first of its name. -/
def IsFirst (g : Graph) (weight : Weight) : Prop :=
  g.weights.find? (·.name == weight.name) = some weight

/-- A complaint that is true of a graph. -/
inductive Blames (g : Graph) : GraphError → Prop
  | unknownOutput {x : String} : x ∈ g.outputs → x ∉ g.names → Blames g (.unknownTensor x .outputs)
  | unknownInput {i : Nat} {node : Node} {kind : Kind} {name x : String} :
    g.NamesOperator i node kind name → x ∈ node.inputs → ¬ g.InScope i x →
      Blames g (.unknownTensor x (.operator name))
  | repeatedName {x : String} : 2 ≤ g.names.count x → Blames g (.duplicateName x)
  | repeatedOutput {x : String} : 2 ≤ g.outputs.count x → Blames g (.duplicateName x)
  | inputType {input : Input} : input ∈ g.inputs →
    ElementType.ofLabel? input.typeLabel ≠ some .float32 →
      Blames g (.unsupportedType (ElementType.reported input.typeLabel) (.input input.name))
  | weightType {weight : Weight} : weight ∈ g.weights →
    ElementType.ofLabel? weight.typeLabel ≠ some .float32 →
      Blames g (.unsupportedType (ElementType.reported weight.typeLabel) (.weight weight.name))
  | operatorType {i : Nat} {node : Node} {kind : Kind} {name label : String} :
    g.NamesOperator i node kind name → node.outputTypes.head? = some label →
      ElementType.ofLabel? label ≠ some .float32 →
        Blames g (.unsupportedType (ElementType.reported label) (.operator name kind))
  | unknownKind {node : Node} : node ∈ g.nodes → Kind.ofLabel? node.kindLabel = none →
    Blames g (.unknownKind node.kindLabel)
  | shapeMismatch {weight : Weight} : g.IsFirst weight →
    weight.data.length ≠ 4 * weight.shape.elements →
      Blames g
        (.shapeMismatch weight.name weight.shape.elements (weight.data.length / 4))
  | unaddressable {weight : Weight} : g.IsFirst weight → ¬ weight.shape.Addressable 4 →
    Blames g (.invalidTensor weight.name (.unaddressable weight.shape))
  | operator {i : Nat} {node : Node} {kind : Kind} {name : String} {e : GraphError} :
    g.NamesOperator i node kind name → e.operator? = some name → Blames g e

variable {g : Graph} {options : Options} {name : String} {e : GraphError} {r : Registry}

/-- A name comes twice when it is registered and a further tensor of the graph has it. -/
theorem two_le_count_of_registered {t : Tensor} (part : r.tensors ++ [t] <+: g.tensors)
    (taken : t.name ∈ r.names) : 2 ≤ g.names.count t.name := by
  have names : r.names ++ [t.name] <+: g.names := by
    have mapped := part.map Tensor.name
    rwa [List.map_append, map_name_tensors] at mapped
  have registered : 1 ≤ r.names.count t.name := List.count_pos_iff.mpr taken
  calc 2 ≤ (r.names ++ [t.name]).count t.name := by
        rw [List.count_append, List.count_singleton_self]
        omega
    _ ≤ g.names.count t.name := names.sublist.count_le t.name

theorem isFirst_of_split {front back : List Weight} {weight : Weight}
    (split : g.weights = front ++ weight :: back) (fresh : weight.name ∉ front.map (·.name)) :
    g.IsFirst weight := by
  have before : front.find? (·.name == weight.name) = none := by
    rw [List.find?_eq_none]
    intro other mem same
    rw [beq_iff_eq] at same
    exact fresh (same ▸ List.mem_map_of_mem mem)
  simp [IsFirst, split, before]

theorem faultsIn_inputs (g : Graph) : FaultsIn g.Blames (g.inputs.foldlM declareInput .empty) := by
  refine registers_declareInput.faultsIn_foldlM fun t front input back split registered => ?_
  have part : t.tensors ++ [input.tensor] <+: g.tensors := by
    refine ⟨back.map Input.tensor ++ g.nodes.flatMap Node.results ++ g.weights.map Weight.tensor, ?_⟩
    simp [registered, tensors, split, Registry.empty]
  refine ⟨fun e failed => ?_⟩
  rcases declareInput_eq_error.mp failed with ⟨label, rfl⟩ | ⟨-, taken, rfl⟩
  · exact .inputType (by simp [split]) label
  · exact .repeatedName (two_le_count_of_registered part taken)

theorem faultsIn_outputs {node : Node} (part : r.tensors ++ node.results <+: g.tensors) :
    FaultsIn g.Blames (node.outputs.foldlM (declareOutput .float32) r) := by
  refine registers_declareOutput.faultsIn_foldlM fun t front x back split registered => ?_
  have partHere : t.tensors ++ [.intermediate x] <+: r.tensors ++ node.results := by
    refine ⟨back.map .intermediate, ?_⟩
    simp [registered, Node.results, split]
  refine ⟨fun e failed => ?_⟩
  obtain ⟨taken, rfl⟩ := declareOutput_eq_error.mp failed
  exact .repeatedName (two_le_count_of_registered (partHere.trans part) taken)

theorem faultsIn_weights (whole : r.tensors ++ g.weights.map Weight.tensor = g.tensors) :
    FaultsIn g.Blames (g.weights.foldlM materializeWeight r) := by
  refine registers_materializeWeight.faultsIn_foldlM fun t front weight back split registered => ?_
  have part : t.tensors ++ [weight.tensor] <+: g.tensors := by
    refine ⟨back.map Weight.tensor, ?_⟩
    simp [registered, ← whole, split]
  have first : weight.name ∉ t.names → g.IsFirst weight := by
    intro fresh
    refine isFirst_of_split split fun before => fresh ?_
    obtain ⟨other, mem, same⟩ := List.mem_map.mp before
    rw [Registry.names, registered, List.map_append, List.mem_append, List.map_map]
    exact .inr (List.mem_map.mpr ⟨other, mem, same⟩)
  refine ⟨fun e failed => ?_⟩
  rcases materializeWeight_eq_error.mp failed with ⟨label, rfl⟩ | ⟨-, taken, rfl⟩ |
    ⟨-, fresh, missized⟩
  · exact .weightType (by simp [split]) label
  · exact .repeatedName (two_le_count_of_registered part taken)
  · cases missized with
    | unaddressable large => exact .unaddressable (first fresh) large
    | mismatch fits other => exact .shapeMismatch (first fresh) (by omega)

theorem faultsIn_checkOutputs (named : r.names = g.names) {seen outputs : List String}
    (split : seen.reverse ++ outputs = g.outputs) :
    FaultsIn g.Blames (checkOutputs r seen outputs) := by
  induction outputs generalizing seen with
  | nil => exact .ok _
  | cons x rest ih =>
    have here : x ∈ g.outputs := by simp [← split]
    rw [checkOutputs]
    split
    · rename_i unknown
      refine .error (.unknownOutput here ?_)
      rw [← named]
      intro known
      simp [Registry.contains_iff.mpr known] at unknown
    · split
      · rename_i repeated
        refine .error (.repeatedOutput ?_)
        have front : 1 ≤ seen.reverse.count x := List.count_pos_iff.mpr (List.mem_reverse.mpr repeated)
        rw [← split, List.count_append, List.count_cons_self]
        omega
      · exact ih (by simp [← split])

theorem faultsIn_nodeType {i : Nat} {node : Node} {kind : Kind}
    (names : g.NamesOperator i node kind name) : FaultsIn g.Blames (nodeType node name kind) := by
  rw [nodeType]
  cases types : node.outputTypes with
  | nil => exact .error (.operator names rfl)
  | cons label rest =>
    cases read : ElementType.ofLabel? label with
    | none =>
      have reported : ElementType.reported label = label := by
        rw [ElementType.reported, read]
        rfl
      have refused : ElementType.ofLabel? label ≠ some .float32 := by simp [read]
      have first : node.outputTypes.head? = some label := by simp [types]
      have blamed := Blames.operatorType names first refused
      rw [reported] at blamed
      simp only [read]
      exact .error blamed
    | some t =>
      simp only [read]
      exact .ok t

/-- What a node complains of where the results of those before it are registered. -/
theorem faultsIn_compileNode {i : Nat} {node : Node} (source : g.nodes[i]? = some node)
    (registered : r.tensors = g.inputs.map Input.tensor ++ (g.nodes.take i).flatMap Node.results) :
    FaultsIn g.Blames (compileNode options g.weights r i node) := by
  rw [compileNode]
  cases ofKind : Kind.ofLabel? node.kindLabel with
  | none =>
    have unknown := Blames.unknownKind (List.mem_of_getElem? source) ofKind
    simp only [Kind.ofLabel, ofKind]
    exact .error unknown
  | some kind =>
    have names : g.NamesOperator i node kind (nodeName node kind i) := ⟨source, ofKind, rfl⟩
    rw [Kind.ofLabel_eq_ok.mpr ofKind, ok_bind]
    refine (faultsIn_nodeType names).bind fun t typed => ?_
    have resolves : FaultsIn g.Blames
        (resolveInputs g.weights r (nodeName node kind i) node.inputs) := by
      refine .forM_of_mem fun x used => ?_
      split
      · exact .ok _
      · rename_i unknown
        refine .error (.unknownInput names used ?_)
        rw [← inScope_iff registered]
        simpa [not_or] using unknown
    refine resolves.bind fun _ _ => ?_
    have completes : FaultsIn g.Blames (Draft.complete
        { node with name := nodeName node kind i, elementType := t } kind) := by
      refine Draft.faultsIn_complete _ kind (fun e lies => .operator names lies) fun other => ?_
      obtain ⟨label, first, read⟩ := nodeType_eq_ok.mp typed
      have reported : ElementType.reported label = t.name := by
        rw [ElementType.reported, read]
        rfl
      have blamed := Blames.operatorType names first (by simpa [read] using other)
      rwa [reported] at blamed
    refine completes.bind fun op built => ?_
    have ranks : FaultsIn g.Blames (checkRank g.weights r op) := by
      refine ⟨fun e failed => .operator names ?_⟩
      obtain ⟨permutation, x, shape, -, -, -, -, rfl⟩ :=
        (checkRank_eq_error (Draft.wellBuilt_of_complete built)).mp failed
      rw [(Draft.complete_eq_ok.mp built).2.2.2]
      rfl
    split
    · exact ranks.bind fun _ _ => .ok op
    · exact .ok op

theorem faultsIn_compileNodes {position : Nat} {nodes : List Node}
    (sources : ∀ (i : Nat) (node : Node), nodes[i]? = some node → g.nodes[position + i]? = some node)
    (registered : r.tensors =
      g.inputs.map Input.tensor ++ (g.nodes.take position).flatMap Node.results) :
    FaultsIn g.Blames (compileNodes options g.weights r position nodes) := by
  induction nodes generalizing r position with
  | nil => exact .ok _
  | cons node rest ih =>
    have source : g.nodes[position]? = some node := sources 0 node rfl
    have behind : r.tensors ++ node.results =
        g.inputs.map Input.tensor ++ (g.nodes.take (position + 1)).flatMap Node.results := by
      simp [registered, List.take_add_one, source]
    have part : r.tensors ++ node.results <+: g.tensors := by
      rw [behind, tensors, List.append_assoc, List.prefix_append_right_inj]
      exact ((List.take_prefix _ _).flatMap _).trans (List.prefix_append ..)
    refine (faultsIn_compileNode source registered).bind fun op compiled => ?_
    obtain ⟨kind, compiles⟩ := compileNode_eq_ok.mp compiled
    obtain ⟨-, -, sameOutputs, type⟩ := Node.fields_of_complete compiles.built
    rw [sameOutputs, type]
    refine (faultsIn_outputs part).bind fun s declared => ?_
    rw [declareOutputs_eq_ok, behind] at declared
    refine (ih (fun i later found => ?_) declared).bind fun _ _ => .ok _
    have shift : position + 1 + i = position + (i + 1) := by omega
    rw [shift]
    exact sources (i + 1) later found

theorem faultsIn_compile (g : Graph) (options : Options) (name : String) :
    FaultsIn g.Blames (g.compile options name) := by
  refine (faultsIn_inputs g).bind fun r declared => ?_
  have inputs : r.tensors = g.inputs.map Input.tensor :=
    (registers_declareInput.foldlM_eq_ok.mp declared).2
  refine (faultsIn_compileNodes (fun i node found => ?_) (by simp [inputs])).bind fun built ran => ?_
  · rwa [Nat.zero_add]
  obtain ⟨s, operators⟩ := built
  have results : s.tensors ++ g.weights.map Weight.tensor = g.tensors := by
    rw [(compileNodes_eq_ok.mp ran).1, inputs, tensors]
  refine (faultsIn_weights results).bind fun t materialized => ?_
  have named : t.names = g.names := by
    have all := (registers_materializeWeight.foldlM_eq_ok.mp materialized).2
    rw [Registry.names, all, results, map_name_tensors]
  exact (faultsIn_checkOutputs named rfl).bind fun _ _ => .ok _

/-- A compilation that fails complains of what is wrong with its graph. -/
theorem blames_of_compile (failed : g.compile options name = .error e) : g.Blames e :=
  (g.faultsIn_compile options name).of_error e failed

/-- A rectifier in front of the one that gives its operand. -/
def misplaced : Graph where
  inputs := [{ name := "x", shape := [4] }]
  nodes := [
    { kindLabel := "rectifier", inputs := ["h"], outputs := ["y"], outputTypes := ["Float"] },
    { kindLabel := "rectifier", inputs := ["x"], outputs := ["h"], outputTypes := ["Float"] }]
  outputs := ["y"]

/-- A rectifier whose result has the name of a weight. -/
def shadowed : Graph where
  inputs := [{ name := "x", shape := [4] }]
  nodes := [
    { kindLabel := "rectifier", inputs := ["x"], outputs := ["w"], outputTypes := ["Float"] }]
  weights := [{ name := "w", shape := [1], data := [0, 0, 128, 63] }]

theorem blames_misplaced_shadowed :
    misplaced.compile = .error (.unknownTensor "h" (.operator "Relu_0")) ∧
      misplaced.Blames (.unknownTensor "h" (.operator "Relu_0")) ∧
      shadowed.compile = .error (.duplicateName "w") ∧ shadowed.Blames (.duplicateName "w") := by
  have unresolved : misplaced.compile = .error (.unknownTensor "h" (.operator "Relu_0")) := by
    decide +kernel
  have repeated : shadowed.compile = .error (.duplicateName "w") := by decide +kernel
  exact ⟨unresolved, blames_of_compile unresolved, repeated, blames_of_compile repeated⟩

end Graph
end TensorGraph
