import TensorGraph.Proofs.Nodes

/-! Which graphs compile, and to what. A graph is accepted when its names are distinct, its labels are
those of supported types and known kinds, its nodes refer to what is there before them and its weights
have the size of their shapes. An accepted graph has one model, which holds all that the graph does. -/
namespace TensorGraph

theorem mem_flatMap_take {α β : Type} {f : α → List β} {xs : List α} {i : Nat} {b : β} :
    b ∈ (xs.take i).flatMap f ↔ ∃ j < i, ∃ a, xs[j]? = some a ∧ b ∈ f a := by
  simp only [List.mem_flatMap, List.mem_take_iff_getElem]
  constructor
  · rintro ⟨a, ⟨j, below, rfl⟩, mem⟩
    exact ⟨j, by omega, _, List.getElem?_eq_getElem (by omega), mem⟩
  · intro h
    obtain ⟨j, below, a, found, mem⟩ := h
    obtain ⟨inside, rfl⟩ := List.getElem?_eq_some_iff.mp found
    exact ⟨_, ⟨j, by omega, rfl⟩, mem⟩

/-- What can be chosen for every element of a list can be chosen as a list. -/
theorem exists_list_of_forall {α β : Type} {P : Nat → α → β → Prop} {xs : List α}
    (h : ∀ (i : Nat) (a : α), xs[i]? = some a → ∃ b, P i a b) :
    ∃ ys : List β, ys.length = xs.length ∧
      ∀ (i : Nat) (a : α) (b : β), xs[i]? = some a → ys[i]? = some b → P i a b := by
  induction xs generalizing P with
  | nil => exact ⟨[], rfl, fun i a b none => by simp at none⟩
  | cons x xs ih =>
    obtain ⟨y, first⟩ := h 0 x rfl
    obtain ⟨ys, count, later⟩ := ih fun i a found => h (i + 1) a found
    refine ⟨y :: ys, by simp [count], fun i a b source target => ?_⟩
    cases i with
    | zero =>
      cases source
      cases target
      exact first
    | succ i => exact later i a b source target

namespace Graph

/-- The tensors of a graph: inputs, results of nodes, weights. -/
def tensors (g : Graph) : List Tensor :=
  g.inputs.map Input.tensor ++ g.nodes.flatMap Node.results ++ g.weights.map Weight.tensor

/-- The names of a graph: of its inputs, of the outputs of its nodes, of its weights. -/
def names (g : Graph) : List String :=
  g.inputs.map (·.name) ++ g.nodes.flatMap (·.outputs) ++ g.weights.map (·.name)

/-- A node may refer to inputs, to weights and to outputs of nodes before it. -/
def InScope (g : Graph) (position : Nat) (name : String) : Prop :=
  name ∈ g.inputs.map (·.name) ∨ name ∈ g.weights.map (·.name) ∨
    ∃ j < position, ∃ node, g.nodes[j]? = some node ∧ name ∈ node.outputs

/-- Inputs and weights come with shapes. -/
def HasShape (g : Graph) (name : String) (shape : Shape) : Prop :=
  (∃ input ∈ g.inputs, input.name = name ∧ input.shape = shape) ∨
    ∃ weight ∈ g.weights, weight.name = name ∧ weight.shape = shape

/-- A graph that has nothing wrong with it. -/
structure Accepted (g : Graph) (options : Options) : Prop where
  inputs : ∀ input ∈ g.inputs, ElementType.ofLabel? input.typeLabel = some .float32
  distinct : g.names.Nodup
  nodes : ∀ (i : Nat) (node : Node), g.nodes[i]? = some node →
    ∃ kind op, node.CompilesTo options i (g.InScope i) g.HasShape kind op
  weights : ∀ weight ∈ g.weights,
    ElementType.ofLabel? weight.typeLabel = some .float32 ∧ weight.Sized
  outputs : g.outputs.Nodup ∧ ∀ x ∈ g.outputs, x ∈ g.names

/-- A model that holds all of a graph and nothing else. -/
structure Yields (g : Graph) (name : String) (m : Model) : Prop where
  name : m.name = name
  tensors : m.tensors.tensors = g.tensors
  count : m.operators.length = g.nodes.length
  operators : ∀ (i : Nat) (node : Node) (op : Operator),
    g.nodes[i]? = some node → m.operators[i]? = some op →
    ∃ kind, Kind.ofLabel? node.kindLabel = some kind ∧ (node.draft kind i).complete kind = .ok op
  outputs : m.outputs = g.outputs

variable {g : Graph} {options : Options} {name : String} {m : Model}

theorem map_name_results (nodes : List Node) :
    (nodes.flatMap Node.results).map Tensor.name = nodes.flatMap (·.outputs) := by
  induction nodes with
  | nil => rfl
  | cons node rest ih =>
    rw [List.flatMap_cons, List.map_append, ih, List.flatMap_cons, Node.results, List.map_map]
    exact congrArg (· ++ _) (List.map_id _)

theorem map_name_tensors (g : Graph) : g.tensors.map Tensor.name = g.names := by
  simp only [tensors, names, List.map_append, map_name_results, List.map_map]
  rfl

/-- Weights of distinct names are found by their names, from whichever end. -/
theorem find?_reverse_eq_some {weights : List Weight}
    (distinct : (weights.map (·.name)).Nodup) {x : String} {weight : Weight} :
    weights.reverse.find? (·.name == x) = some weight ↔ weight ∈ weights ∧ weight.name = x := by
  constructor
  · intro first
    have mem := List.mem_of_find?_eq_some first
    exact ⟨List.mem_reverse.mp mem, by simpa using List.find?_some first⟩
  · rintro ⟨mem, rfl⟩
    cases first : weights.reverse.find? (·.name == weight.name) with
    | none =>
      have none := List.find?_eq_none.mp first weight (List.mem_reverse.mpr mem)
      simp at none
    | some other =>
      have memOther := List.mem_reverse.mp (List.mem_of_find?_eq_some first)
      have same : other.name = weight.name := by simpa using List.find?_some first
      rw [List.inj_on_of_nodup_map distinct memOther mem same]

section

variable {r : Registry} {i : Nat}
  (registered : r.tensors = g.inputs.map Input.tensor ++ (g.nodes.take i).flatMap Node.results)

include registered

theorem names_of_registered :
    r.names = g.inputs.map (·.name) ++ (g.nodes.take i).flatMap (·.outputs) := by
  rw [Registry.names, registered, List.map_append, map_name_results, List.map_map]
  rfl

/-- In scope is what the registry holds when the node is reached, and the weights. -/
theorem inScope_iff {x : String} :
    x ∈ r.names ∨ x ∈ g.weights.map (·.name) ↔ g.InScope i x := by
  rw [names_of_registered registered, List.mem_append, mem_flatMap_take, InScope]
  exact or_assoc.trans (or_congr_right or_comm)

theorem mem_front_of_registered {x : String} (mem : x ∈ r.names) :
    x ∈ g.inputs.map (·.name) ++ g.nodes.flatMap (·.outputs) := by
  rw [names_of_registered registered, List.mem_append] at mem
  rw [List.mem_append]
  refine mem.imp_right fun result => ?_
  obtain ⟨node, mem, output⟩ := List.mem_flatMap.mp result
  exact List.mem_flatMap.mpr ⟨node, List.mem_of_mem_take mem, output⟩

/-- Where names are distinct, what the look-up finds out about a shape is what the graph says. -/
theorem knownShape?_eq_some (distinct : g.names.Nodup) {x : String} {shape : Shape} :
    knownShape? g.weights r x = some shape ↔ g.HasShape x shape := by
  obtain ⟨-, distinctWeights, apart⟩ := List.nodup_append.mp distinct
  have foreign : ∀ weight ∈ g.weights, weight.name ∉ r.names := fun weight mem known =>
    apart _ (mem_front_of_registered registered known) _ (List.mem_map_of_mem mem) rfl
  rw [knownShape?]
  -- A registered name is no weight's, as the names of the whole graph are distinct.
  cases found : r.get? x with
  | some t =>
    obtain ⟨mem, rfl⟩ := Registry.get?_eq_some_iff.mp found
    constructor
    · intro known
      rw [registered, List.mem_append] at mem
      rcases mem with mem | mem
      · obtain ⟨input, memInput, rfl⟩ := List.mem_map.mp mem
        exact .inl ⟨input, memInput, rfl, Option.some.inj known⟩
      · obtain ⟨node, -, mem⟩ := List.mem_flatMap.mp mem
        obtain ⟨output, -, rfl⟩ := List.mem_map.mp mem
        cases known
    · rintro (⟨input, memInput, same, rfl⟩ | ⟨weight, memWeight, same, -⟩)
      · have inside : input.tensor ∈ r.tensors := by
          rw [registered]
          exact List.mem_append_left _ (List.mem_map_of_mem memInput)
        have again := Registry.get?_eq_some_iff.mpr ⟨inside, same⟩
        rw [found] at again
        rw [Option.some.inj again]
        rfl
      · exact absurd (List.mem_map_of_mem mem) (same ▸ foreign weight memWeight)
  | none =>
    have unknown := Registry.get?_eq_none_iff.mp found
    simp only [Option.map_eq_some_iff, find?_reverse_eq_some distinctWeights]
    constructor
    · intro h
      obtain ⟨weight, ⟨mem, same⟩, shaped⟩ := h
      exact .inr ⟨weight, mem, same, shaped⟩
    · intro h
      rcases h with ⟨input, mem, rfl, -⟩ | ⟨weight, mem, same, shaped⟩
      · refine absurd ?_ unknown
        rw [names_of_registered registered]
        exact List.mem_append_left _ (List.mem_map_of_mem mem)
      · exact ⟨weight, ⟨mem, same⟩, shaped⟩

/-- A node compiles in the registry that its turn finds exactly as it does by the graph. -/
theorem compileNode_eq_ok_iff_of_registered (distinct : g.names.Nodup) {node : Node}
    {op : Operator} :
    compileNode options g.weights r i node = .ok op ↔
      ∃ kind, node.CompilesTo options i (g.InScope i) g.HasShape kind op := by
  have scope : (fun x => x ∈ r.names ∨ x ∈ g.weights.map (·.name)) = g.InScope i := by
    funext x
    exact propext (inScope_iff registered)
  have shapes : (fun x shape => knownShape? g.weights r x = some shape) = g.HasShape := by
    funext x shape
    exact propext (knownShape?_eq_some registered distinct)
  rw [compileNode_eq_ok, scope, shapes]

end

/-- What a node finds registered is the front part of the tensors of the graph. -/
theorem exists_registered {r : Registry} (all : r.tensors = g.tensors) (i : Nat) :
    ∃ s : Registry,
      s.tensors = g.inputs.map Input.tensor ++ (g.nodes.take i).flatMap Node.results := by
  refine Registry.exists_of_prefix (r := r)
    ⟨(g.nodes.drop i).flatMap Node.results ++ g.weights.map Weight.tensor, ?_⟩
  have parts := congrArg (List.flatMap Node.results) (List.take_append_drop i g.nodes)
  rw [List.flatMap_append] at parts
  rw [all, tensors, ← parts]
  simp only [List.append_assoc]

/-- A graph compiles when it is accepted, and then to the one model that holds all of it. -/
theorem compile_eq_ok : g.compile options name = .ok m ↔ g.Accepted options ∧ g.Yields name m := by
  simp only [compile, bind_eq_ok, Prod.exists, registers_declareInput.foldlM_eq_ok,
    compileNodes_eq_ok, registers_materializeWeight.foldlM_eq_ok, checkOutputs_eq_ok, pure_eq_ok,
    Nat.zero_add]
  constructor
  · rintro ⟨r, ⟨inputs, declared⟩, s, ops, ⟨results, count, each⟩, t, ⟨weights, materialized⟩, -,
      ⟨known, distinctOutputs, -⟩, rfl⟩
    -- The last registry holds everything, so its names are those of the graph, and distinct.
    have all : t.tensors = g.tensors := by
      rw [materialized, results, declared]
      rfl
    have named : t.names = g.names := by rw [← map_name_tensors, ← all, Registry.names]
    have distinct : g.names.Nodup := named ▸ t.distinct
    have compiled : ∀ (i : Nat) (node : Node) (op : Operator),
        g.nodes[i]? = some node → ops[i]? = some op →
          ∃ kind, node.CompilesTo options i (g.InScope i) g.HasShape kind op := by
      intro i node op hn ho
      obtain ⟨u, before, compiled⟩ := each i node op hn ho
      rw [declared] at before
      exact (compileNode_eq_ok_iff_of_registered before distinct).mp compiled
    constructor
    · refine ⟨inputs, distinct, fun i node hn => ?_, weights, distinctOutputs, named ▸ known⟩
      have inside : i < ops.length := count ▸ (List.getElem?_eq_some_iff.mp hn).1
      obtain ⟨kind, compiles⟩ := compiled i node _ hn (List.getElem?_eq_getElem inside)
      exact ⟨kind, _, compiles⟩
    · refine ⟨rfl, all, count, fun i node op hn ho => ?_, rfl⟩
      obtain ⟨kind, compiles⟩ := compiled i node op hn ho
      exact ⟨kind, compiles.ofKind, compiles.built⟩
  · rintro ⟨⟨inputs, distinct, nodes, weights, distinctOutputs, known⟩,
      ⟨rfl, all, count, operators, sameOutputs⟩⟩
    have named : m.tensors.names = g.names := by rw [← map_name_tensors, ← all, Registry.names]
    -- The registries on the way are front parts of the one of the model.
    obtain ⟨r, declared⟩ := exists_registered all 0
    obtain ⟨s, results⟩ := exists_registered all g.nodes.length
    rw [List.take_zero, List.flatMap_nil, List.append_nil] at declared
    rw [List.take_length, ← declared] at results
    refine ⟨r, ⟨inputs, declared⟩, s, m.operators, ⟨results, count, fun i node op hn ho => ?_⟩,
      m.tensors, ⟨weights, ?_⟩, (), ⟨named ▸ known, distinctOutputs, by simp⟩, ?_⟩
    · obtain ⟨t, before⟩ := exists_registered all i
      obtain ⟨kind, op', compiles⟩ := nodes i node hn
      obtain ⟨kind', ofKind, built⟩ := operators i node op hn ho
      obtain rfl : kind' = kind := Option.some.inj (ofKind.symm.trans compiles.ofKind)
      obtain rfl : op = op' := Except.ok.inj (built.symm.trans compiles.built)
      exact ⟨t, by rw [before, declared],
        (compileNode_eq_ok_iff_of_registered before distinct).mpr ⟨kind', compiles⟩⟩
    · rw [all, results, declared]
      rfl
    · rw [← sameOutputs]

/-- An accepted graph has a model. -/
theorem Accepted.exists_yields (accepted : g.Accepted options) (name : String) :
    ∃ m, g.Yields name m := by
  have built : ∀ (i : Nat) (node : Node), g.nodes[i]? = some node → ∃ op kind,
      Kind.ofLabel? node.kindLabel = some kind ∧ (node.draft kind i).complete kind = .ok op := by
    intro i node source
    obtain ⟨kind, op, compiles⟩ := accepted.nodes i node source
    exact ⟨op, kind, compiles.ofKind, compiles.built⟩
  obtain ⟨operators, count, each⟩ := exists_list_of_forall built
  have distinct : (g.tensors.map Tensor.name).Nodup := map_name_tensors g ▸ accepted.distinct
  exact ⟨⟨name, operators, ⟨g.tensors, distinct⟩, g.outputs⟩, rfl, rfl, count, each, rfl⟩

/-- An operator comes from the node at its position. -/
theorem Yields.exists_operator (yields : g.Yields name m) {i : Nat} {node : Node}
    (source : g.nodes[i]? = some node) : ∃ op kind, m.operators[i]? = some op ∧
      Kind.ofLabel? node.kindLabel = some kind ∧ (node.draft kind i).complete kind = .ok op := by
  have inside : i < m.operators.length := yields.count ▸ (List.getElem?_eq_some_iff.mp source).1
  have found := List.getElem?_eq_getElem inside
  obtain ⟨kind, ofKind, built⟩ := yields.operators i node _ source found
  exact ⟨_, kind, found, ofKind, built⟩

/-- Exactly the accepted graphs compile. -/
theorem compiles_iff_accepted (g : Graph) (options : Options) (name : String) :
    (∃ m, g.compile options name = .ok m) ↔ g.Accepted options := by
  constructor
  · intro h
    obtain ⟨m, compiled⟩ := h
    exact (compile_eq_ok.mp compiled).1
  · intro accepted
    obtain ⟨m, yields⟩ := accepted.exists_yields name
    exact ⟨m, compile_eq_ok.mpr ⟨accepted, yields⟩⟩

/-- A model holds its graph unchanged: the inputs, the results of the nodes and the weights in this
order, one operator for each node, and the outputs. -/
theorem content_of_compile {g : Graph} {options : Options} {name : String} {m : Model}
    (compiled : g.compile options name = .ok m) :
    m.name = name ∧
      m.tensors.tensors =
        g.inputs.map (fun input => ⟨input.name, .float32, some input.shape, .input⟩) ++
          g.nodes.flatMap (fun node =>
            node.outputs.map fun output => ⟨output, .float32, none, .intermediate⟩) ++
          g.weights.map (fun weight =>
            ⟨weight.name, .float32, some weight.shape, .initialized weight.data⟩) ∧
      m.operators.length = g.nodes.length ∧
      (∀ (i : Nat) (node : Node), g.nodes[i]? = some node →
        ∃ kind operation, Kind.ofLabel? node.kindLabel = some kind ∧
          (node.draft kind i).read ((node.draft kind i).readOperation kind) = .ok operation ∧
          m.operators[i]? = some
            { name := node.name.getD s!"{kind.name}_{i}", operation, inputs := node.inputs,
              outputs := node.outputs, elementType := .float32 }) ∧
      m.outputs = g.outputs := by
  obtain ⟨-, yields⟩ := compile_eq_ok.mp compiled
  refine ⟨yields.name, yields.tensors, yields.count, fun i node source => ?_, yields.outputs⟩
  have inside : i < m.operators.length := yields.count ▸ (List.getElem?_eq_some_iff.mp source).1
  have found := List.getElem?_eq_getElem inside
  obtain ⟨kind, ofKind, built⟩ := yields.operators i node _ source found
  obtain ⟨-, -, asked, same⟩ := Draft.complete_eq_ok.mp built
  exact ⟨kind, _, ofKind, asked, found.trans (congrArg some same)⟩

/-- A layer of a network: a matrix product without a name of its own, a rectifier, a transposition. -/
def layer : Graph where
  inputs := [{ name := "x", shape := [3, 2] }]
  nodes := [
    { kindLabel := "'onnx::Gemm'", attributes := .ofList [("transB", .int 1)],
      inputs := ["x", "w", "b"], outputs := ["h"], outputTypes := ["Float"] },
    { name := some "act", kindLabel := "rectifier", inputs := ["h"], outputs := ["a"],
      outputTypes := ["float32"] },
    { kindLabel := "transpose", attributes := .ofList [("perm", .ints [1, 0])],
      inputs := ["a"], outputs := ["y"], outputTypes := ["torch.FloatTensor"] }]
  weights := [
    { name := "w", shape := [1, 2], data := [0, 0, 128, 63, 0, 0, 0, 64] },
    { name := "b", shape := [1], data := [0, 0, 0, 0] }]
  outputs := ["y", "h"]

/-- The model of the layer. -/
def layerModel : Model where
  name := "model"
  operators := [
    { name := "Gemm_0", operation := .gemm ⟨.one, .one, false, true⟩, inputs := ["x", "w", "b"],
      outputs := ["h"], elementType := .float32 },
    { name := "act", operation := .relu, inputs := ["h"], outputs := ["a"],
      elementType := .float32 },
    { name := "Transpose_2", operation := .transpose [1, 0], inputs := ["a"], outputs := ["y"],
      elementType := .float32 }]
  tensors := {
    tensors := [⟨"x", .float32, some [3, 2], .input⟩, .intermediate "h", .intermediate "a",
      .intermediate "y", ⟨"w", .float32, some [1, 2], .initialized [0, 0, 128, 63, 0, 0, 0, 64]⟩,
      ⟨"b", .float32, some [1], .initialized [0, 0, 0, 0]⟩]
    distinct := by simp [Tensor.intermediate] }
  outputs := ["y", "h"]

theorem compile_layer : layer.compile = .ok layerModel := by decide +kernel

theorem content_of_layer : layer.compile = .ok layerModel ∧ layerModel.outputs = layer.outputs ∧
    layerModel.operators.length = 3 := by
  obtain ⟨-, -, count, -, outputs⟩ := content_of_compile compile_layer
  exact ⟨compile_layer, outputs, count⟩

end Graph
end TensorGraph
