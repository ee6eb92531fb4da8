import TensorGraph.Proofs.ShapeInference

/-! The rank check at compilation as an early form of inference. With the check compilation has the
outcome that it has without, or else it complains about a Transpose of an input or a weight whose rank is
not that of the permutation. Where shapes can be inferred there is nothing to complain about. -/
namespace TensorGraph

/-- Two outcomes that are the same, unless the first one is a fault of a sort. -/
def SameUnless {ε α : Type} (P : ε → Prop) (x y : Except ε α) : Prop :=
  x = y ∨ ∃ e, x = .error e ∧ P e

namespace SameUnless

variable {ε α β : Type} {P : ε → Prop}

theorem same (x : Except ε α) : SameUnless P x x := .inl rfl

theorem bind {x y : Except ε α} {f g : α → Except ε β} (first : SameUnless P x y)
    (next : ∀ a, x = .ok a → SameUnless P (f a) (g a)) : SameUnless P (x >>= f) (y >>= g) := by
  rcases first with rfl | ⟨e, stopped, sort⟩
  · cases ran : x with
    | error e => exact same _
    | ok a => exact next a ran
  · exact .inr ⟨e, bind_eq_error.mpr (.inl stopped), sort⟩

end SameUnless

namespace Graph

/-- What the rank check complains about: a Transpose of an input or a weight, of another rank than its
permutation. -/
inductive RankComplaint (g : Graph) : GraphError → Prop
  | intro {i : Nat} {node : Node} {op : Operator} {permutation : List Nat} {x : String}
    {shape : Shape} :
    g.nodes[i]? = some node → Kind.ofLabel? node.kindLabel = some .transpose →
      (node.draft .transpose i).complete .transpose = .ok op →
        op.operation = .transpose permutation → node.inputs = [x] → g.HasShape x shape →
          shape.length ≠ permutation.length →
            RankComplaint g (.invalidAttribute (nodeName node .transpose i) "perm"
              (.rankMismatch permutation.length x shape.length))

/-- A registry in which all shapes are those of inputs of a graph. -/
def ShapedBy (g : Graph) (r : Registry) : Prop :=
  ∀ t ∈ r.tensors, ∀ shape, t.shape = some shape →
    ∃ input ∈ g.inputs, input.name = t.name ∧ input.shape = shape

variable {g : Graph} {options : Options} {weights : List Weight} {r s : Registry} {op : Operator}
  {e : GraphError} {name : String} {m : Model}

/-- With the check a node compiles as it does without, and is checked after that. -/
theorem compileNode_checked (position : Nat) (node : Node) :
    compileNode { options with checkPermutationRank := true } weights r position node = (do
      let op ← compileNode { options with checkPermutationRank := false } weights r position node
      checkRank weights r op
      return op) := by
  simp only [compileNode, bind_assoc, if_true, Bool.false_eq_true, if_false, pure_bind]

theorem ShapedBy.hasShape (shaped : g.ShapedBy r) {x : String} {shape : Shape}
    (known : knownShape? g.weights r x = some shape) : g.HasShape x shape := by
  rw [knownShape?] at known
  cases found : r.get? x with
  | some t =>
    obtain ⟨mem, rfl⟩ := Registry.mem_of_get? found
    rw [found] at known
    exact .inl (shaped t mem shape known)
  | none =>
    rw [found] at known
    obtain ⟨weight, last, sameShape⟩ := Option.map_eq_some_iff.mp known
    have mem := List.mem_reverse.mp (List.mem_of_find?_eq_some last)
    exact .inr ⟨weight, mem, by simpa using List.find?_some last, sameShape⟩

/-- The results of a node have no shapes yet. -/
theorem ShapedBy.of_results (shaped : g.ShapedBy r) {node : Node}
    (declared : s.tensors = r.tensors ++ node.results) : g.ShapedBy s := by
  intro t mem shape known
  rw [declared, List.mem_append] at mem
  rcases mem with mem | mem
  · exact shaped t mem shape known
  · obtain ⟨output, -, rfl⟩ := List.mem_map.mp mem
    cases known

theorem shapedBy_inputs (declared : r.tensors = g.inputs.map Input.tensor) : g.ShapedBy r := by
  intro t mem shape known
  rw [declared] at mem
  obtain ⟨input, source, rfl⟩ := List.mem_map.mp mem
  exact ⟨input, source, rfl, Option.some.inj known⟩

theorem sameUnless_compileNode (shaped : g.ShapedBy r) {i : Nat} {node : Node}
    (source : g.nodes[i]? = some node) :
    SameUnless g.RankComplaint
      (compileNode { options with checkPermutationRank := true } g.weights r i node)
      (compileNode { options with checkPermutationRank := false } g.weights r i node) := by
  rw [compileNode_checked]
  cases compiled : compileNode { options with checkPermutationRank := false } g.weights r i node with
  | error e => exact .same _
  | ok op =>
    rw [ok_bind]
    cases checked : checkRank g.weights r op with
    | ok _ => exact .same _
    | error e =>
      obtain ⟨kind, ofKind, -, -, built, -⟩ := compileNode_eq_ok.mp compiled
      obtain ⟨permutation, x, shape, transpose, inputs, known, rank, rfl⟩ :=
        (checkRank_eq_error (Draft.wellBuilt_of_complete built)).mp checked
      -- A Transpose comes from a draft that was completed as one.
      obtain rfl : .transpose = kind := by
        have asked := (Draft.complete_eq_ok.mp built).2.2.1
        rw [transpose] at asked
        exact Draft.kind_of_readOperation asked
      obtain ⟨named, sameInputs, -, -⟩ := Node.fields_of_complete built
      rw [named]
      rw [sameInputs] at inputs
      exact .inr ⟨_, rfl, .intro source ofKind built transpose inputs (shaped.hasShape known) rank⟩

theorem sameUnless_compileNodes (shaped : g.ShapedBy r) {position : Nat} {nodes : List Node}
    (sources : ∀ (i : Nat) (node : Node), nodes[i]? = some node →
      g.nodes[position + i]? = some node) :
    SameUnless g.RankComplaint
      (compileNodes { options with checkPermutationRank := true } g.weights r position nodes)
      (compileNodes { options with checkPermutationRank := false } g.weights r position nodes) := by
  induction nodes generalizing r position with
  | nil => exact .same _
  | cons node rest ih =>
    refine (sameUnless_compileNode shaped (sources 0 node rfl)).bind fun op compiled => ?_
    refine (SameUnless.same _).bind fun s declared => ?_
    obtain ⟨kind, compiles⟩ := compileNode_eq_ok.mp compiled
    obtain ⟨-, -, sameOutputs, type⟩ := Node.fields_of_complete compiles.built
    rw [sameOutputs, type, declareOutputs_eq_ok] at declared
    refine (ih (shaped.of_results declared) fun i later found => ?_).bind fun _ _ => .same _
    have shift : position + 1 + i = position + (i + 1) := by omega
    rw [shift]
    exact sources (i + 1) later found

/-- The check changes nothing but that it complains. -/
theorem sameUnless_compile (g : Graph) (options : Options) (name : String) :
    SameUnless g.RankComplaint (g.compile { options with checkPermutationRank := true } name)
      (g.compile { options with checkPermutationRank := false } name) := by
  refine (SameUnless.same _).bind fun r declared => ?_
  have inputs := (registers_declareInput.foldlM_eq_ok.mp declared).2
  have sources : ∀ (i : Nat) (node : Node), g.nodes[i]? = some node →
      g.nodes[0 + i]? = some node := by
    intro i node found
    rwa [Nat.zero_add]
  exact (sameUnless_compileNodes (shapedBy_inputs inputs) sources).bind fun _ _ => .same _

/-- What the check complains about violates a rule: no shapes are consistent with the model. -/
theorem RankComplaint.not_consistent (complaint : g.RankComplaint e) (yields : g.Yields name m)
    (shapes : String → Shape) : ¬ m.Consistent shapes := by
  intro consistent
  obtain @⟨i, node, op, permutation, x, shape, source, ofKind, built, transpose, inputs, known, rank⟩ :=
    complaint
  obtain ⟨op', kind, found, ofKind', built'⟩ := yields.exists_operator source
  obtain rfl : .transpose = kind := Option.some.inj (ofKind.symm.trans ofKind')
  obtain rfl : op = op' := Except.ok.inj (built.symm.trans built')
  obtain ⟨output, -, rule⟩ := consistent.rules op (List.mem_of_getElem? found)
  obtain ⟨-, sameInputs, -, -⟩ := Node.fields_of_complete built
  rw [transpose, sameInputs, inputs, List.map_singleton, Operator.rule_transpose] at rule
  obtain ⟨t, mem, declared, rfl⟩ := hasShape_iff.mp known
  rw [consistent.declared t (yields.tensors ▸ mem) shape declared] at rule
  exact rank rule.1

/-- The rank check is conservative. With it compilation has the same outcome as without, or complains of
a rank; and it never complains about a graph that compiles without it and whose shapes can be inferred. -/
theorem rankCheck_conservative (g : Graph) (options : Options) (name : String) :
    let checked := g.compile { options with checkPermutationRank := true } name
    let unchecked := g.compile { options with checkPermutationRank := false } name
    (checked = unchecked ∨ ∃ e, checked = .error e ∧ g.RankComplaint e) ∧
      ∀ m known, unchecked = .ok m → m.shapes = .ok known → checked = .ok m := by
  refine ⟨sameUnless_compile g options name, ?_⟩
  intro m known compiled inferred
  rcases sameUnless_compile g options name with same | ⟨e, -, complaint⟩
  · exact same.trans compiled
  · have yields := (compile_eq_ok.mp compiled).2
    obtain ⟨form, built⟩ := (Model.Compiled.graph compiled).exists_form
    obtain ⟨shapes, consistent, -⟩ := (form.ordered built).shapes_eq_ok.mp inferred
    exact absurd consistent (complaint.not_consistent yields shapes)

/-- A matrix that is transposed along the one axis it is said to have. -/
def flattened : Graph where
  inputs := [{ name := "x", shape := [3, 2] }]
  nodes := [
    { kindLabel := "transpose", attributes := .ofList [("perm", .ints [0])], inputs := ["x"],
      outputs := ["y"], outputTypes := ["Float"] }]
  outputs := ["y"]

/-- The check complains about the flattened matrix and lets the layer pass. -/
theorem rankCheck_flattened_layer :
    (∃ e, flattened.compile = .error e ∧ flattened.RankComplaint e) ∧
      layer.compile = .ok layerModel := by
  have differ : flattened.compile ≠ flattened.compile { checkPermutationRank := false } := by
    decide +kernel
  have unchecked : layer.compile { checkPermutationRank := false } = .ok layerModel := by
    decide +kernel
  have inferred : layerModel.shapes = .ok (.ofList [("a", [3, 1]), ("b", [1]), ("h", [3, 1]),
      ("w", [1, 2]), ("x", [3, 2]), ("y", [1, 3])]) := by decide +kernel
  constructor
  · exact (rankCheck_conservative flattened {} defaultName).1.resolve_left differ
  · exact (rankCheck_conservative layer {} defaultName).2 _ _ unchecked inferred

end Graph
end TensorGraph
