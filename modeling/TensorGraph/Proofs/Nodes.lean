import TensorGraph.Proofs.Building

/-! Compilation of nodes. A node compiles where some names are in scope and the shapes of some of them
are known; a loop over nodes compiles each of them where the results of those before it are
registered. -/
namespace TensorGraph

/-- The type of a node is that of the first label of its outputs. -/
def Node.IsFloat32 (node : Node) : Prop :=
  ∃ label, node.outputTypes.head? = some label ∧ ElementType.ofLabel? label = some .float32

/-- What is known of the operator of a node at a position before its attributes are read. -/
def Node.draft (node : Node) (kind : Kind) (position : Nat) : Draft :=
  { node with name := Graph.nodeName node kind position, elementType := .float32 }

/-- The tensors under the outputs of a node. -/
def Node.results (node : Node) : List Tensor := node.outputs.map .intermediate

/-- A Transpose takes no operand of a known shape but of the rank of its permutation. -/
def Operator.FitsRanks (op : Operator) (HasShape : String → Shape → Prop) : Prop :=
  ∀ permutation, op.operation = .transpose permutation →
    ∀ x ∈ op.inputs, ∀ shape, HasShape x shape → permutation.length = shape.length

/-- A node at a position compiles to an operator of a kind, where some names are in scope and some of
them have known shapes. -/
structure Node.CompilesTo (node : Node) (options : Options) (position : Nat)
    (InScope : String → Prop) (HasShape : String → Shape → Prop) (kind : Kind) (op : Operator) :
    Prop where
  ofKind : Kind.ofLabel? node.kindLabel = some kind
  ofType : node.IsFloat32
  inputs : ∀ x ∈ node.inputs, InScope x
  built : (node.draft kind position).complete kind = .ok op
  ranks : options.checkPermutationRank = true → op.FitsRanks HasShape

theorem Node.fields_of_complete {node : Node} {position : Nat} {kind : Kind} {op : Operator}
    (h : (node.draft kind position).complete kind = .ok op) :
    op.name = Graph.nodeName node kind position ∧ op.inputs = node.inputs ∧
      op.outputs = node.outputs ∧ op.elementType = .float32 := by
  obtain ⟨-, -, -, same⟩ := Draft.complete_eq_ok.mp h
  rw [same]
  exact ⟨rfl, rfl, rfl, rfl⟩

namespace Graph

theorem nodeType_eq_ok {node : Node} {name : String} {kind : Kind} {t : ElementType} :
    nodeType node name kind = .ok t ↔
      ∃ label, node.outputTypes.head? = some label ∧ ElementType.ofLabel? label = some t := by
  rw [nodeType]
  cases node.outputTypes with
  | nil => simp
  | cons label rest => cases read : ElementType.ofLabel? label <;> simp [read]

theorem resolveInputs_eq_ok {weights : List Weight} {r : Registry} {name : String}
    {inputs : List String} {u : Unit} :
    resolveInputs weights r name inputs = .ok u ↔
      ∀ x ∈ inputs, x ∈ r.names ∨ x ∈ weights.map (·.name) := by
  rw [resolveInputs, forM_eq_ok]
  refine forall₂_congr fun x _ => ?_
  split
  · simp_all
  · simp_all

theorem checkRank_eq_ok {weights : List Weight} {r : Registry} {op : Operator} {u : Unit}
    (built : op.WellBuilt) :
    checkRank weights r op = .ok u ↔
      op.FitsRanks fun x shape => knownShape? weights r x = some shape := by
  have arity := built.inputs
  rw [checkRank]
  cases operation : op.operation with
  | gemm scaling => simp [Operator.FitsRanks, operation]
  | relu => simp [Operator.FitsRanks, operation]
  | transpose permutation =>
    rw [Operator.kind, operation] at arity
    obtain ⟨x, single⟩ := List.length_eq_one_iff.mp arity
    rw [single]
    cases known : knownShape? weights r x with
    | none => simp [Operator.FitsRanks, operation, single, known]
    | some shape => simp [Operator.FitsRanks, operation, single, known, eq_comm]

/-- The rank check stops at a Transpose of an operand of a known shape of another rank. -/
theorem checkRank_eq_error {weights : List Weight} {r : Registry} {op : Operator} {e : GraphError}
    (built : op.WellBuilt) :
    checkRank weights r op = .error e ↔ ∃ permutation x shape,
      op.operation = .transpose permutation ∧ op.inputs = [x] ∧
        knownShape? weights r x = some shape ∧ shape.length ≠ permutation.length ∧
          e = .invalidAttribute op.name "perm"
            (.rankMismatch permutation.length x shape.length) := by
  have arity := built.inputs
  rw [checkRank]
  cases operation : op.operation with
  | gemm scaling => simp
  | relu => simp
  | transpose permutation =>
    rw [Operator.kind, operation] at arity
    obtain ⟨x, single⟩ := List.length_eq_one_iff.mp arity
    rw [single]
    cases known : knownShape? weights r x with
    | none => simp [known]
    | some shape =>
      by_cases rank : shape.length = permutation.length
      · simp [known, rank]
      · simp [known, rank, eq_comm]

theorem compileNode_eq_ok {options : Options} {weights : List Weight} {r : Registry}
    {position : Nat} {node : Node} {op : Operator} :
    compileNode options weights r position node = .ok op ↔
      ∃ kind, node.CompilesTo options position (fun x => x ∈ r.names ∨ x ∈ weights.map (·.name))
        (fun x shape => knownShape? weights r x = some shape) kind op := by
  simp only [compileNode, bind_eq_ok, Kind.ofLabel_eq_ok, nodeType_eq_ok, resolveInputs_eq_ok]
  constructor
  · intro h
    obtain ⟨kind, ofKind, t, ⟨label, first, type⟩, _, resolved, built, complete, h⟩ := h
    obtain rfl : t = .float32 := (Draft.complete_eq_ok.mp complete).2.1
    have wellBuilt := Draft.wellBuilt_of_complete complete
    by_cases checked : options.checkPermutationRank = true
    · rw [if_pos checked, bind_eq_ok] at h
      obtain ⟨_, ranks, h⟩ := h
      cases h
      exact ⟨kind, ofKind, ⟨label, first, type⟩, resolved, complete,
        fun _ => (checkRank_eq_ok wellBuilt).mp ranks⟩
    · rw [if_neg checked] at h
      cases h
      exact ⟨kind, ofKind, ⟨label, first, type⟩, resolved, complete, fun h => absurd h checked⟩
  · intro h
    obtain ⟨kind, ofKind, ⟨label, first, type⟩, resolved, complete, ranks⟩ := h
    refine ⟨kind, ofKind, .float32, ⟨label, first, type⟩, (), resolved, op, complete, ?_⟩
    by_cases checked : options.checkPermutationRank = true
    · rw [if_pos checked, bind_eq_ok]
      exact ⟨(), (checkRank_eq_ok (Draft.wellBuilt_of_complete complete)).mpr (ranks checked), rfl⟩
    · rw [if_neg checked]
      rfl

theorem declareOutputs_eq_ok {node : Node} {r s : Registry} :
    node.outputs.foldlM (declareOutput .float32) r = .ok s ↔
      s.tensors = r.tensors ++ node.results := by
  rw [registers_declareOutput.foldlM_eq_ok, Node.results]
  simp

/-- One step of the loop over the nodes: an operator, and the results of its node at the end of the
registry. -/
theorem compileNodes_cons_eq_ok {options : Options} {weights : List Weight} {r s : Registry}
    {position : Nat} {node : Node} {rest : List Node} {ops : List Operator} :
    compileNodes options weights r position (node :: rest) = .ok (s, ops) ↔
      ∃ op later, ops = op :: later ∧ compileNode options weights r position node = .ok op ∧
        ∃ middle : Registry, middle.tensors = r.tensors ++ node.results ∧
          compileNodes options weights middle (position + 1) rest = .ok (s, later) := by
  have declare : ∀ op middle, compileNode options weights r position node = .ok op →
      (op.outputs.foldlM (declareOutput op.elementType) r = .ok middle ↔
        middle.tensors = r.tensors ++ node.results) := by
    intro op middle compiled
    obtain ⟨kind, compiles⟩ := compileNode_eq_ok.mp compiled
    obtain ⟨-, -, sameOutputs, type⟩ := Node.fields_of_complete compiles.built
    rw [sameOutputs, type, declareOutputs_eq_ok]
  simp only [compileNodes, bind_eq_ok, Prod.exists, pure_eq_ok, Prod.mk.injEq]
  constructor
  · rintro ⟨op, compiled, middle, declared, s, later, ran, rfl, rfl⟩
    exact ⟨op, later, rfl, compiled, middle, (declare op middle compiled).mp declared, ran⟩
  · rintro ⟨op, later, rfl, compiled, middle, declared, ran⟩
    exact ⟨op, compiled, middle, (declare op middle compiled).mpr declared, s, later, ran, rfl, rfl⟩

/-- The nodes compile one by one, each where the results of those before it are registered. -/
theorem compileNodes_eq_ok {options : Options} {weights : List Weight} {r s : Registry}
    {position : Nat} {nodes : List Node} {ops : List Operator} :
    compileNodes options weights r position nodes = .ok (s, ops) ↔
      s.tensors = r.tensors ++ nodes.flatMap Node.results ∧ ops.length = nodes.length ∧
        ∀ i node op, nodes[i]? = some node → ops[i]? = some op →
          ∃ t : Registry, t.tensors = r.tensors ++ (nodes.take i).flatMap Node.results ∧
            compileNode options weights t (position + i) node = .ok op := by
  induction nodes generalizing r position ops with
  | nil =>
    simp only [compileNodes, Except.ok.injEq, Prod.mk.injEq, Registry.ext_iff]
    constructor
    · rintro ⟨same, rfl⟩
      exact ⟨by simpa using same.symm, rfl, fun i node op none => by simp at none⟩
    · rintro ⟨same, short, -⟩
      exact ⟨by simpa using same.symm, (List.length_eq_zero_iff.mp short).symm⟩
  | cons node rest ih =>
    have shift : ∀ i, position + 1 + i = position + (i + 1) := fun i => by omega
    simp only [compileNodes_cons_eq_ok, ih, shift]
    constructor
    · rintro ⟨op, later, rfl, compiled, middle, declared, all, count, each⟩
      refine ⟨by simp [all, declared], by simp [count], fun i n o hn ho => ?_⟩
      cases i with
      | zero =>
        cases hn
        cases ho
        exact ⟨r, by simp, compiled⟩
      | succ i =>
        obtain ⟨t, before, compiled⟩ := each i n o (by simpa using hn) (by simpa using ho)
        exact ⟨t, by simp [before, declared], compiled⟩
    · intro h
      obtain ⟨all, count, each⟩ := h
      cases ops with
      | nil => simp at count
      | cons op later =>
        obtain ⟨t, before, compiled⟩ := each 0 node op rfl rfl
        obtain rfl : t = r := Registry.ext (by simpa using before)
        have isFront : t.tensors ++ node.results <+: s.tensors :=
          ⟨rest.flatMap Node.results, by simp [all]⟩
        -- The registry in the middle need not be run for: it is a part of the last one.
        obtain ⟨middle, declared⟩ := Registry.exists_of_prefix isFront
        refine ⟨op, later, rfl, compiled, middle, declared, by simp [declared, all],
          by simpa using count, fun i n o hn ho => ?_⟩
        obtain ⟨u, before, compiled⟩ := each (i + 1) n o (by simpa using hn) (by simpa using ho)
        exact ⟨u, by simp [before, declared], compiled⟩

/-- Outputs pass when they are registered and new. -/
theorem checkOutputs_eq_ok {r : Registry} {seen outputs : List String} {u : Unit} :
    checkOutputs r seen outputs = .ok u ↔
      (∀ x ∈ outputs, x ∈ r.names) ∧ outputs.Nodup ∧ ∀ x ∈ outputs, x ∉ seen := by
  induction outputs generalizing seen with
  | nil => simp [checkOutputs]
  | cons name rest ih =>
    rw [checkOutputs]
    cases known : r.contains name with
    | false =>
      have unknown : name ∉ r.names := by simpa [Registry.contains] using known
      simp [unknown]
    | true =>
      have known := Registry.contains_iff.mp known
      by_cases repeated : name ∈ seen
      · simp [repeated]
      · simp only [Bool.not_true, Bool.false_eq_true, if_false, repeated]
        rw [ih, List.nodup_cons]
        simp only [List.mem_cons, forall_eq_or_imp, not_or, known, repeated, not_false_eq_true, true_and]
        constructor
        · intro h
          obtain ⟨all, distinct, fresh⟩ := h
          exact ⟨all, ⟨fun mem => (fresh name mem).1 rfl, distinct⟩, fun x mem => (fresh x mem).2⟩
        · intro h
          obtain ⟨all, ⟨new, distinct⟩, fresh⟩ := h
          exact ⟨all, distinct, fun x mem => ⟨fun same => new (same ▸ mem), fresh x mem⟩⟩

end Graph
end TensorGraph
