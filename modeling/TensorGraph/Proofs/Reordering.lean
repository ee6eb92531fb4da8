import Mathlib.Data.List.Perm.Basic
import TensorGraph.Proofs.Readings
import TensorGraph.Proofs.ShapeInference

/-! The order of a graph. Two graphs of the same inputs, nodes and weights in different orders compile
alike, as long as in both every node comes behind what it refers to: what is accepted and what a model
holds can be said without the order. All that depends on it are the names that are made of positions. -/
namespace TensorGraph

namespace Draft

/-- A draft that completes does so under every name: what it reads is a matter of its attributes. -/
theorem complete_rename {d : Draft} {kind : Kind} {op : Operator} (built : d.complete kind = .ok op)
    (name : String) : ({ d with name } : Draft).complete kind = .ok { op with name } := by
  obtain ⟨arity, type, asked, same⟩ := complete_eq_ok.mp built
  obtain ⟨ofKind, denotes⟩ := readOperation_eq_ok.mp asked
  have again : ({ d with name } : Draft).read (({ d with name } : Draft).readOperation kind) =
      .ok op.operation := readOperation_eq_ok.mpr ⟨ofKind, denotes⟩
  exact complete_eq_ok.mpr ⟨arity, type, again, by rw [same]⟩

end Draft

/-- Operators at two positions that are the same, up to names that are made of kind and position. -/
structure SameOperator (a b : Operator × Nat) : Prop where
  fields : b.1 = { a.1 with name := b.1.name }
  names : a.1.name = b.1.name ∨
    a.1.name = s!"{a.1.kind.name}_{a.2}" ∧ b.1.name = s!"{b.1.kind.name}_{b.2}"

/-- Models that are the same up to the order of their tensors and operators. -/
structure Model.SameUpToOrder (m m' : Model) : Prop where
  tensors : ∀ x, m.tensors.get? x = m'.tensors.get? x
  operators : ∃ ops : List (Operator × Nat),
    List.Forall₂ SameOperator m.operators.zipIdx ops ∧ ops.Perm m'.operators.zipIdx
  outputs : m.outputs = m'.outputs
  shapes : ∀ known, m.shapes = .ok known ↔ m'.shapes = .ok known

/-- Relations between lists, element by element, compose. -/
theorem forall₂_of_forall₂ {α β γ : Type} {R : α → β → Prop} {S : β → γ → Prop} {T : α → γ → Prop}
    (compose : ∀ a b c, R a b → S b c → T a c) {xs : List α} {ys : List β} {zs : List γ}
    (first : List.Forall₂ R xs ys) (second : List.Forall₂ S ys zs) : List.Forall₂ T xs zs := by
  induction first generalizing zs with
  | nil =>
    cases second
    exact .nil
  | cons here _ ih =>
    cases second with
    | cons there later => exact .cons (compose _ _ _ here there) (ih later)

namespace Graph

/-- Graphs of the same inputs, nodes and weights, each in any order, and of the same outputs. -/
structure Reordered (g g' : Graph) : Prop where
  inputs : g.inputs.Perm g'.inputs
  nodes : g.nodes.Perm g'.nodes
  weights : g.weights.Perm g'.weights
  outputs : g.outputs = g'.outputs

/-- Nodes refer to inputs, to weights and to outputs of nodes before them. -/
def Resolved (g : Graph) : Prop :=
  ∀ (i : Nat) (node : Node), g.nodes[i]? = some node → ∀ x ∈ node.inputs, g.InScope i x

/-- An operator at a position comes from a node. -/
def Builds (a : Operator × Nat) (node : Node) : Prop :=
  ∃ kind, Kind.ofLabel? node.kindLabel = some kind ∧ (node.draft kind a.2).complete kind = .ok a.1

/-- Operators that come from one node are the same but for generated names. -/
theorem Builds.sameOperator {a b : Operator × Nat} {node : Node} (builds : Builds a node)
    (builds' : Builds b node) : SameOperator a b := by
  obtain ⟨op, i⟩ := a
  obtain ⟨op', j⟩ := b
  obtain ⟨kind, ofKind, built⟩ := builds
  obtain ⟨kind', ofKind', built'⟩ := builds'
  obtain rfl : kind = kind' := Option.some.inj (ofKind.symm.trans ofKind')
  have renamed := Draft.complete_rename built (nodeName node kind j)
  obtain rfl : { op with name := nodeName node kind j } = op' :=
    Except.ok.inj (renamed.symm.trans built')
  have named : op.name = nodeName node kind i := (Node.fields_of_complete built).1
  have isKind : op.kind = kind := Draft.kind_of_readOperation (Draft.complete_eq_ok.mp built).2.2.1
  refine ⟨rfl, ?_⟩
  cases own : node.name with
  | some name => exact .inl (by simp [named, nodeName, own])
  | none =>
    refine .inr ⟨?_, ?_⟩
    · simp [named, nodeName, own, isKind]
    · simp [nodeName, own, ← isKind, Operator.kind]

namespace Reordered

variable {g g' : Graph} {options : Options} {name name' : String} {m m' : Model}

theorem symm (reordered : g.Reordered g') : g'.Reordered g :=
  ⟨reordered.inputs.symm, reordered.nodes.symm, reordered.weights.symm, reordered.outputs.symm⟩

variable (reordered : g.Reordered g')
include reordered

theorem perm_names : g.names.Perm g'.names :=
  ((reordered.inputs.map _).append (reordered.nodes.flatMap fun _ _ => .refl _)).append
    (reordered.weights.map _)

theorem perm_tensors : g.tensors.Perm g'.tensors :=
  ((reordered.inputs.map _).append (reordered.nodes.flatMap fun _ _ => .refl _)).append
    (reordered.weights.map _)

theorem hasShape {x : String} {shape : Shape} (known : g'.HasShape x shape) :
    g.HasShape x shape := by
  rcases known with ⟨input, mem, named, shaped⟩ | ⟨weight, mem, named, shaped⟩
  · exact .inl ⟨input, reordered.inputs.mem_iff.mpr mem, named, shaped⟩
  · exact .inr ⟨weight, reordered.weights.mem_iff.mpr mem, named, shaped⟩

/-- What is accepted in one order is accepted in any other that resolves. -/
theorem accepted (resolved : g'.Resolved) (accepted : g.Accepted options) : g'.Accepted options := by
  constructor
  case inputs =>
    intro input mem
    exact accepted.inputs input (reordered.inputs.mem_iff.mpr mem)
  case distinct => exact reordered.perm_names.nodup_iff.mp accepted.distinct
  case nodes =>
    intro j node source
    obtain ⟨i, source'⟩ := List.mem_iff_getElem?.mp
      (reordered.nodes.mem_iff.mpr (List.mem_of_getElem? source))
    obtain ⟨kind, op, compiles⟩ := accepted.nodes i node source'
    refine ⟨kind, _, compiles.ofKind, compiles.ofType, resolved j node source,
      Draft.complete_rename compiles.built (nodeName node kind j), ?_⟩
    intro checked permutation transpose x used shape known
    exact compiles.ranks checked permutation transpose x used shape (reordered.hasShape known)
  case weights =>
    intro weight mem
    exact accepted.weights weight (reordered.weights.mem_iff.mpr mem)
  case outputs =>
    rw [← reordered.outputs]
    refine ⟨accepted.outputs.1, fun x mem => ?_⟩
    exact reordered.perm_names.mem_iff.mp (accepted.outputs.2 x mem)

end Reordered

namespace Yields

variable {g : Graph} {name : String} {m : Model} (yields : g.Yields name m)
include yields

theorem exists_builds {i : Nat} {node : Node} (source : g.nodes[i]? = some node) :
    ∃ op, m.operators[i]? = some op ∧ Builds (op, i) node := by
  obtain ⟨op, kind, found, ofKind, built⟩ := yields.exists_operator source
  exact ⟨op, found, kind, ofKind, built⟩

theorem builds {i : Nat} {op : Operator} (found : m.operators[i]? = some op) :
    ∃ node, g.nodes[i]? = some node ∧ Builds (op, i) node := by
  obtain ⟨node, source, -⟩ := yields.exists_node found
  exact ⟨node, source, yields.operators i node op source found⟩

theorem forall₂_builds : List.Forall₂ Builds m.operators.zipIdx g.nodes := by
  refine List.forall₂_iff_get.mpr ⟨by simp [yields.count], fun i inside inside' => ?_⟩
  rw [List.length_zipIdx] at inside
  have found : m.operators[i]? = some m.operators[i] := List.getElem?_eq_getElem inside
  have source : g.nodes[i]? = some g.nodes[i] := List.getElem?_eq_getElem inside'
  simp only [List.get_eq_getElem, List.getElem_zipIdx, Nat.zero_add]
  exact yields.operators i _ _ source found

end Yields

namespace Reordered

variable {g g' : Graph} {options : Options} {name name' : String} {m m' : Model}
  (reordered : g.Reordered g') (yields : g.Yields name m) (yields' : g'.Yields name' m')
include reordered yields yields'

theorem perm_tensors_of_yields : m.tensors.tensors.Perm m'.tensors.tensors := by
  rw [yields.tensors, yields'.tensors]
  exact reordered.perm_tensors

theorem get?_eq (x : String) : m.tensors.get? x = m'.tensors.get? x := by
  ext t
  rw [Registry.get?_eq_some_iff, Registry.get?_eq_some_iff,
    (reordered.perm_tensors_of_yields yields yields').mem_iff]

theorem exists_sameOperator {op : Operator} (mem : op ∈ m.operators) :
    ∃ i j op', op' ∈ m'.operators ∧ SameOperator (op', j) (op, i) := by
  obtain ⟨i, found⟩ := List.mem_iff_getElem?.mp mem
  obtain ⟨node, source, builds⟩ := yields.builds found
  obtain ⟨j, source'⟩ := List.mem_iff_getElem?.mp
    (reordered.nodes.mem_iff.mp (List.mem_of_getElem? source))
  obtain ⟨op', found', builds'⟩ := yields'.exists_builds source'
  exact ⟨i, j, op', List.mem_of_getElem? found', builds'.sameOperator builds⟩

/-- The operators of the one model are those of the other in another order. -/
theorem exists_operators : ∃ ops : List (Operator × Nat),
    List.Forall₂ SameOperator m.operators.zipIdx ops ∧ ops.Perm m'.operators.zipIdx := by
  obtain ⟨ops, each, perm⟩ := List.perm_comp_forall₂ reordered.nodes yields'.forall₂_builds.flip
  refine ⟨ops, ?_, perm⟩
  exact forall₂_of_forall₂ (fun a node b builds builds' => builds.sameOperator builds')
    yields.forall₂_builds each

/-- Shapes are consistent with one model when they are with the other. -/
theorem consistent {shapes : String → Shape} (consistent : m'.Consistent shapes) :
    m.Consistent shapes := by
  constructor
  · intro t mem shape declared
    have mem' := (reordered.perm_tensors_of_yields yields yields').mem_iff.mp mem
    exact consistent.declared t mem' shape declared
  · intro op mem
    obtain ⟨i, j, op', mem', same⟩ := reordered.exists_sameOperator yields yields' mem
    have holds := consistent.rules op' mem'
    have fields : op = { op' with name := op.name } := same.fields
    rw [fields]
    exact holds

/-- Inference finds for one model what it finds for the other. -/
theorem shapes_eq_ok (compiled : m.Compiled) (compiled' : m'.Compiled) {known : NameMap Shape}
    (inferred : m'.shapes = .ok known) : m.shapes = .ok known := by
  obtain ⟨form, built⟩ := compiled.exists_form
  obtain ⟨form', built'⟩ := compiled'.exists_form
  obtain ⟨shapes, consistent, records⟩ := (form'.ordered built').shapes_eq_ok.mp inferred
  refine (form.ordered built).shapes_eq_ok.mpr
    ⟨shapes, reordered.consistent yields yields' consistent, fun x => ?_⟩
  -- In the end both know the names of all tensors, and these are the same.
  have names := ((reordered.perm_tensors_of_yields yields yields').map Tensor.name).mem_iff (a := x)
  simp only [records x, form.mem_ready_length_iff, form'.mem_ready_length_iff, Registry.names, names]

end Reordered

/-- Compilation does not depend on the order of inputs, nodes and weights. Where nodes come behind what
they refer to, two orders of a graph both compile or both do not, and their models are the same up to
order, with the same shapes. -/
theorem compile_reordered {g g' : Graph} (reordered : g.Reordered g') (resolved : g.Resolved)
    (resolved' : g'.Resolved) (options : Options) (name : String) :
    ((∃ m, g.compile options name = .ok m) ↔ ∃ m', g'.compile options name = .ok m') ∧
      ∀ m m', g.compile options name = .ok m → g'.compile options name = .ok m' →
        m.SameUpToOrder m' := by
  constructor
  · rw [compiles_iff_accepted, compiles_iff_accepted]
    exact ⟨reordered.accepted resolved', reordered.symm.accepted resolved⟩
  · intro m m' compiled compiled'
    have yields := (compile_eq_ok.mp compiled).2
    have yields' := (compile_eq_ok.mp compiled').2
    constructor
    case tensors => exact reordered.get?_eq yields yields'
    case operators => exact reordered.exists_operators yields yields'
    case outputs => rw [yields.outputs, yields'.outputs, reordered.outputs]
    case shapes =>
      intro known
      constructor
      · exact reordered.symm.shapes_eq_ok yields' yields (.graph compiled') (.graph compiled)
      · exact reordered.shapes_eq_ok yields yields' (.graph compiled) (.graph compiled')

/-- A rectifier and a transposition of one input. -/
def forked : Graph where
  inputs := [{ name := "x", shape := [3, 2] }]
  nodes := [
    { kindLabel := "onnx::Relu", inputs := ["x"], outputs := ["a"], outputTypes := ["Float"] },
    { kindLabel := "transpose", attributes := .ofList [("perm", .ints [1, 0])], inputs := ["x"],
      outputs := ["b"], outputTypes := ["Float"] }]
  outputs := ["b", "a"]

/-- The two nodes compile in either order. -/
theorem compile_reordered_forked : ∃ m m', forked.compile = .ok m ∧
    { forked with nodes := forked.nodes.reverse }.compile = .ok m' ∧ m.SameUpToOrder m' := by
  have reordered : forked.Reordered { forked with nodes := forked.nodes.reverse } :=
    ⟨.refl _, (List.reverse_perm _).symm, .refl _, rfl⟩
  have inputs : ∀ node ∈ forked.nodes, ∀ x ∈ node.inputs, x ∈ forked.inputs.map (·.name) := by
    decide
  have resolved : forked.Resolved := by
    intro i node source x used
    exact .inl (inputs node (List.mem_of_getElem? source) x used)
  have resolved' : { forked with nodes := forked.nodes.reverse }.Resolved := by
    intro i node source x used
    exact .inl (inputs node (List.mem_reverse.mp (List.mem_of_getElem? source)) x used)
  obtain ⟨alike, same⟩ := compile_reordered reordered resolved resolved' {} defaultName
  have passes : forked.compile.isOk = true := by decide +kernel
  cases compiled : forked.compile with
  | error e =>
    rw [compiled] at passes
    cases passes
  | ok m =>
    obtain ⟨m', compiled'⟩ := alike.mp ⟨m, compiled⟩
    exact ⟨m, m', rfl, compiled', same m m' compiled compiled'⟩

end Graph
end TensorGraph
