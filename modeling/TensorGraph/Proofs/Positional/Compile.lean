import TensorGraph.Proofs.Directory
import TensorGraph.Proofs.ShapeInference

/-! Compilation by positions, as it goes on rows and marks. Axes are marked in a row when they are
passed, tensors are read where a directory noted them, and the one operand of a Transpose is the first of
its row. It gives what compilation gives, and never reads or marks where nothing stands. -/
namespace TensorGraph

def Stop.map {ε ε' : Type} (f : ε → ε') : Stop ε → Stop ε'
  | fault e => fault (f e)
  | outside position length => outside position length

namespace Positional

variable {α β : Type}

/-- A row with another item at a position. -/
def replaceItem {ε : Type} (row : List α) (position : Nat) (a : α) : Except (Stop ε) (List α) :=
  if position < row.length then .ok (row.set position a)
  else .error (.outside position row.length)

/-- Places of axes, each of which is marked when it is passed. -/
def placesFrom (marks : List Bool) : List Int64 → Except (Stop AttributeFault) (List Nat)
  | [] => .ok []
  | axis :: rest => do
    if axis.toInt < 0 ∨ (marks.length : Int) ≤ axis.toInt then
      throw (.fault (.axisOutOfRange axis marks.length))
    let place := axis.toInt.toNat
    if ← item marks place then throw (.fault (.axisRepeated axis))
    let marks ← replaceItem marks place true
    let places ← placesFrom marks rest
    return place :: places

def permutationOf (axes : List Int64) : Except (Stop AttributeFault) (List Nat) :=
  placesFrom (List.replicate axes.length false) axes

/-- The axes of a Transpose as they were written. -/
def readAxes (d : Draft) : Reading (List Int64) := do
  match ← AttributeReader.ints "perm" with
  | none => throw (.missingAttribute d.name "perm")
  | some axes =>
    AttributeReader.finish
    return axes

def readOperation (d : Draft) : Kind → Except (Stop GraphError) Operation
  | .transpose => do
    let axes ← plain (d.read (readAxes d))
    let permutation ← (permutationOf axes).mapError (Stop.map (.invalidAttribute d.name "perm"))
    return .transpose permutation
  | kind => plain (d.read (d.readOperation kind))

def complete (d : Draft) (kind : Kind) : Except (Stop GraphError) Operator := do
  plain (d.expectArity (Draft.inputCount kind) 1)
  plain (d.elementType.ensureSupported (.operator d.name kind))
  let operation ← readOperation d kind
  return { d with operation }

def resolveInputs (weights : List Weight) (d : Directory) (name : String) (inputs : List String) :
    Except (Stop GraphError) Unit :=
  inputs.forM fun input =>
    if d.contains input || weights.any (·.name == input) then .ok ()
    else .error (.fault (.unknownTensor input (.operator name)))

def knownRank? (weights : List Weight) (d : Directory) (name : String) :
    Except (Stop GraphError) (Option Nat) := do
  match ← d.get? name with
  | some tensor => return tensor.shape.map List.length
  | none => return (weights.reverse.find? (·.name == name)).map (·.shape.length)

/-- Refuses a Transpose whose first operand has a known shape of another rank. -/
def checkRank (weights : List Weight) (d : Directory) (op : Operator) :
    Except (Stop GraphError) Unit :=
  match op.operation with
  | .transpose permutation => do
    let input ← item op.inputs 0
    match ← knownRank? weights d input with
    | some rank =>
      if rank ≠ permutation.length then
        throw (.fault (.invalidAttribute op.name "perm"
          (.rankMismatch permutation.length input rank)))
    | none => return ()
  | _ => .ok ()

def compileNode (options : Options) (weights : List Weight) (d : Directory) (position : Nat)
    (node : Node) : Except (Stop GraphError) Operator := do
  let kind ← plain (Kind.ofLabel node.kindLabel)
  let name := Graph.nodeName node kind position
  let elementType ← plain (Graph.nodeType node name kind)
  resolveInputs weights d name node.inputs
  let op ← complete { node with name, elementType } kind
  if options.checkPermutationRank then checkRank weights d op
  return op

def declareInput (input : Input) : Changing Unit := do
  let elementType ← ofExcept
    (plain (ElementType.ofSupportedLabel input.typeLabel (.input input.name)))
  let _ ← Directory.declare input.name elementType (some input.shape) .input

def materializeWeight (weight : Weight) : Changing Unit := do
  let elementType ← ofExcept
    (plain (ElementType.ofSupportedLabel weight.typeLabel (.weight weight.name)))
  let _ ← Directory.materialize weight.name elementType weight.shape weight.data

def declareOutput (elementType : ElementType) (name : String) : Changing Unit := do
  let _ ← Directory.declare name elementType none .intermediate

def compileNodes (options : Options) (weights : List Weight) :
    Nat → List Node → Changing (List Operator)
  | _, [] => return []
  | position, node :: rest => do
    let op ← ofExcept (compileNode options weights (← get) position node)
    op.outputs.forM (declareOutput op.elementType)
    let ops ← compileNodes options weights (position + 1) rest
    return op :: ops

def checkOutputs (d : Directory) : List String → List String → Except (Stop GraphError) Unit
  | _, [] => .ok ()
  | seen, name :: rest =>
    if !d.contains name then .error (.fault (.unknownTensor name .outputs))
    else if name ∈ seen then .error (.fault (.duplicateName name))
    else checkOutputs d (name :: seen) rest

def compileGraph (g : Graph) (options : Options) : Changing (List Operator) := do
  g.inputs.forM declareInput
  let ops ← compileNodes options g.weights 0 g.nodes
  g.weights.forM materializeWeight
  ofExcept (checkOutputs (← get) [] g.outputs)
  return ops

/-- Operators and directory of a graph. -/
def compile (g : Graph) (options : Options) : Except (Stop GraphError) (List Operator × Directory) :=
  let (outcome, d) := (compileGraph g options).on .empty
  outcome.map fun ops => (ops, d)

/-- The part of a row from a position on, if the row goes so far. -/
def sliceFrom? (row : List α) (position : Nat) : Option (List α) :=
  if position ≤ row.length then some (row.drop position) else none

/-- Operators and directory of a description without its placeholders. -/
def compileDescription (d : Description) (options : Options) :
    Except (Stop GraphError) (List Operator × Directory) :=
  compile { d.toGraph with inputs := (sliceFrom? d.inputs (d.skipped options)).getD [] } options

/-- Marks of axes: one is marked when it is among those before. -/
def Marks (marks : List Bool) (before : List Int64) : Prop :=
  ∀ axis : Int64, 0 ≤ axis.toInt → axis.toInt < marks.length →
    marks[axis.toInt.toNat]? = some (decide (axis ∈ before))

theorem marks_nil (rank : Nat) : Marks (List.replicate rank false) [] := by
  intro axis low high
  rw [List.length_replicate] at high
  rw [List.getElem?_replicate, if_pos (by omega)]
  simp

theorem Marks.set {marks : List Bool} {before : List Int64} (marked : Marks marks before)
    {axis : Int64} (low : 0 ≤ axis.toInt) (high : axis.toInt < marks.length) :
    Marks (marks.set axis.toInt.toNat true) (axis :: before) := by
  intro other otherLow otherHigh
  rw [List.length_set] at otherHigh
  by_cases same : axis = other
  · subst same
    have inside : axis.toInt.toNat < marks.length := by omega
    rw [List.getElem?_set_self inside]
    simp
  · have apart : axis.toInt.toNat ≠ other.toInt.toNat := by
      intro equal
      exact same (Int64.toInt_inj.mp (by omega))
    rw [List.getElem?_set_ne apart, marked other otherLow otherHigh]
    simp [Ne.symm same]

/-- Marks show what a look back at the axes before shows. -/
theorem placesFrom_eq {marks : List Bool} {before : List Int64} (marked : Marks marks before)
    (axes : List Int64) :
    placesFrom marks axes = plain (match firstFault? marks.length before axes with
      | some fault => .error fault
      | none => .ok (axes.map fun axis => axis.toInt.toNat)) := by
  induction axes generalizing marks before with
  | nil => rfl
  | cons axis rest ih =>
    rw [placesFrom, firstFault?, axisFault?]
    by_cases wrong : axis.toInt < 0 ∨ (marks.length : Int) ≤ axis.toInt
    · rw [if_pos wrong, if_pos wrong]
      rfl
    · -- The row of marks is as long as the axes, so it has a mark at a place in the range.
      rw [if_neg wrong, if_neg wrong]
      have low : 0 ≤ axis.toInt := by omega
      have high : axis.toInt < marks.length := by omega
      have later := ih (marked.set low high)
      rw [List.length_set] at later
      simp only [item_eq_ok (marked axis low high)]
      by_cases repeated : axis ∈ before
      · simp only [repeated, decide_true, if_true]
        rfl
      · have inside : axis.toInt.toNat < marks.length := by omega
        simp only [repeated, decide_false, if_false, replaceItem, if_pos inside]
        change (placesFrom (marks.set axis.toInt.toNat true) rest >>= fun places =>
          pure (axis.toInt.toNat :: places)) = _
        rw [later]
        cases firstFault? marks.length (axis :: before) rest <;> rfl

theorem permutationOf_eq (axes : List Int64) :
    permutationOf axes = plain (TensorGraph.permutationOf axes) := by
  rw [permutationOf, placesFrom_eq (marks_nil _), List.length_replicate]
  rfl

theorem mapError_plain {ε ε' : Type} (f : ε → ε') (x : Except ε α) :
    (plain x).mapError (Stop.map f) = plain (x.mapError f) := by
  cases x <;> rfl

theorem read_readPermutation (d : Draft) :
    d.read d.readPermutation = d.read (readAxes d) >>= fun axes =>
      (TensorGraph.permutationOf axes).mapError (.invalidAttribute d.name "perm") := by
  simp only [Draft.read, AttributeReader.outcome, Draft.readPermutation, readAxes,
    AttributeReader.ints, AttributeReader.fst_run_bind, AttributeReader.run_read]
  rcases AttributeReader.answer _ Attribute.asInts "perm" with e | none | axes
  · rfl
  · rfl
  · simp only [ok_bind, AttributeReader.fst_run_bind, AttributeReader.run_finish]
    cases AttributeReader.leftover? _ with
    | some key => rfl
    | none =>
      change _ = (TensorGraph.permutationOf axes).mapError _
      cases TensorGraph.permutationOf axes <;> rfl

theorem readOperation_eq (d : Draft) (kind : Kind) :
    readOperation d kind = plain (d.read (d.readOperation kind)) := by
  cases kind with
  | gemm => rfl
  | relu => rfl
  | transpose =>
    rw [readOperation, Draft.readOperation]
    simp only [permutationOf_eq, mapError_plain]
    have asked : d.read (Operation.transpose <$> d.readPermutation) =
        Operation.transpose <$> d.read d.readPermutation := by
      simp only [← bind_pure_comp, Draft.read, AttributeReader.outcome, AttributeReader.fst_run_bind]
      rfl
    rw [asked, read_readPermutation, map_bind]
    simp only [plain_bind]
    refine bind_congr fun axes => ?_
    cases TensorGraph.permutationOf axes <;> rfl

theorem complete_eq (d : Draft) (kind : Kind) : complete d kind = plain (d.complete kind) := by
  simp only [complete, Draft.complete, plain_bind, readOperation_eq]
  rfl

theorem resolveInputs_eq (weights : List Weight) (r : Registry) (name : String)
    (inputs : List String) :
    resolveInputs weights r.directory name inputs =
      plain (Graph.resolveInputs weights r name inputs) := by
  induction inputs with
  | nil => rfl
  | cons input rest ih =>
    change (ite _ _ _ >>= fun _ => resolveInputs weights r.directory name rest) =
      plain (ite _ _ _ >>= fun _ => Graph.resolveInputs weights r name rest)
    rw [plain_bind, ih, Registry.contains_directory]
    split <;> rfl

theorem knownRank?_eq (weights : List Weight) (r : Registry) (name : String) :
    knownRank? weights r.directory name =
      .ok ((Graph.knownShape? weights r name).map List.length) := by
  rw [knownRank?, Registry.get?_directory, Graph.knownShape?]
  cases r.get? name with
  | some t => rfl
  | none =>
    cases weights.reverse.find? (·.name == name) <;> rfl

/-- An operator that is well built has the operand that the rank check reads. -/
theorem checkRank_eq (weights : List Weight) (r : Registry) {op : Operator} (built : op.WellBuilt) :
    checkRank weights r.directory op = plain (Graph.checkRank weights r op) := by
  have arity := Operator.inputs_eq_of_wellBuilt built
  rw [checkRank, Graph.checkRank]
  cases operation : op.operation with
  | gemm scaling => rfl
  | relu => rfl
  | transpose permutation =>
    rw [operation] at arity
    obtain ⟨x, inputs⟩ := arity
    rw [inputs]
    simp only [item_eq_ok (List.getElem?_cons_zero), ok_bind, knownRank?_eq]
    cases Graph.knownShape? weights r x with
    | none => rfl
    | some shape =>
      by_cases rank : shape.length = permutation.length
      · simp only [Option.map_some, rank, ne_eq, not_true_eq_false, if_false, if_true]
        rfl
      · simp only [Option.map_some, rank, ne_eq, not_false_eq_true, if_false, if_true]
        rfl

theorem compileNode_eq (options : Options) (weights : List Weight) (r : Registry) (position : Nat)
    (node : Node) :
    compileNode options weights r.directory position node =
      plain (Graph.compileNode options weights r position node) := by
  simp only [compileNode, Graph.compileNode, plain_bind, resolveInputs_eq, complete_eq]
  refine bind_congr fun kind => bind_congr fun t => bind_congr fun _ => ?_
  cases complete : Draft.complete _ kind with
  | error e => rfl
  | ok op =>
    simp only [plain_ok, ok_bind, checkRank_eq weights r (Draft.wellBuilt_of_complete complete)]
    cases options.checkPermutationRank with
    | false => rfl
    | true =>
      cases Graph.checkRank weights r op <;> rfl

/-- On the directory of a registry a computation has the outcome of one on the registry: it stops at
the same fault, or what it returns, with the registry whose directory it leaves, corresponds. -/
structure Follows (x : Changing α) (r : Registry) (y : Except GraphError β)
    (Corresponds : α → Registry → β → Prop) : Prop where
  of_ok : ∀ b, y = .ok b → ∃ a s, x.on r.directory = (.ok a, s.directory) ∧ Corresponds a s b
  of_error : ∀ e, y = .error e → (x.on r.directory).1 = .error (.fault e)

namespace Follows

variable {γ δ : Type} {x : Changing α} {r : Registry} {y : Except GraphError β}
  {R : α → Registry → β → Prop} {S : γ → Registry → δ → Prop}

theorem error_bind {e : GraphError} (stopped : (x.on r.directory).1 = .error (.fault e))
    (f : α → Changing γ) : ((x >>= f).on r.directory).1 = .error (.fault e) := by
  rw [Changing.on_bind]
  split
  · simp_all
  · simp_all

/-- Sequences correspond when their parts do. -/
theorem bind (follows : Follows x r y R) {f : α → Changing γ} {g : β → Except GraphError δ}
    (next : ∀ a s b, R a s b → Follows (f a) s (g b) S) : Follows (x >>= f) r (y >>= g) S := by
  cases y with
  | error e =>
    refine ⟨nofun, ?_⟩
    rintro _ ⟨⟩
    exact error_bind (follows.of_error e rfl) f
  | ok b =>
    obtain ⟨a, s, ran, corresponds⟩ := follows.of_ok b rfl
    have joined : (x >>= f).on r.directory = (f a).on s.directory := by
      rw [Changing.on_bind, ran]
    obtain ⟨later, stops⟩ := next a s b corresponds
    constructor
    · rw [joined]
      exact later
    · rw [joined]
      exact stops

theorem pure {a : α} {b : β} (corresponds : R a r b) : Follows (Pure.pure a) r (.ok b) R := by
  refine ⟨?_, nofun⟩
  rintro _ ⟨⟩
  exact ⟨a, r, rfl, corresponds⟩

theorem get_bind {f : Directory → Changing α} (follows : Follows (f r.directory) r y R) :
    Follows ((get : Changing Directory) >>= f) r y R :=
  ⟨follows.of_ok, follows.of_error⟩

theorem ofExcept (r : Registry) (y : Except GraphError β) :
    Follows (ofExcept (plain y)) r y fun a s b => a = b ∧ r = s := by
  constructor
  · rintro b rfl
    exact ⟨b, r, rfl, rfl, rfl⟩
  · rintro e rfl
    rfl

theorem call {x : Changing Tensor} {y : Except GraphError (Tensor × Registry)}
    (inStep : x.on r.directory = Directory.view r y) : Follows x r y fun t s b => (t, s) = b := by
  constructor
  · rintro ⟨t, s⟩ rfl
    exact ⟨t, s, inStep, rfl⟩
  · rintro e rfl
    exact congrArg Prod.fst inStep

theorem forM {f : α → Changing Unit} {g : Registry → α → Except GraphError Registry}
    (each : ∀ r a, Follows (f a) r (g r a) fun _ s b => s = b) (r : Registry) (xs : List α) :
    Follows (xs.forM f) r (xs.foldlM g r) fun _ s b => s = b := by
  induction xs generalizing r with
  | nil => exact .pure rfl
  | cons a rest ih =>
    rw [List.foldlM_cons]
    refine (each r a).bind ?_
    rintro _ s _ rfl
    exact ih s

end Follows

theorem follows_declareInput (r : Registry) (input : Input) :
    Follows (declareInput input) r (Graph.declareInput r input) fun _ s b => s = b := by
  rw [declareInput, Graph.declareInput]
  refine (Follows.ofExcept r _).bind ?_
  rintro t _ _ ⟨rfl, rfl⟩
  refine (Follows.call (Directory.on_declare ..)).bind ?_
  rintro _ s _ rfl
  exact .pure rfl

theorem follows_materializeWeight (r : Registry) (weight : Weight) :
    Follows (materializeWeight weight) r (Graph.materializeWeight r weight) fun _ s b => s = b := by
  rw [materializeWeight, Graph.materializeWeight]
  refine (Follows.ofExcept r _).bind ?_
  rintro t _ _ ⟨rfl, rfl⟩
  refine (Follows.call (Directory.on_materialize ..)).bind ?_
  rintro _ s _ rfl
  exact .pure rfl

theorem follows_declareOutput (t : ElementType) (r : Registry) (name : String) :
    Follows (declareOutput t name) r (Graph.declareOutput t r name) fun _ s b => s = b := by
  rw [declareOutput, Graph.declareOutput]
  refine (Follows.call (Directory.on_declare ..)).bind ?_
  rintro _ s _ rfl
  exact .pure rfl

theorem follows_compileNodes (options : Options) (weights : List Weight) (r : Registry)
    (position : Nat) (nodes : List Node) :
    Follows (compileNodes options weights position nodes) r
      (Graph.compileNodes options weights r position nodes) fun ops s b => (s, ops) = b := by
  induction nodes generalizing r position with
  | nil => exact .pure rfl
  | cons node rest ih =>
    rw [compileNodes, Graph.compileNodes]
    refine .get_bind ?_
    rw [compileNode_eq]
    refine (Follows.ofExcept r _).bind ?_
    rintro op _ _ ⟨rfl, rfl⟩
    refine (Follows.forM (follows_declareOutput op.elementType) _ op.outputs).bind ?_
    rintro _ s _ rfl
    refine (ih s (position + 1)).bind ?_
    rintro ops t _ rfl
    exact .pure rfl

theorem checkOutputs_eq (r : Registry) (seen outputs : List String) :
    checkOutputs r.directory seen outputs = plain (Graph.checkOutputs r seen outputs) := by
  induction outputs generalizing seen with
  | nil => rfl
  | cons name rest ih =>
    rw [checkOutputs, Graph.checkOutputs, Registry.contains_directory]
    split
    · rfl
    · split
      · rfl
      · exact ih (name :: seen)

theorem follows_compileGraph (g : Graph) (options : Options) (name : String) :
    Follows (compileGraph g options) .empty (g.compile options name) fun ops s m =>
      m.operators = ops ∧ m.tensors = s := by
  rw [compileGraph, Graph.compile]
  refine (Follows.forM follows_declareInput .empty g.inputs).bind ?_
  rintro _ r _ rfl
  refine (follows_compileNodes options g.weights r 0 g.nodes).bind ?_
  rintro ops s _ rfl
  refine (Follows.forM follows_materializeWeight s g.weights).bind ?_
  rintro _ t _ rfl
  refine .get_bind ?_
  rw [checkOutputs_eq]
  refine (Follows.ofExcept t _).bind ?_
  rintro _ _ _ ⟨rfl, rfl⟩
  exact .pure ⟨rfl, rfl⟩

/-- Compilation by positions gives what compilation gives. -/
theorem compile_eq (g : Graph) (options : Options) (name : String) :
    compile g options =
      plain ((g.compile options name).map fun m => (m.operators, m.tensors.directory)) := by
  have follows := follows_compileGraph g options name
  have start : Directory.empty = Registry.empty.directory := rfl
  rw [compile, start]
  cases compiled : g.compile options name with
  | error e =>
    have stopped := follows.of_error e compiled
    change ((compileGraph g options).on Registry.empty.directory).1.map _ = _
    rw [stopped]
    rfl
  | ok m =>
    obtain ⟨_, _, ran, rfl, rfl⟩ := follows.of_ok m compiled
    rw [ran]
    rfl

theorem getD_sliceFrom? (row : List α) (position : Nat) :
    (sliceFrom? row position).getD [] = row.drop position := by
  rw [sliceFrom?]
  split
  · rfl
  · rw [List.drop_eq_nil_of_le (by omega)]
    rfl

theorem compileDescription_eq (d : Description) (options : Options) :
    compileDescription d options =
      plain ((d.compile options).map fun m => (m.operators, m.tensors.directory)) := by
  rw [compileDescription, getD_sliceFrom?]
  exact compile_eq _ options d.name

end Positional
end TensorGraph
