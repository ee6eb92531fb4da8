import TensorGraph.Proofs.IgnoredFlag
import TensorGraph.Proofs.Permutations
import TensorGraph.Proofs.Placeholders
import TensorGraph.Proofs.ProductAttributes

/-! Parameters of operators, and what is made of other attributes in their place. Where a node is built,
it is built with every attribute that suits, and the rest of the graph goes on as before; any other
attribute is refused under the name of the parameter, and nothing else is found wrong in front of it. -/
namespace TensorGraph

/-- A parameter that an operator takes from its attributes. -/
inductive Parameter where
  | alpha | beta | transB | perm
  deriving DecidableEq

namespace Parameter

def kind : Parameter → Kind
  | alpha | beta | transB => .gemm
  | perm => .transpose

/-- The name of its attribute. -/
def key : Parameter → String
  | alpha => "alpha"
  | beta => "beta"
  | transB => "transB"
  | perm => "perm"

/-- The attributes that are a value of a parameter: scales, flags, axes rearranged. -/
def Suits : Parameter → Attribute → Prop
  | alpha, a | beta, a => ∃ x, IsScale (some a) x
  | transB, a => IsFlag (some a)
  | perm, a => ∃ axes, a = .ints axes ∧ Rearranged axes

end Parameter

theorem Attributes.Only.set {attributes : Attributes} {key : String} {asked : List String}
    (only : attributes.Only asked) (mem : key ∈ asked) (found : Option Attribute) :
    Attributes.Only (NameMap.set attributes key found) asked := by
  intro other there
  by_cases same : key = other
  · exact same ▸ mem
  · refine only other (not_not.mp fun absent => ?_)
    rw [← NameMap.get?_eq_none_iff] at absent
    refine NameMap.get?_eq_none_iff.mp ?_ there
    rw [NameMap.get?_set, if_neg same, absent]

namespace Attribute

variable {a : Attribute}

theorem exists_asFloat_eq_error (other : ¬ ∃ x, IsScale (some a) x) :
    ∃ fault, a.asFloat = .error fault := by
  rw [exists_isScale_iff] at other
  cases a with
  | int i => simp at other
  | float x =>
    refine ⟨.notFinite x, ?_⟩
    rw [asFloat, if_neg]
    simpa using other
  | _ => exact ⟨_, rfl⟩

theorem exists_asFlag_eq_error (other : ¬ IsFlag (some a)) : ∃ fault, a.asFlag = .error fault := by
  cases a with
  | int i => exact absurd .int other
  | _ => exact ⟨_, rfl⟩

theorem exists_asInts_eq_error (other : ∀ axes, a ≠ .ints axes) : ∃ fault, a.asInts = .error fault := by
  cases a with
  | ints axes => exact absurd rfl (other axes)
  | _ => exact ⟨_, rfl⟩

end Attribute

namespace Draft

variable {α : Type} {d : Draft} {a : Attribute}

theorem get?_set_self (d : Draft) (key : String) (a : Attribute) :
    (d.set key (some a)).attributes.get? key = some a := by
  rw [set, NameMap.get?_set, if_pos rfl]

theorem answer_set_eq_error {convert : Attribute → Except AttributeFault α} {fault : AttributeFault}
    (refused : convert a = .error fault) (key : String) :
    (d.set key (some a)).answer convert key = .error (.invalidAttribute d.name key fault) := by
  rw [answer, AttributeReader.answer]
  simp only [get?_set_self, refused]
  rfl

theorem complete_eq_error {kind : Kind} {e : GraphError}
    (arity : d.inputs.length = inputCount kind ∧ d.outputs.length = 1) (type : d.elementType = .float32)
    (failed : d.read (d.readOperation kind) = .error e) : d.complete kind = .error e := by
  have counted : d.expectArity (inputCount kind) 1 = .ok () := expectArity_eq_ok.mpr arity
  have supported : d.elementType.ensureSupported (.operator d.name kind) = .ok () :=
    ElementType.ensureSupported_eq_ok.mpr type
  rw [complete, counted, ok_bind, supported, ok_bind, failed]
  rfl

variable {p : Parameter} {op : Operator}

/-- Other axes of a Transpose decide by themselves. -/
theorem complete_set_axes (built : d.complete .transpose = .ok op) (axes : List Int64) :
    (d.set "perm" (some (.ints axes))).complete .transpose = match permutationOf axes with
      | .error fault => .error (.invalidAttribute d.name "perm" fault)
      | .ok permutation => .ok ⟨d.name, .transpose permutation, d.inputs, d.outputs, .float32⟩ := by
  obtain ⟨⟨input, output⟩, type, -, -⟩ := complete_eq_ok.mp built
  obtain ⟨_, _, has, -, -⟩ := exists_axes_of_complete built
  have unary : (d.set "perm" (some (.ints axes))).Unary := ⟨input, output, type⟩
  have only := (hasAxes_iff.mp has).2.set (by decide : "perm" ∈ ["perm"]) (some (.ints axes))
  refine complete_transpose unary (hasAxes_iff.mpr ⟨?_, only⟩)
  rw [Attributes.Gives, get?_set_self]
  rfl

/-- A draft that completes does so with every attribute that suits. -/
theorem exists_complete_set (built : d.complete p.kind = .ok op) (suits : p.Suits a) :
    ∃ op', (d.set p.key (some a)).complete p.kind = .ok op' := by
  cases p
  case perm =>
    obtain ⟨axes, rfl, rearranged⟩ := suits
    have completes := complete_set_axes built axes
    rw [permutationOf_eq_ok.mpr ⟨rearranged, rfl⟩] at completes
    exact ⟨_, completes⟩
  all_goals
    obtain ⟨arity, type, only, ⟨alpha, beta⟩, ⟨flagA, flagB⟩, given⟩ :=
      exists_complete_gemm_iff.mp ⟨op, built⟩
    refine exists_complete_gemm_iff.mpr ⟨arity, type, only.set (by decide) _, ?_⟩
    simp only [Parameter.key, set, NameMap.get?_set, String.reduceEq, if_true, if_false]
  case alpha => exact ⟨⟨suits, beta⟩, ⟨flagA, flagB⟩, given⟩
  case beta => exact ⟨⟨alpha, suits⟩, ⟨flagA, flagB⟩, given⟩
  case transB => exact ⟨⟨alpha, beta⟩, ⟨flagA, suits⟩, .inr rfl⟩

/-- What is read in front of the other attribute is read as before. -/
theorem answer_set_eq_ok {convert : Attribute → Except AttributeFault α} {found : Option α}
    {key other : String} (gives : d.attributes.Gives convert other found) (apart : key ≠ other) :
    (d.set key (some a)).answer convert other = .ok found :=
  (answer_set_of_ne convert apart).trans (answer_eq_ok.mpr gives)

/-- What is no list of axes, and axes that are not rearranged, are what a Transpose is refused for. -/
theorem exists_complete_set_perm_eq_error (built : d.complete .transpose = .ok op)
    (other : ¬ ∃ axes, a = .ints axes ∧ Rearranged axes) : ∃ fault,
      (d.set "perm" (some a)).complete .transpose = .error (.invalidAttribute d.name "perm" fault) := by
  by_cases ints : ∃ axes, a = .ints axes
  · obtain ⟨axes, rfl⟩ := ints
    have completes := complete_set_axes built axes
    cases outcome : permutationOf axes with
    | ok permutation => exact absurd ⟨axes, rfl, (permutationOf_eq_ok.mp outcome).1⟩ other
    | error fault =>
      rw [outcome] at completes
      exact ⟨fault, completes⟩
  · obtain ⟨arity, type, -, -⟩ := complete_eq_ok.mp built
    obtain ⟨fault, refused⟩ := Attribute.exists_asInts_eq_error fun axes same => ints ⟨axes, same⟩
    refine ⟨fault, complete_eq_error arity type ?_⟩
    rw [read_readOperation]
    simp only [read_readPermutation, answer_set_eq_error refused]
    rfl

/-- An attribute that does not suit is what the draft is refused for. -/
theorem exists_complete_set_eq_error (built : d.complete p.kind = .ok op) (other : ¬ p.Suits a) :
    ∃ fault, (d.set p.key (some a)).complete p.kind = .error (.invalidAttribute d.name p.key fault) := by
  cases p
  case perm => exact exists_complete_set_perm_eq_error built other
  all_goals
    obtain ⟨arity, type, scaling, denotes, -⟩ := complete_gemm_eq_ok.mp built
    cases denotes with
    | gemm givesAlpha givesBeta givesA givesB decided only => ?_
  case alpha =>
    obtain ⟨fault, refused⟩ := Attribute.exists_asFloat_eq_error other
    refine ⟨fault, complete_eq_error arity type ?_⟩
    rw [read_readOperation]
    simp only [Parameter.kind, Parameter.key, read_readScaling, answer_set_eq_error refused]
    rfl
  case beta =>
    obtain ⟨fault, refused⟩ := Attribute.exists_asFloat_eq_error other
    have alpha := answer_set_eq_ok (a := a) givesAlpha (by decide : "beta" ≠ "alpha")
    refine ⟨fault, complete_eq_error arity type ?_⟩
    rw [read_readOperation]
    simp only [Parameter.kind, Parameter.key, read_readScaling, answer_set_eq_error refused, alpha]
    rfl
  case transB =>
    obtain ⟨fault, refused⟩ := Attribute.exists_asFlag_eq_error other
    have alpha := answer_set_eq_ok (a := a) givesAlpha (by decide : "transB" ≠ "alpha")
    have beta := answer_set_eq_ok (a := a) givesBeta (by decide : "transB" ≠ "beta")
    have flagA := answer_set_eq_ok (a := a) givesA (by decide : "transB" ≠ "transA")
    refine ⟨fault, complete_eq_error arity type ?_⟩
    rw [read_readOperation]
    simp only [Parameter.kind, Parameter.key, read_readScaling, answer_set_eq_error refused, alpha, beta,
      flagA]
    rfl

end Draft

/-- A node with an attribute under a name. -/
def Node.withAttribute (node : Node) (key : String) (a : Attribute) : Node :=
  { node with attributes := node.attributes.insert key a }

namespace Graph

variable {options : Options} {weights : List Weight} {r : Registry} {position : Nat} {node : Node}

theorem compileNode_eq_error {kind : Kind} {e : GraphError}
    (ofKind : Kind.ofLabel? node.kindLabel = some kind) (ofType : node.IsFloat32)
    (inputs : ∀ x ∈ node.inputs, x ∈ r.names ∨ x ∈ weights.map (·.name))
    (failed : (node.draft kind position).complete kind = .error e) :
    compileNode options weights r position node = .error e := by
  have typed : nodeType node (nodeName node kind position) kind = .ok .float32 :=
    nodeType_eq_ok.mpr ofType
  have resolved : resolveInputs weights r (nodeName node kind position) node.inputs = .ok () :=
    resolveInputs_eq_ok.mpr inputs
  rw [compileNode, Kind.ofLabel_eq_ok.mpr ofKind, ok_bind]
  simp only [typed, resolved, ok_bind]
  rw [Node.draft] at failed
  rw [failed]
  rfl

variable {p : Parameter} {a : Attribute} {op : Operator}

/-- Where a node is built, so is the node with an attribute that suits. -/
theorem exists_compileNode_withAttribute (ofKind : Kind.ofLabel? node.kindLabel = some p.kind)
    (unchecked : p = .perm → options.checkPermutationRank = false)
    (compiled : compileNode options weights r position node = .ok op) (suits : p.Suits a) :
    ∃ op', compileNode options weights r position (node.withAttribute p.key a) = .ok op' := by
  obtain ⟨kind, compiles⟩ := compileNode_eq_ok.mp compiled
  obtain rfl := Option.some.inj (compiles.ofKind.symm.trans ofKind)
  obtain ⟨op', built⟩ := Draft.exists_complete_set compiles.built suits
  refine ⟨op', compileNode_eq_ok.mpr ⟨p.kind, ofKind, compiles.ofType, compiles.inputs, built, ?_⟩⟩
  intro checked permutation isTranspose
  have kind : op'.operation.kind = p.kind := Draft.kind_of_readOperation (Draft.complete_eq_ok.mp built).2.2.1
  rw [isTranspose] at kind
  cases p with
  | perm => simp [unchecked rfl] at checked
  | _ => cases kind

theorem exists_compileNode_withAttribute_eq_error
    (ofKind : Kind.ofLabel? node.kindLabel = some p.kind)
    (compiled : compileNode options weights r position node = .ok op) (other : ¬ p.Suits a) :
    ∃ fault, compileNode options weights r position (node.withAttribute p.key a) =
      .error (.invalidAttribute (nodeName node p.kind position) p.key fault) := by
  obtain ⟨kind, compiles⟩ := compileNode_eq_ok.mp compiled
  obtain rfl := Option.some.inj (compiles.ofKind.symm.trans ofKind)
  obtain ⟨fault, failed⟩ := Draft.exists_complete_set_eq_error compiles.built other
  exact ⟨fault, compileNode_eq_error ofKind compiles.ofType compiles.inputs failed⟩

theorem compileNodes_append (front rest : List Node) :
    compileNodes options weights r position (front ++ rest) = (do
      let (middle, ops) ← compileNodes options weights r position front
      let (s, later) ← compileNodes options weights middle (position + front.length) rest
      return (s, ops ++ later)) := by
  induction front generalizing r position with
  | nil =>
    rw [List.nil_append, compileNodes, ok_bind]
    exact (bind_pure _).symm
  | cons node front ih =>
    rw [List.cons_append, compileNodes, compileNodes]
    simp only [ih, bind_assoc, pure_bind, List.length_cons, List.cons_append, Nat.add_assoc,
      Nat.add_comm 1]

/-- What the node at a position finds registered. -/
def scope (g : Graph) (options : Options) (position : Nat) : Except GraphError Registry := do
  let r ← g.inputs.foldlM declareInput .empty
  let (r, _) ← compileNodes options g.weights r 0 (g.nodes.take position)
  return r

/-- The node at a position is built to an operator, and all in front of it is compiled. -/
def BuildsAt (g : Graph) (options : Options) (position : Nat) (op : Operator) : Prop :=
  ∃ r node, g.scope options position = .ok r ∧ g.nodes[position]? = some node ∧
    compileNode options g.weights r position node = .ok op

/-- A graph with an attribute under a name of the node at a position. -/
def withAttribute (g : Graph) (position : Nat) (key : String) (a : Attribute) : Graph :=
  { g with nodes := g.nodes.modify position (·.withAttribute key a) }

variable {g : Graph} {name key : String}

theorem scope_eq_ok : g.scope options position = .ok r ↔ ∃ start ops,
    g.inputs.foldlM declareInput .empty = .ok start ∧
      compileNodes options g.weights start 0 (g.nodes.take position) = .ok (r, ops) := by
  simp only [scope, bind_eq_ok, pure_eq_ok, Prod.exists]
  constructor
  · rintro ⟨start, declared, _, ops, ran, rfl⟩
    exact ⟨start, ops, declared, ran⟩
  · rintro ⟨start, ops, declared, ran⟩
    exact ⟨start, declared, _, ops, ran, rfl⟩

/-- A compilation that comes to a node goes on with it. -/
theorem compile_of_scope (reached : g.scope options position = .ok r)
    (found : g.nodes[position]? = some node) (name : String) : ∃ ops, g.compile options name = (do
      let (s, later) ← compileNodes options g.weights r position (node :: g.nodes.drop (position + 1))
      let tensors ← g.weights.foldlM materializeWeight s
      checkOutputs tensors [] g.outputs
      return { name, operators := ops ++ later, tensors, outputs := g.outputs }) := by
  obtain ⟨start, ops, declared, ran⟩ := scope_eq_ok.mp reached
  obtain ⟨inside, rfl⟩ := List.getElem?_eq_some_iff.mp found
  refine ⟨ops, ?_⟩
  have split : g.nodes = g.nodes.take position ++ g.nodes[position] :: g.nodes.drop (position + 1) := by
    rw [← List.drop_eq_getElem_cons inside, List.take_append_drop]
  have count : 0 + (g.nodes.take position).length = position := by
    rw [List.length_take]
    omega
  rw [compile, declared, ok_bind]
  conv_lhs => rw [split]
  rw [compileNodes_append, ran, ok_bind, count]
  simp only [bind_assoc, pure_bind]

/-- What a node is refused for is what the graph is refused for. -/
theorem compile_eq_error {e : GraphError} (reached : g.scope options position = .ok r)
    (found : g.nodes[position]? = some node)
    (failed : compileNode options g.weights r position node = .error e) :
    g.compile options name = .error e := by
  obtain ⟨ops, same⟩ := compile_of_scope reached found name
  rw [same, compileNodes, failed]
  rfl

/-- Behind a node that is built nothing matters of it but its results. -/
theorem exists_compile_iff (reached : g.scope options position = .ok r)
    (found : g.nodes[position]? = some node)
    (compiled : compileNode options g.weights r position node = .ok op) :
    (∃ m, g.compile options name = .ok m) ↔ ∃ middle s later tensors,
      middle.tensors = r.tensors ++ node.results ∧
        compileNodes options g.weights middle (position + 1) (g.nodes.drop (position + 1)) =
          .ok (s, later) ∧
        g.weights.foldlM materializeWeight s = .ok tensors ∧ checkOutputs tensors [] g.outputs = .ok () := by
  obtain ⟨ops, same⟩ := compile_of_scope reached found name
  simp only [same, bind_eq_ok, compileNodes_cons_eq_ok, compiled, pure_eq_ok, Prod.exists]
  constructor
  · rintro ⟨m, s, _, ⟨_, later, rfl, -, middle, declared, ran⟩, tensors, filled, _, checked, -⟩
    exact ⟨middle, s, later, tensors, declared, ran, filled, checked⟩
  · rintro ⟨middle, s, later, tensors, declared, ran, filled, checked⟩
    exact ⟨_, s, _, ⟨op, later, rfl, rfl, middle, declared, ran⟩, tensors, filled, (), checked, rfl⟩

theorem getElem?_withAttribute (found : g.nodes[position]? = some node) (key : String) (a : Attribute) :
    (g.withAttribute position key a).nodes[position]? = some (node.withAttribute key a) := by
  rw [withAttribute, List.getElem?_modify_eq, found]
  rfl

theorem scope_withAttribute (g : Graph) (options : Options) (position : Nat) (key : String)
    (a : Attribute) : (g.withAttribute position key a).scope options position = g.scope options position := by
  have front : (g.withAttribute position key a).nodes.take position = g.nodes.take position := by
    rw [withAttribute, List.take_modify, List.modify_eq_self (by simp)]
  rw [scope, scope, front]
  rfl

theorem drop_withAttribute (g : Graph) (position : Nat) (key : String) (a : Attribute) :
    (g.withAttribute position key a).nodes.drop (position + 1) = g.nodes.drop (position + 1) :=
  List.drop_modify_of_lt _ _ _ _ (Nat.lt_succ_self position)

section

variable (ofKind : Kind.ofLabel? node.kindLabel = some p.kind)
  (unchecked : p = .perm → options.checkPermutationRank = false)
  (found : g.nodes[position]? = some node) (built : ∃ op, g.BuildsAt options position op)

include ofKind found built

/-- What does not suit is what the whole graph is refused for. -/
theorem exists_compile_withAttribute_eq_error (other : ¬ p.Suits a) :
    ∃ fault, (g.withAttribute position p.key a).compile options name =
      .error (.invalidAttribute (nodeName node p.kind position) p.key fault) := by
  obtain ⟨op, r, node', reached, found', compiled⟩ := built
  obtain rfl := Option.some.inj (found.symm.trans found')
  obtain ⟨fault, failed⟩ := exists_compileNode_withAttribute_eq_error ofKind compiled other
  exact ⟨fault, compile_eq_error ((scope_withAttribute ..).trans reached)
    (getElem?_withAttribute found _ _) failed⟩

include unchecked

/-- In a graph where a node is built, it is built with just the attributes that suit. -/
theorem exists_buildsAt_withAttribute_iff :
    (∃ op, (g.withAttribute position p.key a).BuildsAt options position op) ↔ p.Suits a := by
  obtain ⟨op, r, node', reached, found', compiled⟩ := built
  obtain rfl := Option.some.inj (found.symm.trans found')
  have there := getElem?_withAttribute found p.key a
  constructor
  · rintro ⟨op', r', node', reached', found', compiled'⟩
    rw [scope_withAttribute, reached, Except.ok.injEq] at reached'
    rw [there, Option.some.injEq] at found'
    subst reached' found'
    by_contra other
    obtain ⟨fault, failed⟩ := exists_compileNode_withAttribute_eq_error ofKind compiled other
    cases compiled'.symm.trans failed
  · intro suits
    obtain ⟨op', compiled'⟩ := exists_compileNode_withAttribute ofKind unchecked compiled suits
    exact ⟨op', r, _, (scope_withAttribute ..).trans reached, there, compiled'⟩

/-- The graph compiles just as well with an attribute that suits. -/
theorem exists_compile_withAttribute_iff (suits : p.Suits a) :
    (∃ m, (g.withAttribute position p.key a).compile options name = .ok m) ↔
      ∃ m, g.compile options name = .ok m := by
  obtain ⟨op, r, node', reached, found', compiled⟩ := built
  obtain rfl := Option.some.inj (found.symm.trans found')
  obtain ⟨op', compiled'⟩ := exists_compileNode_withAttribute ofKind unchecked compiled suits
  rw [exists_compile_iff reached found compiled, exists_compile_iff
    ((scope_withAttribute ..).trans reached) (getElem?_withAttribute found _ _) compiled',
    drop_withAttribute]
  rfl

end

end Graph
end TensorGraph
