import TensorGraph.Proofs.GraphShapes

/-! A Gemm and the transpositions that it makes unnecessary. Where both operands of a Gemm are transposed
by nodes of their own and its flags are negated, a graph compiles and has shapes as it does without, and
the shapes are the same. -/
namespace TensorGraph

/-- Nodes that use only names that are known in front of them, each of which makes its outputs known. -/
def Follow : List String → List Node → Prop
  | _, [] => True
  | known, node :: rest => (∀ x ∈ node.inputs, x ∈ known) ∧ Follow (known ++ node.outputs) rest

variable {known known' : List String} {front back nodes : List Node}

theorem follow_append : Follow known (front ++ back) ↔
    Follow known front ∧ Follow (known ++ front.flatMap (·.outputs)) back := by
  induction front generalizing known with
  | nil => simp [Follow]
  | cons node rest ih =>
    simp only [List.cons_append, Follow, ih, List.flatMap_cons, List.append_assoc, and_assoc]

/-- Whether nodes follow depends on the names that they use. -/
theorem follow_congr (same : ∀ node ∈ nodes, ∀ x ∈ node.inputs, x ∈ known ↔ x ∈ known') :
    Follow known nodes ↔ Follow known' nodes := by
  induction nodes generalizing known known' with
  | nil => rfl
  | cons node rest ih =>
    obtain ⟨here, later⟩ := List.forall_mem_cons.mp same
    refine and_congr (forall₂_congr here) (ih fun node mem x used => ?_)
    rw [List.mem_append, List.mem_append, later node mem x used]

theorem follow_iff : Follow known nodes ↔ ∀ (i : Nat) (node : Node), nodes[i]? = some node →
    ∀ x ∈ node.inputs, x ∈ known ++ (nodes.take i).flatMap (·.outputs) := by
  induction nodes generalizing known with
  | nil => simp [Follow]
  | cons first rest ih =>
    rw [Follow, ih]
    constructor
    · rintro ⟨here, later⟩ i node source x used
      cases i with
      | zero =>
        cases source
        simpa using here x used
      | succ i => simpa using later i node source x used
    · intro each
      refine ⟨fun x used => by simpa using each 0 first rfl x used, fun i node source x used => ?_⟩
      simpa using each (i + 1) node source x used

theorem Graph.resolved_iff_follow {g : Graph} : g.Resolved ↔ Follow g.givenNames g.nodes := by
  rw [follow_iff, Resolved]
  refine forall_congr' fun i => forall₂_congr fun node _ => forall₂_congr fun x _ => ?_
  rw [List.mem_append, mem_flatMap_take, givenNames, List.mem_append, InScope, or_assoc]

namespace Attributes

/-- Attributes that differ in nothing but the truth of the flag of B. -/
def Flipped (attributes attributes' : Attributes) : Prop :=
  ∃ flag flag' : Int64, attributes.get? "transB" = some (.int flag) ∧
    attributes'.get? "transB" = some (.int flag') ∧ (flag' = 0 ↔ flag ≠ 0) ∧
      ∀ key ≠ "transB", attributes.get? key = attributes'.get? key

end Attributes

/-- A scaling in which both operands count as stored the other way. -/
def Scaling.flipped (s : Scaling) : Scaling := { s with transA := !s.transA, transB := !s.transB }

@[simp] theorem Scaling.flipped_flipped (s : Scaling) : s.flipped.flipped = s := by
  simp [flipped]

namespace Attributes.Flipped

variable {attributes attributes' : Attributes} (flipped : attributes.Flipped attributes')
include flipped

theorem symm : attributes'.Flipped attributes := by
  obtain ⟨flag, flag', flagged, flagged', negated, others⟩ := flipped
  refine ⟨flag', flag, flagged', flagged, ?_, fun key other => (others key other).symm⟩
  rw [ne_eq, negated, not_not]

theorem gives {α : Type} {convert : Attribute → Except AttributeFault α} {key : String}
    {found : Option α} (other : key ≠ "transB") (gives : attributes.Gives convert key found) :
    attributes'.Gives convert key found := by
  obtain ⟨-, -, -, -, -, others⟩ := flipped
  rwa [Gives, ← others key other]

theorem gives_flag {flagB : Option Bool} (gives : attributes.Gives Attribute.asFlag "transB" flagB) :
    ∃ flag, flagB = some flag ∧ attributes'.Gives Attribute.asFlag "transB" (some !flag) := by
  obtain ⟨flag, flag', flagged, flagged', negated, -⟩ := flipped
  rw [Gives, flagged, Option.map_some, eq_comm, Option.map_eq_some_iff] at gives
  obtain ⟨truth, rfl, converted⟩ := gives
  refine ⟨truth, rfl, ?_⟩
  rw [Gives, flagged', Except.ok.inj converted]
  by_cases zero : flag = 0
  · have other : flag' ≠ 0 := by simpa [zero] using negated
    simp [Attribute.asFlag, zero, other]
  · simp [Attribute.asFlag, zero, negated.mpr zero]

theorem only {asked : List String} (only : attributes.Only asked) (flag : "transB" ∈ asked) :
    attributes'.Only asked := by
  intro key mem
  by_cases other : key = "transB"
  · exact other ▸ flag
  · obtain ⟨-, -, -, -, -, others⟩ := flipped
    apply only key
    by_contra absent
    have none := NameMap.get?_eq_none_iff.mpr absent
    rw [others key other] at none
    exact NameMap.get?_eq_none_iff.mp none mem

/-- Flipped attributes stand for the scaling that is stored the other way. -/
theorem denotes {s : Scaling} (denotes : attributes.Denotes (.gemm s)) :
    attributes'.Denotes (.gemm s.flipped) := by
  cases denotes with
  | gemm givesAlpha givesBeta givesA givesB decided only =>
    obtain ⟨flag, rfl, givesB'⟩ := flipped.gives_flag givesB
    obtain rfl : flag = _ := Option.some.inj decided
    exact .gemm (flipped.gives (by decide) givesAlpha) (flipped.gives (by decide) givesBeta)
      (flipped.gives (by decide) givesA) givesB' rfl (flipped.only only (by decide))

end Attributes.Flipped

namespace Shape

theorem reverse_stored (transposed : Bool) (rows columns : Nat) :
    (stored transposed rows columns).reverse = stored (!transposed) rows columns := by
  cases transposed <;> rfl

/-- The reverse of a matrix is a matrix that is stored the other way. -/
theorem reverse_eq_stored {shape : Shape} {transposed : Bool} {rows columns : Nat} :
    shape.reverse = stored (!transposed) rows columns ↔ shape = stored transposed rows columns := by
  rw [← reverse_stored, List.reverse_inj]

end Shape

namespace Operation

variable {left right bias shape result : Shape}

/-- A Gemm does not tell operands that are transposed from operands that count as such. -/
theorem rule_gemm_flipped {s : Scaling} :
    (gemm s.flipped).Rule [left.reverse, right.reverse, bias] result ↔
      (gemm s).Rule [left, right, bias] result := by
  simp only [Operator.rule_gemm, Scaling.flipped, Shape.reverse_eq_stored]

theorem length_of_rule_gemm {s : Scaling} (rule : (gemm s).Rule [left, right, bias] result) :
    left.length = 2 ∧ right.length = 2 := by
  obtain ⟨rows, inner, columns, rfl, rfl, -⟩ := Operator.rule_gemm.mp rule
  exact ⟨Shape.length_stored .., Shape.length_stored ..⟩

/-- Exchanging the two axes of a matrix reverses its shape. -/
theorem rule_exchange : (transpose [1, 0]).Rule [shape] result ↔
    shape.length = 2 ∧ result = shape.reverse := by
  rw [Operator.rule_transpose]
  constructor
  · rintro ⟨rank, sameRank, extents⟩
    obtain ⟨rows, columns, rfl⟩ := List.length_eq_two.mp rank
    obtain ⟨first, second, rfl⟩ := List.length_eq_two.mp sameRank
    have here := extents 0 1 rfl
    have there := extents 1 0 rfl
    simp only [List.getElem?_cons_zero, List.getElem?_cons_succ, Option.some.injEq] at here there
    exact ⟨rank, by simp [here, there]⟩
  · rintro ⟨rank, rfl⟩
    obtain ⟨rows, columns, rfl⟩ := List.length_eq_two.mp rank
    refine ⟨rfl, rfl, fun i axis found => ?_⟩
    match i with
    | 0 | 1 =>
      cases found
      rfl
    | i + 2 => simp at found

end Operation

namespace Node

theorem holds_gemm_iff {node : Node} {a b c y : String} {shapes : String → Shape}
    (ofKind : Kind.ofLabel? node.kindLabel = some .gemm) (inputs : node.inputs = [a, b, c])
    (outputs : node.outputs = [y]) : node.Holds shapes ↔ ∃ s, node.Performs (.gemm s) ∧
      (Operation.gemm s).Rule [shapes a, shapes b, shapes c] (shapes y) := by
  constructor
  · rintro ⟨operation, output, performs, single, rule⟩
    obtain rfl : y = output := by simpa [outputs] using single
    rw [inputs] at rule
    have isGemm : operation.kind = .gemm := Option.some.inj (performs.ofKind.symm.trans ofKind)
    cases operation with
    | gemm s => exact ⟨s, performs, rule⟩
    | relu => cases isGemm
    | transpose => cases isGemm
  · rintro ⟨s, performs, rule⟩
    refine ⟨_, y, performs, outputs, ?_⟩
    rw [inputs]
    exact rule

/-- A node that exchanges the axes of a matrix. -/
structure Exchanges (node : Node) (x y : String) : Prop where
  ofKind : Kind.ofLabel? node.kindLabel = some .transpose
  attributes : node.attributes = .ofList [("perm", .ints [1, 0])]
  inputs : node.inputs = [x]
  outputs : node.outputs = [y]

variable {node : Node} {x y : String} {shapes : String → Shape}

theorem Exchanges.performs (exchanges : node.Exchanges x y) (ofType : node.IsFloat32) :
    node.Performs (.transpose [1, 0]) := by
  have gives : node.attributes.Gives Attribute.asInts "perm" (some [1, 0]) := by
    rw [exchanges.attributes]
    rfl
  have only : node.attributes.Only ["perm"] := by
    rw [exchanges.attributes, Attributes.Only]
    decide
  refine ⟨exchanges.ofKind, ofType, ?_, ?_, .transpose gives only rfl⟩
  · rw [exchanges.inputs]
    rfl
  · rw [exchanges.outputs]
    rfl

/-- Such a node asks for a matrix and gives it the reverse shape. -/
theorem Exchanges.holds_iff (exchanges : node.Exchanges x y) (ofType : node.IsFloat32) :
    node.Holds shapes ↔ (shapes x).length = 2 ∧ shapes y = (shapes x).reverse := by
  have performs := exchanges.performs ofType
  rw [← Operation.rule_exchange]
  constructor
  · rintro ⟨operation, output, performs', single, rule⟩
    obtain rfl : operation = .transpose [1, 0] :=
      performs.operation_eq performs'.ofKind (performs'.built 0)
    obtain rfl : y = output := by simpa [exchanges.outputs] using single
    rwa [exchanges.inputs] at rule
  · intro rule
    refine ⟨_, y, performs, exchanges.outputs, ?_⟩
    rw [exchanges.inputs]
    exact rule

end Node

namespace Graph

/-- A name that a graph does not mention. -/
structure Fresh (g : Graph) (x : String) : Prop where
  names : x ∉ g.names
  outputs : x ∉ g.outputs
  inputs : ∀ node ∈ g.nodes, x ∉ node.inputs

/-- A Gemm of a graph whose flag of B is an integer, one of the other truth, and nodes that transpose the
operands under fresh names. -/
structure Unfolding (g : Graph) where
  front : List Node
  gemm : Node
  back : List Node
  split : g.nodes = front ++ gemm :: back
  ofKind : Kind.ofLabel? gemm.kindLabel = some .gemm
  left : String
  right : String
  bias : String
  output : String
  inputs : gemm.inputs = [left, right, bias]
  outputs : gemm.outputs = [output]
  flag : Int64
  negated : Int64
  flagged : gemm.attributes.get? "transB" = some (.int flag)
  negates : negated = 0 ↔ flag ≠ 0
  exchangeLeft : Node
  exchangeRight : Node
  left' : String
  right' : String
  ofLeft : exchangeLeft.Exchanges left left'
  ofRight : exchangeRight.Exchanges right right'
  typesLeft : exchangeLeft.outputTypes = gemm.outputTypes
  typesRight : exchangeRight.outputTypes = gemm.outputTypes
  apart : left' ≠ right'
  freshLeft : g.Fresh left'
  freshRight : g.Fresh right'

namespace Unfolding

variable {g : Graph} (u : g.Unfolding) {shapes : String → Shape}

/-- The Gemm on the transposed operands, which count as stored the other way. -/
def gemm' : Node :=
  { u.gemm with
    attributes := u.gemm.attributes.insert "transB" (.int u.negated)
    inputs := [u.left', u.right', u.bias] }

/-- The graph with three nodes in place of the Gemm. -/
def graph : Graph :=
  { g with nodes := u.front ++ u.exchangeLeft :: u.exchangeRight :: u.gemm' :: u.back }

theorem nodes_graph : u.graph.nodes =
    u.front ++ u.exchangeLeft :: u.exchangeRight :: u.gemm' :: u.back := rfl

theorem givenNames_graph : u.graph.givenNames = g.givenNames := rfl

theorem mem_nodes : u.gemm ∈ g.nodes := by simp [u.split]

/-- The graph has two more names. -/
theorem perm_names : u.graph.names.Perm (u.left' :: u.right' :: g.names) := by
  let before := g.inputs.map (·.name) ++ u.front.flatMap (·.outputs)
  let behind := u.output :: (u.back.flatMap (·.outputs) ++ g.weights.map (·.name))
  have folded : g.names = before ++ behind := by
    simp [names, u.split, u.outputs, before, behind]
  have unfolded : u.graph.names = before ++ u.left' :: u.right' :: behind := by
    simp [names, graph, u.ofLeft.outputs, u.ofRight.outputs, gemm', u.outputs, before, behind]
  rw [folded, unfolded]
  exact List.perm_middle.trans (List.perm_middle.cons _)

theorem nodup_names_iff : u.graph.names.Nodup ↔ g.names.Nodup := by
  rw [u.perm_names.nodup_iff, List.nodup_cons, List.nodup_cons, List.mem_cons]
  simp [u.apart, u.freshLeft.names, u.freshRight.names]

theorem mem_names_iff {x : String} (left : x ≠ u.left') (right : x ≠ u.right') :
    x ∈ u.graph.names ↔ x ∈ g.names := by
  rw [u.perm_names.mem_iff, List.mem_cons, List.mem_cons]
  simp [left, right]

theorem ne_of_used {node : Node} (mem : node ∈ g.nodes) {x : String} (used : x ∈ node.inputs) :
    x ≠ u.left' ∧ x ≠ u.right' := by
  constructor
  · rintro rfl
    exact u.freshLeft.inputs node mem used
  · rintro rfl
    exact u.freshRight.inputs node mem used

theorem resolved_iff : u.graph.Resolved ↔ g.Resolved := by
  have right := u.ne_of_used u.mem_nodes (x := u.right) (by simp [u.inputs])
  have bias := u.ne_of_used u.mem_nodes (x := u.bias) (by simp [u.inputs])
  rw [resolved_iff_follow, resolved_iff_follow, u.nodes_graph, u.givenNames_graph, u.split,
    follow_append, follow_append]
  refine and_congr_right fun _ => ?_
  generalize g.givenNames ++ u.front.flatMap (·.outputs) = known
  -- Nothing behind the Gemm uses the names that are new in front of it.
  have behind : Follow (known ++ [u.left'] ++ [u.right'] ++ [u.output]) u.back ↔
      Follow (known ++ [u.output]) u.back := by
    refine follow_congr fun node mem x used => ?_
    have other := u.ne_of_used (by simp [u.split, mem]) used
    simp [other]
  simp only [Follow, u.ofLeft.inputs, u.ofLeft.outputs, u.ofRight.inputs, u.ofRight.outputs, gemm',
    u.inputs, u.outputs, behind]
  simp [right, bias, and_assoc]

theorem sound_iff : u.graph.Sound ↔ g.Sound := by
  have outputs : (∀ x ∈ g.outputs, x ∈ u.graph.names) ↔ ∀ x ∈ g.outputs, x ∈ g.names := by
    refine forall₂_congr fun x mem => u.mem_names_iff ?_ ?_
    · rintro rfl
      exact u.freshLeft.outputs mem
    · rintro rfl
      exact u.freshRight.outputs mem
  constructor
  · intro h
    obtain ⟨inputs, distinct, resolved, weights, distinctOutputs, known⟩ := h
    exact ⟨inputs, u.nodup_names_iff.mp distinct, u.resolved_iff.mp resolved, weights,
      distinctOutputs, outputs.mp known⟩
  · intro h
    obtain ⟨inputs, distinct, resolved, weights, distinctOutputs, known⟩ := h
    exact ⟨inputs, u.nodup_names_iff.mpr distinct, u.resolved_iff.mpr resolved, weights,
      distinctOutputs, outputs.mpr known⟩

theorem flipped : u.gemm.attributes.Flipped u.gemm'.attributes := by
  refine ⟨u.flag, u.negated, u.flagged, ?_, u.negates, fun key other => ?_⟩
  · simp [gemm']
  · simp [gemm', other.symm]

theorem performs_gemm_iff {s : Scaling} :
    u.gemm'.Performs (.gemm s.flipped) ↔ u.gemm.Performs (.gemm s) := by
  constructor
  · intro h
    have attributes := u.flipped.symm.denotes h.attributes
    rw [Scaling.flipped_flipped] at attributes
    refine ⟨u.ofKind, h.ofType, ?_, h.outputs, attributes⟩
    rw [u.inputs]
    rfl
  · intro h
    exact ⟨u.ofKind, h.ofType, rfl, h.outputs, u.flipped.denotes h.attributes⟩

theorem holds_left_iff (type : u.gemm.IsFloat32) : u.exchangeLeft.Holds shapes ↔
    (shapes u.left).length = 2 ∧ shapes u.left' = (shapes u.left).reverse := by
  refine u.ofLeft.holds_iff ?_
  rwa [Node.IsFloat32, u.typesLeft]

theorem holds_right_iff (type : u.gemm.IsFloat32) : u.exchangeRight.Holds shapes ↔
    (shapes u.right).length = 2 ∧ shapes u.right' = (shapes u.right).reverse := by
  refine u.ofRight.holds_iff ?_
  rwa [Node.IsFloat32, u.typesRight]

/-- The three nodes ask of shapes what the Gemm does, and the reverse shapes for the new names. -/
theorem holds_iff :
    u.exchangeLeft.Holds shapes ∧ u.exchangeRight.Holds shapes ∧ u.gemm'.Holds shapes ↔
      u.gemm.Holds shapes ∧ shapes u.left' = (shapes u.left).reverse ∧
        shapes u.right' = (shapes u.right).reverse := by
  have folded : u.gemm.Holds shapes ↔ _ := Node.holds_gemm_iff u.ofKind u.inputs u.outputs
  have unfolded : u.gemm'.Holds shapes ↔ _ := Node.holds_gemm_iff u.ofKind rfl u.outputs
  rw [folded, unfolded]
  constructor
  · rintro ⟨left, right, flipped, performs, rule⟩
    rw [u.holds_left_iff performs.ofType] at left
    rw [u.holds_right_iff performs.ofType] at right
    obtain ⟨s, rfl⟩ : ∃ s : Scaling, flipped = s.flipped := ⟨flipped.flipped, by simp⟩
    rw [left.2, right.2, Operation.rule_gemm_flipped] at rule
    exact ⟨⟨s, u.performs_gemm_iff.mp performs, rule⟩, left.2, right.2⟩
  · rintro ⟨⟨s, performs, rule⟩, left, right⟩
    obtain ⟨rankLeft, rankRight⟩ := Operation.length_of_rule_gemm rule
    rw [u.holds_left_iff performs.ofType, u.holds_right_iff performs.ofType]
    refine ⟨⟨rankLeft, left⟩, ⟨rankRight, right⟩, s.flipped, u.performs_gemm_iff.mpr performs, ?_⟩
    rw [left, right, Operation.rule_gemm_flipped]
    exact rule

/-- Shapes of the one graph are shapes of the other that give the new names the reverse shapes. -/
theorem shaped_iff : u.graph.Shaped shapes ↔ g.Shaped shapes ∧
    shapes u.left' = (shapes u.left).reverse ∧ shapes u.right' = (shapes u.right).reverse := by
  have nodes : (∀ node ∈ u.graph.nodes, node.Holds shapes) ↔
      (∀ node ∈ g.nodes, node.Holds shapes) ∧ shapes u.left' = (shapes u.left).reverse ∧
        shapes u.right' = (shapes u.right).reverse := by
    rw [u.nodes_graph, u.split]
    simp only [List.forall_mem_append, List.forall_mem_cons]
    constructor
    · rintro ⟨front, left, right, gemm, back⟩
      obtain ⟨folded, reversed⟩ := u.holds_iff.mp ⟨left, right, gemm⟩
      exact ⟨⟨front, folded, back⟩, reversed⟩
    · rintro ⟨⟨front, folded, back⟩, reversed⟩
      obtain ⟨left, right, gemm⟩ := u.holds_iff.mpr ⟨folded, reversed⟩
      exact ⟨front, left, right, gemm, back⟩
  constructor
  · intro shaped
    obtain ⟨holds, reversed⟩ := nodes.mp shaped.nodes
    exact ⟨⟨shaped.declared, holds⟩, reversed⟩
  · rintro ⟨shaped, reversed⟩
    exact ⟨shaped.declared, nodes.mpr ⟨shaped.nodes, reversed⟩⟩

/-- Shapes with those of the transposed operands. -/
def extend (shapes : String → Shape) : String → Shape :=
  Function.update (Function.update shapes u.left' (shapes u.left).reverse) u.right'
    (shapes u.right).reverse

theorem extend_of_ne {x : String} (left : x ≠ u.left') (right : x ≠ u.right') :
    u.extend shapes x = shapes x := by
  rw [extend, Function.update_of_ne right, Function.update_of_ne left]

theorem shaped_extend (shaped : g.Shaped shapes) : u.graph.Shaped (u.extend shapes) := by
  have inputs : ∀ node ∈ g.nodes, ∀ x ∈ node.inputs, shapes x = u.extend shapes x := by
    intro node mem x used
    obtain ⟨left, right⟩ := u.ne_of_used mem used
    exact (u.extend_of_ne left right).symm
  have names : ∀ x ∈ g.names, shapes x = u.extend shapes x := by
    intro x mem
    refine (u.extend_of_ne ?_ ?_).symm
    · rintro rfl
      exact u.freshLeft.names mem
    · rintro rfl
      exact u.freshRight.names mem
  refine u.shaped_iff.mpr ⟨shaped.congr names inputs, ?_, ?_⟩
  · rw [← inputs u.gemm u.mem_nodes u.left (by simp [u.inputs]), extend,
      Function.update_of_ne u.apart, Function.update_self]
  · rw [← inputs u.gemm u.mem_nodes u.right (by simp [u.inputs]), extend, Function.update_self]

/-- A Gemm can be folded and unfolded: compilation and inference both succeed for the graph with the
transposed operands just when they do without, and what the graph mentions has the same shapes. -/
theorem infers_iff (options : Options) (name : String) :
    ((∃ known, g.Infers options name known) ↔ ∃ known, u.graph.Infers options name known) ∧
      ∀ known known', g.Infers options name known → u.graph.Infers options name known' →
        ∀ x ∈ g.names, ∃ shape, known.get? x = some shape ∧ known'.get? x = some shape := by
  constructor
  · rw [exists_infers_iff, exists_infers_iff, u.sound_iff]
    refine and_congr_right fun _ => ⟨?_, ?_⟩
    · rintro ⟨shapes, shaped⟩
      exact ⟨_, u.shaped_extend shaped⟩
    · rintro ⟨shapes, shaped⟩
      exact ⟨shapes, (u.shaped_iff.mp shaped).1⟩
  · intro known known' infers infers' x mem
    obtain ⟨-, shapes, shaped⟩ := exists_infers_iff.mp ⟨known', infers'⟩
    have mem' : x ∈ u.graph.names := u.perm_names.mem_iff.mpr (.tail _ (.tail _ mem))
    exact ⟨shapes x, infers.get?_of_shaped (u.shaped_iff.mp shaped).1 mem,
      infers'.get?_of_shaped shaped mem'⟩

end Unfolding

/-- The Gemm of the layer on operands that are transposed before it. -/
def layerUnfolding : layer.Unfolding where
  front := []
  gemm := { kindLabel := "'onnx::Gemm'", attributes := .ofList [("transB", .int 1)],
            inputs := ["x", "w", "b"], outputs := ["h"], outputTypes := ["Float"] }
  back := layer.nodes.tail
  split := rfl
  ofKind := by decide +kernel
  left := "x"
  right := "w"
  bias := "b"
  output := "h"
  inputs := rfl
  outputs := rfl
  flag := 1
  negated := 0
  flagged := rfl
  negates := by decide
  exchangeLeft := { kindLabel := "onnx::Transpose", attributes := .ofList [("perm", .ints [1, 0])],
                    inputs := ["x"], outputs := ["x.t"], outputTypes := ["Float"] }
  exchangeRight := { name := some "turn", kindLabel := "transpose",
                     attributes := .ofList [("perm", .ints [1, 0])],
                     inputs := ["w"], outputs := ["w.t"], outputTypes := ["Float"] }
  left' := "x.t"
  right' := "w.t"
  ofLeft := ⟨by decide +kernel, rfl, rfl, rfl⟩
  ofRight := ⟨by decide +kernel, rfl, rfl, rfl⟩
  typesLeft := rfl
  typesRight := rfl
  apart := by decide
  freshLeft := ⟨by decide, by decide, by decide⟩
  freshRight := ⟨by decide, by decide, by decide⟩

theorem infers_layerUnfolding : ∃ known, layerUnfolding.graph.Infers {} defaultName known ∧
    known.get? "h" = some [3, 1] ∧ known.get? "y" = some [1, 3] := by
  obtain ⟨both, same⟩ := layerUnfolding.infers_iff {} defaultName
  have inferred : layerModel.shapes = .ok (.ofList [("a", [3, 1]), ("b", [1]), ("h", [3, 1]),
      ("w", [1, 2]), ("x", [3, 2]), ("y", [1, 3])]) := by decide +kernel
  have infers : layer.Infers {} defaultName _ := ⟨layerModel, compile_layer, inferred⟩
  obtain ⟨known, infers'⟩ := both.mp ⟨_, infers⟩
  obtain ⟨h, inferredH, sameH⟩ := same _ _ infers infers' "h" (by decide)
  obtain ⟨y, inferredY, sameY⟩ := same _ _ infers infers' "y" (by decide)
  refine ⟨known, infers', ?_, ?_⟩
  · rw [sameH, ← inferredH]
    decide
  · rw [sameY, ← inferredY]
    decide

end Graph
end TensorGraph
