import TensorGraph.Proofs.ExactSize
import TensorGraph.Proofs.Permutations
import TensorGraph.Proofs.ShapeInference

/-! Transposes in a row. A Transpose gathers the extents of its operand, so one behind another gathers
what was gathered: both together are the one Transpose whose permutation is gathered in the same way. -/
namespace TensorGraph

/-- The values at some places, in the order of the places. -/
def gathered (values places : List Nat) : List Nat := places.map fun place => values.getD place 0

variable {values places first second : List Nat}

@[simp] theorem length_gathered : (gathered values places).length = places.length := by
  simp [gathered]

theorem getElem?_gathered (inside : ∀ place ∈ places, place < values.length) {i place : Nat}
    (found : places[i]? = some place) : (gathered values places)[i]? = values[place]? := by
  have here := inside place (List.mem_of_getElem? found)
  simp [gathered, found, List.getElem?_eq_getElem here]

theorem gathered_range (values : List Nat) : gathered values (List.range values.length) = values := by
  apply List.ext_getElem?
  intro i
  by_cases inside : i < values.length
  · simp [gathered, List.getElem?_range inside, List.getElem?_eq_getElem inside]
  · rw [List.getElem?_eq_none (by simp; omega), List.getElem?_eq_none (by omega)]

/-- Gathering by a permutation rearranges. -/
theorem perm_gathered (perm : places.Perm (List.range values.length)) :
    (gathered values places).Perm values := by
  have rearranged : (gathered values places).Perm (gathered values (List.range values.length)) :=
    perm.map _
  rwa [gathered_range] at rearranged

/-- To gather what was gathered is to gather by gathered places. -/
theorem gathered_gathered (inside : ∀ place ∈ second, place < first.length) :
    gathered (gathered values first) second = gathered values (gathered first second) := by
  simp only [gathered, List.map_map]
  refine List.map_congr_left fun place mem => ?_
  have here := inside place mem
  simp [List.getElem?_eq_getElem here]

/-- The second permutation takes every axis back to the place where the first one has it. -/
def Inverts (second first : List Nat) : Prop :=
  ∀ i axis : Nat, first[i]? = some axis → second[axis]? = some i

theorem gathered_of_inverts (permSecond : second.Perm (List.range first.length))
    (inverts : Inverts second first) : gathered first second = List.range first.length := by
  have inside := lt_of_perm_range permSecond
  have count : second.length = first.length := by simpa using permSecond.length_eq
  have distinct : second.Nodup := permSecond.nodup_iff.mpr List.nodup_range
  apply List.ext_getElem (by simp [count])
  intro j left right
  have below : j < second.length := by simpa using left
  have place := inside second[j] (List.getElem_mem below)
  -- The axis that the first permutation has at this place is taken back to the place from two positions.
  have back := inverts second[j] first[second[j]] (List.getElem?_eq_getElem place)
  obtain ⟨bound, same⟩ := List.getElem?_eq_some_iff.mp back
  have position : first[second[j]] = j := distinct.getElem_inj_iff.mp same
  simpa [gathered, place] using position

namespace Operator

variable {op : Operator} {p : List Nat} {x y : String} {shapes : String → Shape}

/-- A Transpose of one tensor into another. -/
structure Transposes (op : Operator) (permutation : List Nat) (x y : String) : Prop where
  operation : op.operation = .transpose permutation
  inputs : op.inputs = [x]
  outputs : op.outputs = [y]

/-- The rule of a Transpose gathers extents. -/
theorem rule_transpose_iff (perm : p.Perm (List.range p.length)) {shape result : Shape} :
    (Operation.transpose p).Rule [shape] result ↔
      shape.length = p.length ∧ result = gathered shape p := by
  rw [rule_transpose]
  refine and_congr_right fun rank => ?_
  rw [gathered, eq_map_getD_iff]
  rw [rank]
  exact lt_of_perm_range perm

theorem Transposes.holds_iff (transposes : op.Transposes p x y) (built : op.WellBuilt) :
    op.Holds shapes ↔ (shapes x).length = p.length ∧ shapes y = gathered (shapes x) p := by
  have perm := built.permutation p transposes.operation
  rw [← rule_transpose_iff perm, Holds, transposes.operation, transposes.inputs, transposes.outputs]
  simp

/-- The result of a Transpose has the extents of its operand in another order. -/
theorem Transposes.perm_shapes (transposes : op.Transposes p x y) (built : op.WellBuilt)
    (holds : op.Holds shapes) : (shapes x).Perm (shapes y) := by
  obtain ⟨rank, result⟩ := (transposes.holds_iff built).mp holds
  have perm := built.permutation p transposes.operation
  rw [result]
  exact (perm_gathered (rank ▸ perm)).symm

/-- A Transpose behind another gathers by the places that the other one gathers. -/
theorem Transposes.shapes_of_row {next : Operator} {q : List Nat} {z : String}
    (transposes : op.Transposes p x y) (built : op.WellBuilt) (holds : op.Holds shapes)
    (behind : next.Transposes q y z) (builtNext : next.WellBuilt) (holdsNext : next.Holds shapes) :
    (shapes x).length = p.length ∧ q.Perm (List.range p.length) ∧
      shapes z = gathered (shapes x) (gathered p q) := by
  obtain ⟨rankX, shapeY⟩ := (transposes.holds_iff built).mp holds
  obtain ⟨rankY, shapeZ⟩ := (behind.holds_iff builtNext).mp holdsNext
  have count : p.length = q.length := by rw [← rankY, shapeY, length_gathered]
  have perm : q.Perm (List.range p.length) := count ▸ builtNext.permutation q behind.operation
  refine ⟨rankX, perm, ?_⟩
  rw [shapeZ, shapeY, gathered_gathered (lt_of_perm_range perm)]

/-- The operator of a Transpose of one tensor into another. -/
def transposing (name : String) (permutation : List Nat) (x y : String) : Operator :=
  ⟨name, .transpose permutation, [x], [y], .float32⟩

theorem transposes_transposing (name : String) (permutation : List Nat) (x y : String) :
    (transposing name permutation x y).Transposes permutation x y := ⟨rfl, rfl, rfl⟩

end Operator

/-- Machine integers hold the numbers. -/
def Held (numbers : List Nat) : Prop := ∀ n ∈ numbers, (Int64.ofNat n).toInt = n

theorem held_of_permutationOf {axes : List Int64} (h : permutationOf axes = .ok places) :
    Held places := by
  intro place mem
  obtain ⟨-, rfl⟩ := permutationOf_eq_ok.mp h
  obtain ⟨axis, -, rfl⟩ := List.mem_map.mp mem
  have := axis.toInt_lt
  rw [Int64.toInt_ofNat_of_lt (by omega)]

theorem permutationOf_map_ofNat (perm : places.Perm (List.range places.length)) (held : Held places) :
    permutationOf (places.map Int64.ofNat) = .ok places := by
  have numbers : (places.map Int64.ofNat).map Int64.toInt = places.map Int.ofNat := by
    rw [List.map_map]
    exact List.map_congr_left held
  rw [permutationOf_eq_ok, Rearranged, numbers, List.length_map, List.map_map]
  refine ⟨perm.map Int.ofNat, ?_⟩
  conv_lhs => rw [← List.map_id places]
  refine List.map_congr_left fun place mem => ?_
  change place = (Int64.ofNat place).toInt.toNat
  rw [held place mem]
  rfl

namespace Draft

/-- A permutation whose axes are machine integers is accepted. -/
theorem complete_transposition (perm : places.Perm (List.range places.length)) (held : Held places)
    (name x y : String) :
    (transposition name (places.map Int64.ofNat) x y).complete .transpose =
      .ok (.transposing name places x y) := by
  rw [complete_transpose (unary_transposition ..) (hasAxes_transposition ..),
    permutationOf_map_ofNat perm held]
  rfl

/-- A Transpose that completes has a permutation of machine integers. -/
theorem held_of_complete {d : Draft} {kind : Kind} {op : Operator} (built : d.complete kind = .ok op)
    (transpose : op.operation = .transpose places) : Held places := by
  have ofKind := kind_of_readOperation (complete_eq_ok.mp built).2.2.1
  rw [transpose] at ofKind
  subst ofKind
  obtain ⟨axes, permutation, -, accepted, same⟩ := exists_axes_of_complete built
  rw [transpose] at same
  cases same
  exact held_of_permutationOf accepted

end Draft

namespace Model

variable {m : Model}

/-- A model with one more operator behind all others. -/
def append (m : Model) (op : Operator) : Model := { m with operators := m.operators ++ [op] }

theorem shapes_append {known : NameMap Shape} (inferred : m.shapes = .ok known) (op : Operator) :
    (m.append op).shapes = inferStep known op := by
  have ran : m.operators.foldlM inferStep m.declaredShapes = .ok known := inferred
  change (m.operators ++ [op]).foldlM inferStep m.declaredShapes = _
  rw [List.foldlM_append, ran, ok_bind]
  exact bind_pure _

theorem Compiled.exists_complete (h : m.Compiled) {op : Operator} (mem : op ∈ m.operators) :
    ∃ (d : Draft) (kind : Kind), d.complete kind = .ok op := by
  obtain ⟨g, options, name, -, yields⟩ := h.exists_graph
  obtain ⟨i, found⟩ := List.mem_iff_getElem?.mp mem
  have inside : i < g.nodes.length := yields.count ▸ (List.getElem?_eq_some_iff.mp found).1
  obtain ⟨kind, -, built⟩ := yields.operators i _ op (List.getElem?_eq_getElem inside) found
  exact ⟨_, kind, built⟩

theorem Ordered.mem_ready_length (ordered : m.Ordered) {op : Operator} (mem : op ∈ m.operators)
    {x : String} (operand : x ∈ op.inputs ++ op.outputs) : x ∈ m.ready m.operators.length := by
  rcases List.mem_append.mp operand with input | output
  · obtain ⟨i, found⟩ := List.mem_iff_getElem?.mp mem
    have inside : i < m.operators.length := (List.getElem?_eq_some_iff.mp found).1
    exact mem_ready_of_le (by omega) (ordered.operands i op found x input)
  · rw [ready, List.take_length]
    exact List.mem_append_right _ (List.mem_flatMap.mpr ⟨op, mem, output⟩)

/-- A Transpose behind all others infers what its permutation gathers. -/
theorem shapes_append_transposing {known : NameMap Shape} (inferred : m.shapes = .ok known)
    {names : List String} {shapes : String → Shape} (records : known.Records names shapes)
    {x : String} (ready : x ∈ names) {name y : String} {result : Shape}
    (built : (Operator.transposing name places x y).WellBuilt)
    (rank : (shapes x).length = places.length) (same : result = gathered (shapes x) places) :
    (m.append (.transposing name places x y)).shapes = .ok (known.insert y result) := by
  have inside : ∀ operand ∈ (Operator.transposing name places x y).inputs, operand ∈ names := by
    intro operand mem
    rw [List.mem_singleton.mp mem]
    exact ready
  rw [shapes_append inferred, Operator.inferStep_eq_ok built records inside rfl]
  exact ⟨result, (Operator.rule_transpose_iff (built.permutation places rfl)).mpr ⟨rank, same⟩, rfl⟩

/-- Two Transposes in a row are one: its permutation has at every axis what the first permutation has at
the axis of the second. It is accepted, and for the same operand it infers the same shape. The shapes on
the way are rearrangements of each other, and where the second permutation inverts the first one they
come back to where they began. -/
theorem Compiled.transposes_compose (h : m.Compiled) {known : NameMap Shape}
    (inferred : m.shapes = .ok known) {one other : Operator} (memOne : one ∈ m.operators)
    (memOther : other ∈ m.operators) {p q : List Nat} {x y z : String}
    (ofOne : one.Transposes p x y) (ofOther : other.Transposes q y z) :
    ∃ (r : List Nat) (shapeX shapeY shapeZ : Shape),
      (known.get? x = some shapeX ∧ known.get? y = some shapeY ∧ known.get? z = some shapeZ) ∧
      (r.length = q.length ∧ ∀ i axis : Nat, q[i]? = some axis → r[i]? = p[axis]?) ∧
      (∀ name w, ∃ op,
        (Draft.transposition name (r.map Int64.ofNat) x w).complete .transpose = .ok op ∧
          op.Transposes r x w ∧ (m.append op).shapes = .ok (known.insert w shapeZ)) ∧
      (shapeX.Perm shapeY ∧ shapeY.Perm shapeZ) ∧
      (shapeX.elements = shapeY.elements ∧ shapeY.elements = shapeZ.elements) ∧
      (Inverts q p → shapeZ = shapeX) := by
  obtain ⟨form, built⟩ := h.exists_form
  have ordered := form.ordered built
  obtain ⟨shapes, consistent, records⟩ := ordered.shapes_eq_ok.mp inferred
  have readyX := ordered.mem_ready_length memOne (x := x) (by simp [ofOne.inputs])
  have readyY := ordered.mem_ready_length memOne (x := y) (by simp [ofOne.outputs])
  have readyZ := ordered.mem_ready_length memOther (x := z) (by simp [ofOther.outputs])
  have holdsOne := consistent.rules one memOne
  have holdsOther := consistent.rules other memOther
  obtain ⟨rank, permQ, once⟩ :=
    ofOne.shapes_of_row (built one memOne) holdsOne ofOther (built other memOther) holdsOther
  have alikeXY := ofOne.perm_shapes (built one memOne) holdsOne
  have alikeYZ := ofOther.perm_shapes (built other memOther) holdsOther
  -- The composed permutation has the axes of the first one, which are machine integers.
  have permR := perm_gathered permQ
  have count : (gathered p q).length = p.length := permR.length_eq
  have permutation : (gathered p q).Perm (List.range (gathered p q).length) := by
    rw [count]
    exact permR.trans ((built one memOne).permutation p ofOne.operation)
  obtain ⟨d, kind, completed⟩ := h.exists_complete memOne
  have held := Draft.held_of_complete completed ofOne.operation
  refine ⟨gathered p q, shapes x, shapes y, shapes z,
    ⟨records.get?_of_mem readyX, records.get?_of_mem readyY, records.get?_of_mem readyZ⟩,
    ⟨length_gathered, fun i axis found => getElem?_gathered (lt_of_perm_range permQ) found⟩, ?_,
    ⟨alikeXY, alikeYZ⟩, ⟨Shape.elements_perm alikeXY, Shape.elements_perm alikeYZ⟩, ?_⟩
  · intro name w
    have accepted := Draft.complete_transposition permutation
      (fun axis mem => held axis (permR.mem_iff.mp mem)) name x w
    exact ⟨_, accepted, Operator.transposes_transposing .., shapes_append_transposing inferred records
      readyX (Draft.wellBuilt_of_complete accepted) (rank.trans count.symm) once⟩
  · intro inverts
    rw [once, gathered_of_inverts permQ inverts, ← rank, gathered_range]

end Model

/-- Three axes turned twice, and once forth and back. -/
def Graph.turned : Graph where
  inputs := [{ name := "x", shape := [2, 3, 5] }]
  nodes := [
    { kindLabel := "transpose", attributes := .ofList [("perm", .ints [1, 2, 0])],
      inputs := ["x"], outputs := ["y"], outputTypes := ["Float"] },
    { kindLabel := "transpose", attributes := .ofList [("perm", .ints [1, 2, 0])],
      inputs := ["y"], outputs := ["z"], outputTypes := ["Float"] },
    { kindLabel := "transpose", attributes := .ofList [("perm", .ints [2, 0, 1])],
      inputs := ["y"], outputs := ["w"], outputTypes := ["Float"] }]
  outputs := ["z", "w"]

def Graph.turnedModel : Model where
  name := "model"
  operators := [.transposing "Transpose_0" [1, 2, 0] "x" "y",
    .transposing "Transpose_1" [1, 2, 0] "y" "z", .transposing "Transpose_2" [2, 0, 1] "y" "w"]
  tensors := {
    tensors := [⟨"x", .float32, some [2, 3, 5], .input⟩, .intermediate "y", .intermediate "z",
      .intermediate "w"]
    distinct := by simp [Tensor.intermediate] }
  outputs := ["z", "w"]

theorem Graph.compile_turned : turned.compile = .ok turnedModel := by decide +kernel

namespace Model

theorem transposes_compose_turned : Graph.turnedModel.Compiled ∧ ∃ known,
    Graph.turnedModel.shapes = .ok known ∧ known.get? "w" = known.get? "x" ∧
      ∃ op, (Draft.transposition "t" [2, 0, 1] "x" "u").complete .transpose = .ok op ∧
        (Graph.turnedModel.append op).shapes = .ok (known.insert "u" [5, 2, 3]) := by
  have compiled : Graph.turnedModel.Compiled := .graph Graph.compile_turned
  have inferred : Graph.turnedModel.shapes = .ok (.ofList [("w", [2, 3, 5]), ("x", [2, 3, 5]),
      ("y", [3, 5, 2]), ("z", [5, 2, 3])]) := by decide +kernel
  have turn := Operator.transposes_transposing "Transpose_0" [1, 2, 0] "x" "y"
  have again := Operator.transposes_transposing "Transpose_1" [1, 2, 0] "y" "z"
  have back := Operator.transposes_transposing "Transpose_2" [2, 0, 1] "y" "w"
  have inverts : Inverts [2, 0, 1] [1, 2, 0] := by
    intro i axis found
    rcases i with _ | _ | _ | i <;> cases found <;> rfl
  obtain ⟨-, _, _, _, ⟨foundX, -, foundW⟩, -, -, -, -, inverse⟩ := Compiled.transposes_compose compiled
    inferred (by simp [Graph.turnedModel]) (by simp [Graph.turnedModel]) turn back
  obtain ⟨r, _, _, shape, ⟨-, -, found⟩, ⟨count, each⟩, single, -⟩ := Compiled.transposes_compose
    compiled inferred (by simp [Graph.turnedModel]) (by simp [Graph.turnedModel]) turn again
  refine ⟨compiled, _, inferred, by rw [foundX, foundW, inverse inverts], ?_⟩
  have same : r = [2, 0, 1] := by
    apply List.ext_getElem?
    intro i
    rcases i with _ | _ | _ | i
    · exact each 0 1 rfl
    · exact each 1 2 rfl
    · exact each 2 0 rfl
    · rw [List.getElem?_eq_none (by simp [count]), List.getElem?_eq_none (by simp)]
  have result : shape = [5, 2, 3] := by
    have here : (NameMap.ofList [("w", [2, 3, 5]), ("x", [2, 3, 5]), ("y", [3, 5, 2]),
      ("z", [5, 2, 3])]).get? "z" = some [5, 2, 3] := by decide +kernel
    rw [here] at found
    exact (Option.some.inj found).symm
  subst same result
  obtain ⟨op, accepted, -, appended⟩ := single "t" "u"
  exact ⟨op, accepted, appended⟩

end Model
end TensorGraph
