import TensorGraph.Proofs.Building

/-! Which attributes make a Transpose: a permutation of axes and nothing else. Axes are looked at from the
front, and the first that is out of range or comes again is what is complained of. -/
namespace TensorGraph

namespace NameMap

variable {α : Type} {m : NameMap α} {name : String} {value : α}

/-- A map has one entry when a name is found in it and there are no others. -/
theorem entries_eq_singleton :
    m.entries = [(name, value)] ↔ m.get? name = some value ∧ ∀ key ∈ m.keys, key = name := by
  constructor
  · intro single
    simp [get?, keys, single]
  · intro h
    obtain ⟨found, only⟩ := h
    have mem := get?_eq_some_iff.mp found
    have named : ∀ entry ∈ m.entries, entry.1 = name := fun entry inside =>
      only _ (List.mem_map_of_mem inside)
    have ascending := m.ascending
    rcases entries : m.entries with _ | ⟨entry, _ | ⟨next, rest⟩⟩
    · simp [entries] at mem
    · rw [entries, List.mem_singleton] at mem
      rw [mem]
    -- A second entry has a greater name, and so another one.
    · rw [entries] at ascending named
      have below := (List.pairwise_cons.mp ascending).1 next (by simp)
      rw [named entry (by simp), named next (by simp)] at below
      exact absurd below (String.lt_irrefl name)

end NameMap

/-- Axes are the numbers from zero on, rearranged. -/
def Rearranged (axes : List Int64) : Prop :=
  (axes.map Int64.toInt).Perm ((List.range axes.length).map Int.ofNat)

instance (axes : List Int64) : Decidable (Rearranged axes) :=
  inferInstanceAs (Decidable (List.Perm _ _))

/-- What is wrong with the axis at a position. -/
inductive FaultAt (axes : List Int64) (position : Nat) : AttributeFault → Prop
  | outOfRange {axis : Int64} : axes[position]? = some axis →
    (axis.toInt < 0 ∨ (axes.length : Int) ≤ axis.toInt) →
      FaultAt axes position (.axisOutOfRange axis axes.length)
  | repeated {axis : Int64} : axes[position]? = some axis → axis ∈ axes.take position →
    FaultAt axes position (.axisRepeated axis)

/-- A fault is the first one when no axis in front of it has any. -/
structure FirstFaultAt (axes : List Int64) (position : Nat) (fault : AttributeFault) : Prop where
  here : FaultAt axes position fault
  first : ∀ earlier < position, ∀ other, ¬ FaultAt axes earlier other

theorem axisFault?_eq_some {rank : Nat} {before : List Int64} {axis : Int64} {fault : AttributeFault} :
    axisFault? rank before axis = some fault ↔
      ((axis.toInt < 0 ∨ (rank : Int) ≤ axis.toInt) ∧ fault = .axisOutOfRange axis rank) ∨
        (¬ (axis.toInt < 0 ∨ (rank : Int) ≤ axis.toInt) ∧ axis ∈ before ∧
          fault = .axisRepeated axis) := by
  rw [axisFault?]
  split
  · rename_i outside
    simp [outside, eq_comm]
  · rename_i inside
    simp [inside, eq_comm]

/-- The first fault has a faulty axis, with none before it. -/
theorem exists_split_of_firstFault? {rank : Nat} {before axes : List Int64} {fault : AttributeFault}
    (h : firstFault? rank before axes = some fault) : ∃ front axis back,
      axes = front ++ axis :: back ∧ firstFault? rank before front = none ∧
        axisFault? rank (front.reverse ++ before) axis = some fault := by
  induction axes generalizing before with
  | nil => cases h
  | cons axis rest ih =>
    rw [firstFault?] at h
    cases here : axisFault? rank before axis with
    | some found =>
      rw [here] at h
      obtain rfl : found = fault := by simpa using h
      exact ⟨[], axis, rest, rfl, rfl, here⟩
    | none =>
      rw [here] at h
      obtain ⟨front, later, back, rfl, clean, found⟩ := ih (by simpa using h)
      refine ⟨axis :: front, later, back, rfl, ?_, ?_⟩
      · simp [firstFault?, here, clean]
      · simpa using found

/-- Distinct axes within the range have no fault. -/
theorem not_faultAt {axes front : List Int64} (isFront : front <+: axes)
    (clean : firstFault? axes.length [] front = none) {position : Nat} (inside : position < front.length)
    (fault : AttributeFault) : ¬ FaultAt axes position fault := by
  obtain ⟨ranges, distinct, -⟩ := firstFault?_eq_none.mp clean
  obtain ⟨back, rfl⟩ := isFront
  have found : (front ++ back)[position]? = some front[position] := by
    rw [List.getElem?_append_left inside, List.getElem?_eq_getElem inside]
  intro h
  cases h with
  | outOfRange here outside =>
    obtain rfl := Option.some.inj (found.symm.trans here)
    have := ranges _ (List.getElem_mem inside)
    omega
  | repeated here again =>
    obtain rfl := Option.some.inj (found.symm.trans here)
    rw [List.take_append_of_le_length (by omega)] at again
    obtain ⟨j, below, same⟩ := List.mem_take_iff_getElem.mp again
    have := (distinct.getElem_inj_iff).mp same
    omega

theorem exists_firstFaultAt {axes : List Int64} {fault : AttributeFault}
    (h : permutationOf axes = .error fault) : ∃ position, FirstFaultAt axes position fault := by
  rw [permutationOf] at h
  split at h
  · rename_i found
    cases h
    obtain ⟨front, axis, back, split, clean, here⟩ := exists_split_of_firstFault? found
    have at? : axes[front.length]? = some axis := by simp [split]
    have before : axes.take front.length = front := by simp [split]
    refine ⟨front.length, ?_, fun earlier below other => ?_⟩
    · rcases axisFault?_eq_some.mp here with ⟨outside, rfl⟩ | ⟨-, again, rfl⟩
      · exact .outOfRange at? outside
      · refine .repeated at? ?_
        rw [before]
        simpa using again
    · exact not_faultAt ⟨axis :: back, split.symm⟩ clean below other
  · cases h

theorem map_toNat_toInt {axes : List Int64} (low : ∀ axis ∈ axes, 0 ≤ axis.toInt) :
    (axes.map fun axis => axis.toInt.toNat).map Int.ofNat = axes.map Int64.toInt := by
  rw [List.map_map]
  refine List.map_congr_left fun axis mem => ?_
  exact Int.toNat_of_nonneg (low axis mem)

theorem Rearranged.range {axes : List Int64} (rearranged : Rearranged axes) :
    ∀ axis ∈ axes, 0 ≤ axis.toInt ∧ axis.toInt < axes.length := by
  intro axis mem
  have number := rearranged.mem_iff.mp (List.mem_map_of_mem mem)
  obtain ⟨n, below, same⟩ := List.mem_map.mp number
  rw [List.mem_range] at below
  rw [← same]
  exact ⟨Int.natCast_nonneg n, Int.ofNat_lt.mpr below⟩

theorem Rearranged.nodup {axes : List Int64} (rearranged : Rearranged axes) : axes.Nodup := by
  have numbers : ((List.range axes.length).map Int.ofNat).Nodup :=
    List.nodup_range.map fun a b => Int.ofNat.inj
  exact (rearranged.nodup_iff.mpr numbers).of_map Int64.toInt

/-- Exactly axes that are rearranged are a permutation, and they are taken as they are. -/
theorem permutationOf_eq_ok {axes : List Int64} {permutation : List Nat} :
    permutationOf axes = .ok permutation ↔
      Rearranged axes ∧ permutation = axes.map fun axis => axis.toInt.toNat := by
  constructor
  · intro h
    have perm := perm_range_of_permutationOf h
    rw [permutationOf] at h
    split at h
    · cases h
    · rename_i faultless
      cases h
      have low := fun axis mem => ((firstFault?_eq_none.mp faultless).1 axis mem).1
      have numbers := perm.map Int.ofNat
      rw [map_toNat_toInt low, List.length_map] at numbers
      exact ⟨numbers, rfl⟩
  · intro h
    obtain ⟨rearranged, rfl⟩ := h
    have faultless : firstFault? axes.length [] axes = none :=
      firstFault?_eq_none.mpr ⟨rearranged.range, rearranged.nodup, by simp⟩
    rw [permutationOf, faultless]

namespace Draft

variable {d : Draft} {axes : List Int64}

/-- A draft with one operand and one result of a type that models are built of. -/
structure Unary (d : Draft) : Prop where
  input : d.inputs.length = 1
  output : d.outputs.length = 1
  type : d.elementType = .float32

/-- The attributes of a draft are axes and nothing else. -/
def HasAxes (d : Draft) (axes : List Int64) : Prop := d.attributes.entries = [("perm", .ints axes)]

/-- A draft of a Transpose of one tensor into another. -/
def transposition (name : String) (axes : List Int64) (x y : String) : Draft where
  name := name
  attributes := .ofList [("perm", .ints axes)]
  inputs := [x]
  outputs := [y]
  elementType := .float32

theorem unary_transposition (name : String) (axes : List Int64) (x y : String) :
    (transposition name axes x y).Unary := ⟨rfl, rfl, rfl⟩

theorem hasAxes_transposition (name : String) (axes : List Int64) (x y : String) :
    (transposition name axes x y).HasAxes axes := rfl

theorem asInts_eq_ok {value : Attribute} : value.asInts = .ok axes ↔ value = .ints axes := by
  cases value <;> simp [Attribute.asInts]

theorem hasAxes_iff : d.HasAxes axes ↔
    d.attributes.Gives Attribute.asInts "perm" (some axes) ∧ d.attributes.Only ["perm"] := by
  rw [HasAxes, NameMap.entries_eq_singleton, Attributes.Gives, Attributes.Only]
  simp [asInts_eq_ok]

/-- A unary Transpose completes as its axes decide. -/
theorem complete_transpose (unary : d.Unary) (has : d.HasAxes axes) :
    d.complete .transpose = match permutationOf axes with
      | .error fault => .error (.invalidAttribute d.name "perm" fault)
      | .ok permutation => .ok ⟨d.name, .transpose permutation, d.inputs, d.outputs, .float32⟩ := by
  obtain ⟨gives, only⟩ := hasAxes_iff.mp has
  have arity : d.expectArity (inputCount .transpose) 1 = .ok () :=
    expectArity_eq_ok.mpr ⟨unary.input, unary.output⟩
  have type : d.elementType.ensureSupported (.operator d.name .transpose) = .ok () :=
    ElementType.ensureSupported_eq_ok.mpr unary.type
  have others : d.expectOnly ["perm"] = .ok () := expectOnly_eq_ok.mpr only
  rw [complete, arity, ok_bind, type, ok_bind, read_readOperation]
  simp only [read_readPermutation, answer_eq_ok.mpr gives, ok_bind, others]
  cases permutationOf axes with
  | error fault => rfl
  | ok permutation =>
    rw [← unary.type]
    rfl

/-- What completes to a Transpose has axes, and nothing else, among its attributes. -/
theorem exists_axes_of_complete {op : Operator} (built : d.complete .transpose = .ok op) :
    ∃ axes permutation, d.HasAxes axes ∧ permutationOf axes = .ok permutation ∧
      op.operation = .transpose permutation := by
  obtain ⟨-, -, asked, -⟩ := complete_eq_ok.mp built
  obtain ⟨ofKind, denotes⟩ := readOperation_eq_ok.mp asked
  cases operation : op.operation with
  | gemm => simp [operation, Operation.kind] at ofKind
  | relu => simp [operation, Operation.kind] at ofKind
  | transpose permutation =>
    rw [operation] at denotes
    cases denotes with
    | transpose gives only accepted =>
      exact ⟨_, permutation, hasAxes_iff.mpr ⟨gives, only⟩, accepted, rfl⟩

/-- A Transpose of one operand completes exactly when its attributes are a permutation, which it keeps.
Any other axes are refused for the first that is out of range or comes again. -/
theorem transposes_exactly_permutations (unary : d.Unary) :
    ((∃ op, d.complete .transpose = .ok op) ↔ ∃ axes, d.HasAxes axes ∧ Rearranged axes) ∧
      ∀ axes, d.HasAxes axes →
        (Rearranged axes → ∃ permutation, permutation.map Int.ofNat = axes.map Int64.toInt ∧
          d.complete .transpose =
            .ok ⟨d.name, .transpose permutation, d.inputs, d.outputs, .float32⟩) ∧
        (¬ Rearranged axes → ∃ position fault, FirstFaultAt axes position fault ∧
          d.complete .transpose = .error (.invalidAttribute d.name "perm" fault)) := by
  have accepted : ∀ axes, d.HasAxes axes → Rearranged axes → ∃ permutation,
      permutation.map Int.ofNat = axes.map Int64.toInt ∧ d.complete .transpose =
        .ok ⟨d.name, .transpose permutation, d.inputs, d.outputs, .float32⟩ := by
    intro axes has rearranged
    refine ⟨_, map_toNat_toInt fun axis mem => (rearranged.range axis mem).1, ?_⟩
    rw [complete_transpose unary has, permutationOf_eq_ok.mpr ⟨rearranged, rfl⟩]
  refine ⟨⟨?_, ?_⟩, fun axes has => ⟨accepted axes has, ?_⟩⟩
  · intro h
    obtain ⟨op, built⟩ := h
    obtain ⟨axes, permutation, has, taken, -⟩ := exists_axes_of_complete built
    exact ⟨axes, has, (permutationOf_eq_ok.mp taken).1⟩
  · intro h
    obtain ⟨axes, has, rearranged⟩ := h
    obtain ⟨permutation, -, built⟩ := accepted axes has rearranged
    exact ⟨_, built⟩
  · intro other
    rw [complete_transpose unary has]
    cases outcome : permutationOf axes with
    | ok permutation => exact absurd (permutationOf_eq_ok.mp outcome).1 other
    | error fault =>
      obtain ⟨position, first⟩ := exists_firstFaultAt outcome
      exact ⟨position, fault, first, rfl⟩

/-- A cycle of three axes is kept, and of two faults the one in front is told. -/
theorem transposes_threeCycle : (∃ permutation : List Nat,
      permutation.map Int.ofNat = ([1, 2, 0] : List Int64).map Int64.toInt ∧
        (transposition "t" [1, 2, 0] "x" "y").complete .transpose =
          .ok ⟨"t", .transpose permutation, ["x"], ["y"], .float32⟩) ∧
    ∃ position, FirstFaultAt [0, 2, 0, -1] position (.axisRepeated 0) ∧
      (transposition "t" [0, 2, 0, -1] "x" "y").complete .transpose =
        .error (.invalidAttribute "t" "perm" (.axisRepeated 0)) := by
  have cycle := transposes_exactly_permutations (unary_transposition "t" [1, 2, 0] "x" "y")
  have faulty := transposes_exactly_permutations (unary_transposition "t" [0, 2, 0, -1] "x" "y")
  refine ⟨(cycle.2 _ (hasAxes_transposition ..)).1 (by decide), ?_⟩
  obtain ⟨position, fault, first, failed⟩ :=
    (faulty.2 _ (hasAxes_transposition ..)).2 (by decide)
  have repeated : (transposition "t" [0, 2, 0, -1] "x" "y").complete .transpose =
      .error (.invalidAttribute "t" "perm" (.axisRepeated 0)) := by decide +kernel
  rw [repeated] at failed
  cases failed
  exact ⟨position, first, repeated⟩

end Draft
end TensorGraph
