import TensorGraph.Proofs.Building

/-! The flag of A beside a flag of B. The flag of B decides, so that the other one could be left out or
have any value; but it is read, and what is no flag is refused all the same. -/
namespace TensorGraph

namespace NameMap

variable {α : Type}

def erase (m : NameMap α) (name : String) : NameMap α where
  entries := m.entries.filter (·.1 ≠ name)
  ascending := m.ascending.filter _

@[simp] theorem get?_erase (m : NameMap α) (name key : String) :
    (m.erase name).get? key = if name = key then none else m.get? key := by
  by_cases same : name = key
  · subst same
    rw [if_pos rfl, get?_eq_none_iff, keys, erase]
    simp
  · rw [if_neg same, get?, get?, erase, List.find?_filter]
    congr 2
    funext entry
    by_cases here : entry.1 = key
    · simp [here, Ne.symm same]
    · simp [here]

theorem keys_erase (m : NameMap α) (name : String) :
    (m.erase name).keys = m.keys.filter (· ≠ name) := by
  rw [keys, keys, erase, List.filter_map]
  rfl

/-- Takes a name out of a map, or puts a value under it. -/
def set (m : NameMap α) (name : String) : Option α → NameMap α
  | none => m.erase name
  | some value => m.insert name value

theorem get?_set (m : NameMap α) (name key : String) (found : Option α) :
    (m.set name found).get? key = if name = key then found else m.get? key := by
  cases found with
  | none => exact m.get?_erase name key
  | some value => exact m.get?_insert name key value

theorem erase_set (m : NameMap α) (name : String) (found : Option α) :
    (m.set name found).erase name = m.erase name := by
  apply eq_of_get?
  intro key
  by_cases same : name = key
  · simp [same]
  · simp [get?_set, same]

/-- A map has itself what it has under a name. -/
theorem set_get? (m : NameMap α) (name : String) : m.set name (m.get? name) = m := by
  apply eq_of_get?
  intro key
  rw [get?_set]
  split
  · rename_i same
    rw [same]
  · rfl

end NameMap

namespace Draft

variable {α : Type} {d : Draft} {found : Option Attribute}

/-- A draft with another attribute under a name, or with none. -/
def set (d : Draft) (key : String) (found : Option Attribute) : Draft :=
  { d with attributes := d.attributes.set key found }

theorem answer_set_of_ne (convert : Attribute → Except AttributeFault α) {key other : String}
    (apart : key ≠ other) : (d.set key found).answer convert other = d.answer convert other := by
  simp only [answer, AttributeReader.answer, set, NameMap.get?_set, if_neg apart]

/-- What is asked for may be there or not. -/
theorem expectOnly_set {key : String} {asked : List String} (mem : key ∈ asked) :
    (d.set key found).expectOnly asked = (d.set key none).expectOnly asked := by
  have rest : ∀ attributes : Attributes, attributes.keys.find? (· ∉ asked) =
      (attributes.erase key).keys.find? (· ∉ asked) := by
    intro attributes
    rw [NameMap.keys_erase, List.find?_filter]
    congr 1
    funext other
    by_cases same : other = key
    · simp [same, mem]
    · simp [same]
  have same : (d.set key found).attributes.erase key = (d.set key none).attributes.erase key := by
    simp only [set, NameMap.erase_set]
  rw [expectOnly, expectOnly, rest (d.set key found).attributes, rest (d.set key none).attributes, same]
  rfl

/-- What a Gemm reads in front of its flags. -/
def readScales (d : Draft) : Except GraphError (Option Binary32 × Option Binary32) := do
  d.expectArity (inputCount .gemm) 1
  d.elementType.ensureSupported (.operator d.name .gemm)
  let alpha ← d.answer Attribute.asFloat "alpha"
  let beta ← d.answer Attribute.asFloat "beta"
  return (alpha, beta)

/-- What becomes of a Gemm behind its flags when that of B is there. -/
def finishScaling (d : Draft) (transB : Bool) (scales : Option Binary32 × Option Binary32) :
    Except GraphError Operator := do
  d.expectOnly ["alpha", "beta", "transA", "transB"]
  let scaling : Scaling :=
    { alpha := scales.1.getD .one, beta := scales.2.getD .one, transA := !transB, transB }
  return ⟨d.name, .gemm scaling, d.inputs, d.outputs, d.elementType⟩

theorem complete_set_flagA {flagB : Int64} (decided : d.attributes.get? "transB" = some (.int flagB))
    (found : Option Attribute) : (d.set "transA" found).complete .gemm = (do
      let scales ← d.readScales
      let _ ← (d.set "transA" found).answer Attribute.asFlag "transA"
      (d.set "transA" none).finishScaling (flagB != 0) scales) := by
  have alpha : (d.set "transA" found).answer Attribute.asFloat "alpha" = _ :=
    answer_set_of_ne _ (by decide)
  have beta : (d.set "transA" found).answer Attribute.asFloat "beta" = _ :=
    answer_set_of_ne _ (by decide)
  have flag : (d.set "transA" found).answer Attribute.asFlag "transB" = .ok (some (flagB != 0)) := by
    rw [answer_set_of_ne _ (by decide), answer_eq_ok, Attributes.Gives, decided]
    rfl
  have others : (d.set "transA" found).expectOnly ["alpha", "beta", "transA", "transB"] = _ :=
    expectOnly_set (by decide)
  rw [complete, read_readOperation]
  simp only [read_readScaling, alpha, beta, flag, others, ok_bind, readScales, finishScaling, bind_assoc,
    ← bind_pure_comp, pure_bind]
  refine bind_congr fun _ => bind_congr fun _ => bind_congr fun _ => bind_congr fun _ =>
    bind_congr fun flagA => ?_
  rw [show (some (flagB != 0) <|> flagA.map not) = some (flagB != 0) from rfl]
  simp only [bind_assoc, pure_bind]
  rfl

/-- The outcome with something that is no flag for the flag of A, from the outcome without it: all that
would come to light behind the flags is replaced. -/
def refusingFlagA (node : String) (value : Attribute) :
    Except GraphError Operator → Except GraphError Operator
  | .ok _ | .error (.invalidAttribute _ _ .unrecognised) =>
    .error (.invalidAttribute node "transA" (.mistyped .flag value.form))
  | .error e => .error e

theorem answer_flag_int (d : Draft) (key : String) (flag : Int64) :
    (d.set key (some (.int flag))).answer Attribute.asFlag key = .ok (some (flag != 0)) := by
  rw [answer_eq_ok, Attributes.Gives, set, NameMap.get?_set, if_pos rfl]
  rfl

theorem answer_flag_absent (d : Draft) (key : String) :
    (d.set key none).answer Attribute.asFlag key = .ok none := by
  rw [answer_eq_ok, Attributes.Gives, set, NameMap.get?_set, if_pos rfl]
  rfl

theorem answer_flag_other (d : Draft) (key : String) {value : Attribute} (other : value.form ≠ .int) :
    (d.set key (some value)).answer Attribute.asFlag key =
      .error (.invalidAttribute d.name key (.mistyped .flag value.form)) := by
  have mistyped : value.asFlag = .error (.mistyped .flag value.form) := by
    cases value with
    | int => exact absurd rfl other
    | _ => rfl
  have found : NameMap.get? (d.set key (some value)).attributes key = some value := by
    rw [set, NameMap.get?_set, if_pos rfl]
  rw [answer, AttributeReader.answer]
  simp only [found, mistyped]
  rfl

/-- Faults other than that of an attribute which nobody asks for. -/
def Recognised (e : GraphError) : Prop := ∀ node key, e ≠ .invalidAttribute node key .unrecognised

theorem asFloat_ne_unrecognised (value : Attribute) : value.asFloat ≠ .error .unrecognised := by
  cases value with
  | float x =>
    rw [Attribute.asFloat]
    split <;> simp
  | _ => simp [Attribute.asFloat]

theorem recognised_answer_float (key : String) :
    FaultsIn Recognised (d.answer Attribute.asFloat key) := by
  rw [answer, AttributeReader.answer]
  split
  · exact .ok _
  · split
    · exact .ok _
    · rename_i fault converted
      refine .error fun node other same => ?_
      cases same
      exact asFloat_ne_unrecognised _ converted

/-- Nothing that is read in front of the flags is about names that nobody asks for. -/
theorem recognised_readScales (d : Draft) : FaultsIn Recognised d.readScales := by
  have arity : FaultsIn Recognised (d.expectArity (inputCount .gemm) 1) := by
    rw [expectArity]
    split
    · exact .ok _
    · exact .error (by simp [Recognised])
  have supported : FaultsIn Recognised
      (d.elementType.ensureSupported (.operator d.name .gemm)) := by
    rw [ElementType.ensureSupported]
    split
    · exact .ok _
    · exact .error (by simp [Recognised])
  exact arity.bind fun _ _ => supported.bind fun _ _ => (recognised_answer_float _).bind fun _ _ =>
    (recognised_answer_float _).bind fun _ _ => .ok _

theorem refusingFlagA_of_recognised {node : String} {value : Attribute} {e : GraphError}
    (recognised : Recognised e) : refusingFlagA node value (.error e) = .error e := by
  cases e with
  | invalidAttribute operator key fault =>
    cases fault with
    | unrecognised => exact absurd rfl (recognised operator key)
    | _ => rfl
  | _ => rfl

theorem refusingFlagA_finishScaling (node : String) (value : Attribute) (transB : Bool)
    (scales : Option Binary32 × Option Binary32) :
    refusingFlagA node value (d.finishScaling transB scales) =
      .error (.invalidAttribute node "transA" (.mistyped .flag value.form)) := by
  rw [finishScaling, expectOnly]
  split <;> rfl

theorem refusingFlagA_eq_self_iff {node : String} {value : Attribute}
    {outcome : Except GraphError Operator} :
    refusingFlagA node value outcome = outcome ↔ ∃ e, Recognised e ∧ outcome = .error e := by
  cases outcome with
  | ok op => simp [refusingFlagA]
  | error e =>
    by_cases recognised : Recognised e
    · exact iff_of_true (refusingFlagA_of_recognised recognised) ⟨e, recognised, rfl⟩
    · obtain ⟨operator, key, same⟩ : ∃ operator key, e = .invalidAttribute operator key .unrecognised := by
        simpa [Recognised] using recognised
      rw [same] at recognised ⊢
      simp [refusingFlagA, recognised]

/-- Any flag of A beside a flag of B may be left out, and the outcome is the same. -/
theorem complete_set_int {flagB : Int64} (decided : d.attributes.get? "transB" = some (.int flagB))
    (flagA : Int64) : (d.set "transA" (some (.int flagA))).complete .gemm =
      (d.set "transA" none).complete .gemm := by
  rw [complete_set_flagA decided, complete_set_flagA decided, answer_flag_int, answer_flag_absent]
  rfl

/-- What is no flag is refused where the flags are read. -/
theorem complete_set_other {flagB : Int64} (decided : d.attributes.get? "transB" = some (.int flagB))
    {value : Attribute} (other : value.form ≠ .int) : (d.set "transA" (some value)).complete .gemm =
      refusingFlagA d.name value ((d.set "transA" none).complete .gemm) := by
  rw [complete_set_flagA decided, complete_set_flagA decided, answer_flag_other d _ other,
    answer_flag_absent]
  cases read : d.readScales with
  | error e => exact (refusingFlagA_of_recognised ((recognised_readScales d).of_error e read)).symm
  | ok scales => exact (refusingFlagA_finishScaling ..).symm

/-- Beside a flag of B, an attribute for the flag of A changes nothing when it is a flag, or when the
product is refused in front of the flags in any case. Anything else is refused in place of an operator, or
of a complaint about a name that nobody asks for. -/
theorem flagA_beside_flagB {flagB : Int64} (decided : d.attributes.get? "transB" = some (.int flagB)) :
    d.set "transA" (d.attributes.get? "transA") = d ∧ ∀ value : Attribute,
      ((d.set "transA" (some value)).complete .gemm = (d.set "transA" none).complete .gemm ↔
        value.form = .int ∨
          ∃ e, Recognised e ∧ (d.set "transA" none).complete .gemm = .error e) ∧
      (value.form ≠ .int → (d.set "transA" (some value)).complete .gemm =
        refusingFlagA d.name value ((d.set "transA" none).complete .gemm)) := by
  refine ⟨by rw [set, NameMap.set_get?], fun value => ⟨?_, complete_set_other decided⟩⟩
  by_cases flag : value.form = .int
  · cases value with
    | int flagA => exact iff_of_true (complete_set_int decided flagA) (.inl flag)
    | _ => cases flag
  · rw [complete_set_other decided flag, refusingFlagA_eq_self_iff]
    exact (or_iff_right flag).symm

/-- A product with both flags. -/
def flagged (flagA : Attribute) : Draft where
  name := "g"
  attributes := .ofList [("transA", flagA), ("transB", .int 1)]
  inputs := ["a", "b", "c"]
  outputs := ["y"]
  elementType := .float32

theorem flagA_beside_flagB_flagged :
    (flagged (.int 1)).complete .gemm = ((flagged (.int 1)).set "transA" none).complete .gemm ∧
      ((flagged (.int 1)).set "transA" (some (.floats []))).complete .gemm =
        .error (.invalidAttribute "g" "transA" (.mistyped .flag .floats)) := by
  have decided : (flagged (.int 1)).attributes.get? "transB" = some (.int 1) := by decide +kernel
  have present : (flagged (.int 1)).attributes.get? "transA" = some (.int 1) := by decide +kernel
  obtain ⟨same, each⟩ := flagA_beside_flagB decided
  rw [present] at same
  constructor
  · have ignored := (each (.int 1)).1.mpr (.inl rfl)
    rwa [same] at ignored
  · rw [(each (.floats [])).2 (by decide)]
    decide +kernel

/-- A text for the flag of A is refused, though the flag of B is there to decide: without the text the
product is built. -/
theorem mistyped_flagA_refused :
    (flagged (.string "no")).attributes.get? "transB" = some (.int 1) ∧
      (flagged (.string "no")).complete .gemm =
        .error (.invalidAttribute "g" "transA" (.mistyped .flag .string)) ∧
      ((flagged (.string "no")).set "transA" none).complete .gemm =
        .ok ⟨"g", .gemm ⟨.one, .one, false, true⟩, ["a", "b", "c"], ["y"], .float32⟩ := by
  refine ⟨by decide +kernel, by decide +kernel, by decide +kernel⟩

end Draft
end TensorGraph
