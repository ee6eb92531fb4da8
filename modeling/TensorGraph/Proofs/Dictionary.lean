import Mathlib.Data.List.Forall2
import TensorGraph.Proofs.Directory

/-! Registries under calls: whatever is called, a registry is a dictionary in the order of registration
that only ever grows, by one tensor for each call that succeeds. Kept as a directory, in place, it is the
same dictionary, and a call that fails leaves it as it was. -/
namespace TensorGraph

/-- A call to register a tensor. -/
inductive Call where
  | declare (name : String) (elementType : ElementType) (shape : Option Shape) (kind : TensorKind)
  | materialize (name : String) (elementType : ElementType) (shape : Shape) (data : List UInt8)
  deriving DecidableEq

namespace Call

/-- What a call does to a registry. -/
def register (r : Registry) : Call → Except GraphError (Tensor × Registry)
  | declare name elementType shape kind => r.declare name elementType shape kind
  | materialize name elementType shape data => r.materialize name elementType shape data

/-- What a call does to a directory. -/
def change : Call → Changing Tensor
  | declare name elementType shape kind => Directory.declare name elementType shape kind
  | materialize name elementType shape data => Directory.materialize name elementType shape data

/-- The tensor of a call that may succeed: inputs have a shape, and initialized tensors have the octets
that were given, four for each element of the shape. -/
inductive Stores : Call → Tensor → Prop
  | input (name : String) (shape : Shape) :
    Stores (declare name .float32 (some shape) .input) ⟨name, .float32, some shape, .input⟩
  | intermediate (name : String) (shape : Option Shape) :
    Stores (declare name .float32 shape .intermediate) ⟨name, .float32, shape, .intermediate⟩
  | initialized (name : String) {shape : Shape} {data : List UInt8} :
    shape.Addressable 4 → data.length = 4 * shape.elements →
      Stores (materialize name .float32 shape data)
        ⟨name, .float32, some shape, .initialized data⟩

end Call

namespace Registry

/-- The registry after a call; one that fails leaves it as it was. -/
def step (r : Registry) (call : Call) : Registry :=
  match call.register r with
  | .ok (_, s) => s
  | .error _ => r

/-- The registry after calls, empty before the first. -/
def after (calls : List Call) : Registry := calls.foldl step empty

/-- The calls that succeed, each in the registry that it finds. -/
def successes (r : Registry) : List Call → List Call
  | [] => []
  | call :: rest =>
    match call.register r with
    | .ok (_, s) => call :: s.successes rest
    | .error _ => r.successes rest

/-- A dictionary in the order of registration, of the tensors of some calls. -/
structure IsDictionaryOf (r : Registry) (stored : List Call) : Prop where
  distinct : r.names.Nodup
  found : ∀ name t, r.get? name = some t ↔ t ∈ r.tensors ∧ t.name = name
  contained : ∀ name, r.contains name = (r.get? name).isSome
  lookedUp : ∀ name,
    r.lookup name = (r.get? name).elim (.error (.unknownTensor name .lookup)) .ok
  tensors : List.Forall₂ Call.Stores stored r.tensors
  size : r.size = stored.length
  types : ∀ t ∈ r.tensors, t.elementType = .float32
  inputs : ∀ t ∈ r.tensors, t.kind = .input → ∃ shape, t.shape = some shape
  initialized : ∀ t ∈ r.tensors, t.kind = .initialized → ∃ shape data, t.shape = some shape ∧
    t.data? = some data ∧ data.length = 4 * shape.elements ∧
      .materialize t.name .float32 shape data ∈ stored
  kinds : (r.ofKind .input ++ r.ofKind .initialized ++ r.ofKind .intermediate).Perm r.tensors
  ofKind : ∀ kind, (r.ofKind kind).Sublist r.tensors ∧
    ∀ t, t ∈ r.ofKind kind ↔ t ∈ r.tensors ∧ t.kind = kind

end Registry

namespace Directory

def step (d : Directory) (call : Call) : Directory := (call.change.on d).2

def after (calls : List Call) : Directory := calls.foldl step empty

/-- A directory that answers as a registry does. -/
structure AnswersAs (d : Directory) (r : Registry) : Prop where
  tensors : d.tensors = r.tensors
  names : d.names = r.names
  size : d.size = r.size
  ofKind : ∀ kind, d.ofKind kind = r.ofKind kind
  get? : ∀ name, d.get? name = .ok (r.get? name)
  contains : ∀ name, d.contains name = r.contains name
  lookup : ∀ name, d.lookup name = plain (r.lookup name)

theorem answersAs_directory (r : Registry) : r.directory.AnswersAs r where
  tensors := rfl
  names := rfl
  size := rfl
  ofKind _ := rfl
  get? := r.get?_directory
  contains := r.contains_directory
  lookup := r.lookup_directory

end Directory

namespace Call

variable {r s : Registry} {call : Call} {t : Tensor}

/-- A call that succeeds appends its tensor. -/
theorem register_eq_ok :
    call.register r = .ok (t, s) ↔ call.Stores t ∧ s.tensors = r.tensors ++ [t] := by
  cases call with
  | declare name elementType shape kind =>
    rw [register, Registry.declare_eq_ok]
    constructor
    · intro h
      obtain ⟨rfl, storage, backed, rfl, appended⟩ := h
      refine ⟨?_, appended⟩
      cases kind with
      | input =>
        cases shape with
        | none => cases backed
        | some shape =>
          cases backed
          exact .input name shape
      | initialized => cases backed
      | intermediate =>
        cases backed
        exact .intermediate name shape
    · intro h
      obtain ⟨stores, appended⟩ := h
      cases stores with
      | input name shape => exact ⟨rfl, .input, rfl, rfl, appended⟩
      | intermediate name shape => exact ⟨rfl, .intermediate, rfl, rfl, appended⟩
  | materialize name elementType shape data =>
    rw [register, Registry.materialize_eq_ok, Nat.mul_comm]
    constructor
    · intro h
      obtain ⟨rfl, fits, whole, rfl, appended⟩ := h
      exact ⟨.initialized name fits whole, appended⟩
    · intro h
      obtain ⟨stores, appended⟩ := h
      cases stores with
      | initialized name fits whole => exact ⟨rfl, fits, whole, rfl, appended⟩

/-- A call does the same in place. -/
theorem on_change (r : Registry) (call : Call) :
    call.change.on r.directory = Directory.view r (call.register r) := by
  cases call with
  | declare name elementType shape kind => exact Directory.on_declare ..
  | materialize name elementType shape data => exact Directory.on_materialize ..

theorem Stores.elementType (stores : call.Stores t) : t.elementType = .float32 := by
  cases stores <;> rfl

theorem Stores.exists_shape (stores : call.Stores t) (kind : t.kind = .input) :
    ∃ shape, t.shape = some shape := by
  cases stores with
  | input name shape => exact ⟨shape, rfl⟩
  | intermediate name shape => cases kind
  | initialized name fits whole => cases kind

theorem Stores.exists_data (stores : call.Stores t) (kind : t.kind = .initialized) :
    ∃ shape data, t.shape = some shape ∧ t.data? = some data ∧ data.length = 4 * shape.elements ∧
      call = .materialize t.name .float32 shape data := by
  cases stores with
  | input name shape => cases kind
  | intermediate name shape => cases kind
  | initialized name fits whole => exact ⟨_, _, rfl, rfl, whole, rfl⟩

end Call

namespace Registry

variable {r s : Registry} {calls : List Call} {call : Call} {t : Tensor} {e : GraphError}

theorem step_of_ok (h : call.register r = .ok (t, s)) : r.step call = s := by
  rw [step, h]

theorem step_of_error (h : call.register r = .error e) : r.step call = r := by
  rw [step, h]

theorem after_append_singleton (calls : List Call) (call : Call) :
    after (calls ++ [call]) = (after calls).step call := by
  rw [after, List.foldl_append]
  rfl

/-- Calls append the tensors of those that succeed, in their order. -/
theorem exists_tensors_foldl_step (r : Registry) (calls : List Call) :
    ∃ added, (calls.foldl step r).tensors = r.tensors ++ added ∧
      List.Forall₂ Call.Stores (r.successes calls) added := by
  induction calls generalizing r with
  | nil => exact ⟨[], by simp, .nil⟩
  | cons call rest ih =>
    rw [List.foldl_cons, successes]
    cases registered : call.register r with
    | error e =>
      rw [step_of_error registered]
      exact ih r
    | ok result =>
      obtain ⟨t, s⟩ := result
      rw [step_of_ok registered]
      obtain ⟨stores, appended⟩ := Call.register_eq_ok.mp registered
      obtain ⟨added, tensors, stored⟩ := ih s
      exact ⟨t :: added, by simp [tensors, appended], .cons stores stored⟩

theorem forall₂_stores_after (calls : List Call) :
    List.Forall₂ Call.Stores (empty.successes calls) (after calls).tensors := by
  obtain ⟨added, tensors, stored⟩ := exists_tensors_foldl_step empty calls
  have all : (after calls).tensors = added := tensors
  rw [all]
  exact stored

/-- The calls have the same effect in place. -/
theorem directory_after (calls : List Call) : Directory.after calls = (after calls).directory := by
  have inStep : ∀ (r : Registry) (call : Call), r.directory.step call = (r.step call).directory := by
    intro r call
    rw [Directory.step, Call.on_change, step]
    cases call.register r <;> rfl
  have start : Directory.empty = empty.directory := rfl
  rw [Directory.after, after, start]
  exact List.foldl_hom directory inStep

/-- Tensors are those of the three kinds. -/
theorem perm_ofKind (r : Registry) :
    (r.ofKind .input ++ r.ofKind .initialized ++ r.ofKind .intermediate).Perm r.tensors := by
  simp only [ofKind]
  induction r.tensors with
  | nil => rfl
  | cons t rest ih =>
    rw [List.append_assoc] at ih
    cases kind : t.kind with
    | input => simpa [kind] using ih.cons t
    | initialized => simpa [kind] using List.perm_middle.trans (ih.cons t)
    | intermediate =>
      rw [← List.append_assoc] at ih
      simpa [kind] using List.perm_middle.trans (ih.cons t)

theorem get?_of_tensors_eq (appended : s.tensors = r.tensors ++ [t]) {name : String}
    (other : name ≠ t.name) : s.get? name = r.get? name := by
  simp [get?, appended, Ne.symm other]

theorem exists_call_of_forall₂ {stored : List Call} {tensors : List Tensor}
    (h : List.Forall₂ Call.Stores stored tensors) (mem : t ∈ tensors) :
    ∃ call ∈ stored, call.Stores t := by
  induction h with
  | nil => cases mem
  | cons stores _ ih =>
    cases mem with
    | head => exact ⟨_, .head _, stores⟩
    | tail _ mem =>
      obtain ⟨call, mem, stores⟩ := ih mem
      exact ⟨call, .tail _ mem, stores⟩

/-- After any calls. -/
theorem isDictionaryOf_after (calls : List Call) :
    (after calls).IsDictionaryOf (empty.successes calls) := by
  have stored := forall₂_stores_after calls
  have caller : ∀ t ∈ (after calls).tensors, ∃ call ∈ empty.successes calls, call.Stores t := by
    intro t mem
    exact exists_call_of_forall₂ stored mem
  constructor
  case distinct => exact (after calls).distinct
  case found => exact fun name t => get?_eq_some_iff
  case contained =>
    intro name
    rw [Bool.eq_iff_iff, contains_iff, ← Option.ne_none_iff_isSome, ne_eq, get?_eq_none_iff,
      Decidable.not_not]
  case lookedUp =>
    intro name
    rw [lookup]
    cases (after calls).get? name <;> rfl
  case tensors => exact stored
  case size => exact stored.length_eq.symm
  case types =>
    intro t mem
    obtain ⟨call, -, stores⟩ := caller t mem
    exact stores.elementType
  case inputs =>
    intro t mem kind
    obtain ⟨call, -, stores⟩ := caller t mem
    exact stores.exists_shape kind
  case initialized =>
    intro t mem kind
    obtain ⟨call, given, stores⟩ := caller t mem
    obtain ⟨shape, data, shaped, backed, whole, rfl⟩ := stores.exists_data kind
    exact ⟨shape, data, shaped, backed, whole, given⟩
  case kinds => exact perm_ofKind _
  case ofKind =>
    intro kind
    exact ⟨List.filter_sublist, fun t => by simp [ofKind]⟩

/-- After any calls a registry is a dictionary of what the successful ones stored. A further call that
fails changes nothing, also in place; one that succeeds appends the tensor that it returns, and look-ups
of other names answer as before. -/
theorem appendOnly_after (calls : List Call) :
    (after calls).IsDictionaryOf (empty.successes calls) ∧
      (Directory.after calls).AnswersAs (after calls) ∧
      (∀ call e, call.register (after calls) = .error e →
        after (calls ++ [call]) = after calls ∧
          call.change.on (Directory.after calls) = (.error (.fault e), Directory.after calls)) ∧
      ∀ call t s, call.register (after calls) = .ok (t, s) →
        after (calls ++ [call]) = s ∧ call.Stores t ∧
          s.tensors = (after calls).tensors ++ [t] ∧ s.get? t.name = some t ∧
          (∀ name, name ≠ t.name → s.get? name = (after calls).get? name) ∧
          call.change.on (Directory.after calls) = (.ok t, Directory.after (calls ++ [call])) := by
  refine ⟨isDictionaryOf_after calls, ?_, ?_, ?_⟩
  · rw [directory_after]
    exact Directory.answersAs_directory _
  · intro call e failed
    rw [after_append_singleton, step_of_error failed, directory_after, Call.on_change, failed]
    exact ⟨rfl, rfl⟩
  · intro call t s registered
    obtain ⟨stores, appended⟩ := Call.register_eq_ok.mp registered
    have last : t ∈ s.tensors := by simp [appended]
    rw [directory_after, directory_after, after_append_singleton, step_of_ok registered,
      Call.on_change, registered]
    exact ⟨rfl, stores, appended, get?_eq_some_iff.mpr ⟨last, rfl⟩,
      fun name other => get?_of_tensors_eq appended other, rfl⟩

/-- An input, a name that is taken, and a weight. -/
def threeCalls : List Call :=
  [.declare "x" .float32 (some [2]) .input, .declare "x" .float32 none .intermediate,
    .materialize "w" .float32 [1] [0, 0, 128, 63]]

theorem appendOnly_after_threeCalls :
    let short : Call := .materialize "v" .float32 [2] [0, 0, 128, 63]
    let fresh : Call := .declare "y" .float32 none .intermediate
    (after threeCalls).names = ["x", "w"] ∧
      short.register (after threeCalls) = .error (.shapeMismatch "v" 2 1) ∧
      after (threeCalls ++ [short]) = after threeCalls ∧
      ∃ s, fresh.register (after threeCalls) = .ok (.intermediate "y", s) ∧
        after (threeCalls ++ [fresh]) = s ∧ s.get? "w" = (after threeCalls).get? "w" := by
  obtain ⟨-, -, failing, growing⟩ := appendOnly_after threeCalls
  have failed : (Call.materialize "v" .float32 [2] [0, 0, 128, 63]).register (after threeCalls) =
      .error (.shapeMismatch "v" 2 1) := by decide +kernel
  have registered : (Call.declare "y" .float32 none .intermediate).register (after threeCalls) =
      .ok (.intermediate "y", after (threeCalls ++ [.declare "y" .float32 none .intermediate])) := by
    decide +kernel
  obtain ⟨same, -⟩ := failing _ _ failed
  obtain ⟨grown, -, -, -, others, -⟩ := growing _ _ _ registered
  exact ⟨by decide +kernel, failed, same, _, registered, grown, others "w" (by decide)⟩

end Registry
end TensorGraph
