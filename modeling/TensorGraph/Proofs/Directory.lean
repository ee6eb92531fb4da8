import TensorGraph.Proofs.Registration

/-! Directories: tensors in a row and, apart from it, the position of every name in the row. A directory
changes in place, so that what was changed before a failure stays changed, and each look-up reads the row
at a position that was noted earlier. A directory and a registry that get the same calls stay in step. -/
namespace TensorGraph

/-- What ends a run that reads rows at positions: a fault, or a position where nothing stands. -/
inductive Stop (ε : Type) where
  | fault (e : ε)
  | outside (position length : Nat)
  deriving DecidableEq

variable {α β ε : Type}

/-- A computation that reads at no position. -/
def plain (x : Except ε α) : Except (Stop ε) α := x.mapError .fault

/-- What stands in a row at a position. -/
def item (row : List α) (position : Nat) : Except (Stop ε) α :=
  match row[position]? with
  | some a => .ok a
  | none => .error (.outside position row.length)

@[simp] theorem plain_ok (a : α) : plain (.ok a : Except ε α) = .ok a := rfl

@[simp] theorem plain_error (e : ε) : plain (.error e : Except ε α) = .error (.fault e) := rfl

theorem plain_bind (x : Except ε α) (f : α → Except ε β) :
    plain (x >>= f) = plain x >>= fun a => plain (f a) := by
  cases x <;> rfl

theorem plain_ne_outside (x : Except ε α) (position length : Nat) :
    plain x ≠ .error (.outside position length) := by
  cases x <;> simp

theorem item_eq_ok {row : List α} {position : Nat} {a : α} (h : row[position]? = some a) :
    (item row position : Except (Stop ε) α) = .ok a := by
  rw [item, h]

namespace Shape

/-- The product of two numbers in a machine word, less what exceeds the word; nothing, if anything does. -/
def wordProduct? (a b : Nat) : Option Nat :=
  if addressLimit ≤ a * b then none else some (a * b % addressLimit)

/-- Element and octet count of a shape, counted in machine words. -/
def wordSizes? (shape : Shape) (width : Nat) : Option (Nat × Nat) := do
  let count ← shape.foldlM wordProduct? 1
  let octets ← wordProduct? count width
  return (count, octets)

/-- No word ever loses a part of a product. -/
theorem wordProduct?_eq_mulWithin? : wordProduct? = mulWithin? := by
  funext a b
  rw [wordProduct?, mulWithin?]
  by_cases fits : a * b < addressLimit
  · rw [if_neg (Nat.not_le.mpr fits), if_pos fits, Nat.mod_eq_of_lt fits]
  · rw [if_pos (Nat.not_lt.mp fits), if_neg fits]

theorem wordSizes?_eq_sizes? (shape : Shape) (width : Nat) :
    shape.wordSizes? width = shape.sizes? width := by
  rw [wordSizes?, wordProduct?_eq_mulWithin?]
  rfl

end Shape

structure Directory where
  tensors : List Tensor
  positions : NameMap Nat
  deriving DecidableEq

namespace Directory

def empty : Directory := ⟨[], ∅⟩

def names (d : Directory) : List String := d.tensors.map Tensor.name

def size (d : Directory) : Nat := d.tensors.length

def ofKind (d : Directory) (kind : TensorKind) : List Tensor := d.tensors.filter (·.kind = kind)

def contains (d : Directory) (name : String) : Bool := (d.positions.get? name).isSome

def get? (d : Directory) (name : String) : Except (Stop GraphError) (Option Tensor) :=
  match d.positions.get? name with
  | none => .ok none
  | some position => some <$> item d.tensors position

def lookup (d : Directory) (name : String) : Except (Stop GraphError) Tensor := do
  match ← d.get? name with
  | some tensor => return tensor
  | none => throw (.fault (.unknownTensor name .lookup))

end Directory

/-- A computation that changes a directory in place and may stop; the directory outlives the stop. -/
abbrev Changing := ExceptT (Stop GraphError) (StateM Directory)

namespace Changing

/-- The outcome of a computation on a directory, and the directory behind it. -/
def on (x : Changing α) (d : Directory) : Except (Stop GraphError) α × Directory := x.run.run d

@[simp] theorem on_pure (a : α) (d : Directory) : (pure a : Changing α).on d = (.ok a, d) := rfl

@[simp] theorem on_throw (s : Stop GraphError) (d : Directory) :
    (throw s : Changing α).on d = (.error s, d) := rfl

@[simp] theorem on_get (d : Directory) : (get : Changing Directory).on d = (.ok d, d) := rfl

@[simp] theorem on_modify (f : Directory → Directory) (d : Directory) :
    (modify f : Changing PUnit).on d = (.ok ⟨⟩, f d) := rfl

@[simp] theorem on_ofExcept (x : Except (Stop GraphError) α) (d : Directory) :
    (ofExcept x : Changing α).on d = (x, d) := by
  cases x <;> rfl

/-- A sequence goes on with the directory that its first part leaves behind. -/
theorem on_bind (x : Changing α) (f : α → Changing β) (d : Directory) :
    (x >>= f).on d = match x.on d with
      | (.ok a, d') => (f a).on d'
      | (.error s, d') => (.error s, d') := by
  simp only [on, bind, ExceptT.bind, ExceptT.mk, ExceptT.run, StateT.run, StateT.bind,
    ExceptT.bindCont]
  rcases x d with ⟨_ | _, _⟩ <;> rfl

end Changing

namespace Directory

def ensureVacant (name : String) : Changing Unit := do
  if (← get).contains name then throw (.fault (.duplicateName name))

/-- Notes the next position for a name, puts the tensor there and reads it back. -/
def insert (tensor : Tensor) : Changing Tensor := do
  let position := (← get).tensors.length
  modify fun d => { d with positions := d.positions.insert tensor.name position }
  modify fun d => { d with tensors := d.tensors ++ [tensor] }
  ofExcept (item (← get).tensors position)

/-- Registers an input or an intermediate tensor. -/
def declare (name : String) (elementType : ElementType) (shape : Option Shape)
    (kind : TensorKind) : Changing Tensor := do
  let storage ← ofExcept (plain (Registry.declaredStorage name shape kind))
  ensureVacant name
  ofExcept (plain (elementType.ensureSupported (.tensor name)))
  insert ⟨name, elementType, shape, storage⟩

/-- Registers an initialized tensor, whose data has to be of exactly the size of its shape. -/
def materialize (name : String) (elementType : ElementType) (shape : Shape) (data : List UInt8) :
    Changing Tensor := do
  ensureVacant name
  ofExcept (plain (elementType.ensureSupported (.weight name)))
  match shape.wordSizes? elementType.width with
  | none => throw (.fault (.invalidTensor name (.unaddressable shape)))
  | some (count, octets) =>
    if data.length ≠ octets then
      throw (.fault (.shapeMismatch name count (data.length / elementType.width)))
    insert ⟨name, elementType, some shape, .initialized data⟩

end Directory

namespace Registry

/-- The directory of a registry. -/
def directory (r : Registry) : Directory := ⟨r.tensors, .ofList r.names.zipIdx⟩

variable {r : Registry} {name : String}

theorem directory_append (r : Registry) (tensor : Tensor) (fresh : tensor.name ∉ r.names) :
    (r.append tensor fresh).directory =
      ⟨r.tensors ++ [tensor], r.directory.positions.insert tensor.name r.tensors.length⟩ := by
  simp [directory, List.zipIdx_append, NameMap.ofList, names]

/-- The position of a name is the one of its tensor. -/
theorem position_eq_some_iff {position : Nat} :
    r.directory.positions.get? name = some position ↔
      ∃ t, r.tensors[position]? = some t ∧ t.name = name := by
  have distinct : (r.names.zipIdx.map (·.1)).Nodup := by
    rw [List.zipIdx_map_fst]
    exact r.distinct
  rw [directory, NameMap.get?_ofList_eq_some_iff distinct, List.mem_zipIdx_iff_getElem?, names,
    List.getElem?_map, Option.map_eq_some_iff]

theorem position_eq_none_iff : r.directory.positions.get? name = none ↔ name ∉ r.names := by
  simp only [Option.eq_none_iff_forall_ne_some, ne_eq, position_eq_some_iff, names, List.mem_map]
  constructor
  · intro unnoted mem
    obtain ⟨t, mem, named⟩ := mem
    obtain ⟨position, found⟩ := List.mem_iff_getElem?.mp mem
    exact unnoted position ⟨t, found, named⟩
  · intro foreign position noted
    obtain ⟨t, found, named⟩ := noted
    exact foreign ⟨t, List.mem_of_getElem? found, named⟩

/-- Something stands at every position that was noted, and it is what the name is for. -/
theorem get?_directory (r : Registry) (name : String) :
    r.directory.get? name = .ok (r.get? name) := by
  rw [Directory.get?]
  cases noted : r.directory.positions.get? name with
  | none =>
    have unknown : r.get? name = none := get?_eq_none_iff.mpr (position_eq_none_iff.mp noted)
    rw [unknown]
  | some position =>
    obtain ⟨t, found, named⟩ := position_eq_some_iff.mp noted
    have known : r.get? name = some t := get?_eq_some_iff.mpr ⟨List.mem_of_getElem? found, named⟩
    rw [known]
    simp only [directory, item_eq_ok found]
    rfl

theorem contains_directory (r : Registry) (name : String) :
    r.directory.contains name = r.contains name := by
  rw [Bool.eq_iff_iff, contains_iff, Directory.contains, ← Option.ne_none_iff_isSome, ne_eq,
    position_eq_none_iff, Decidable.not_not]

theorem lookup_directory (r : Registry) (name : String) :
    r.directory.lookup name = plain (r.lookup name) := by
  rw [Directory.lookup, get?_directory, lookup]
  cases r.get? name <;> rfl

end Registry

namespace Directory
open Changing

variable {r : Registry}

/-- A call on a registry as it looks on directories, where a call that fails changes nothing. -/
def view (r : Registry) : Except GraphError (α × Registry) → Except (Stop GraphError) α × Directory
  | .ok (a, s) => (.ok a, s.directory)
  | .error e => (.error (.fault e), r.directory)

theorem on_ensureVacant (r : Registry) (name : String) :
    (ensureVacant name).on r.directory =
      (if name ∈ r.names then .error (.fault (.duplicateName name)) else .ok (), r.directory) := by
  rw [ensureVacant, on_bind, on_get]
  by_cases taken : name ∈ r.names
  · simp [Registry.contains_directory, taken]
  · simp [Registry.contains_directory, taken]

theorem on_insert {tensor : Tensor} (fresh : tensor.name ∉ r.names) :
    (insert tensor).on r.directory = (.ok tensor, (r.append tensor fresh).directory) := by
  have last : (r.tensors ++ [tensor])[r.tensors.length]? = some tensor := by simp
  rw [Registry.directory_append]
  simp only [insert, on_bind, on_get, on_modify, on_ofExcept]
  change (item (r.tensors ++ [tensor]) r.tensors.length, _) = _
  rw [item_eq_ok last]
  rfl

theorem on_declare (r : Registry) (name : String) (elementType : ElementType)
    (shape : Option Shape) (kind : TensorKind) :
    (declare name elementType shape kind).on r.directory =
      view r (r.declare name elementType shape kind) := by
  rw [declare, Registry.declare, on_bind, on_ofExcept]
  cases Registry.declaredStorage name shape kind with
  | error e => rfl
  | ok storage =>
    simp only [plain_ok]
    rw [on_bind, on_ensureVacant]
    change _ = view r (dite _ _ _)
    by_cases taken : name ∈ r.names
    · rw [if_pos taken, dif_pos taken]
      rfl
    · rw [if_neg taken, dif_neg taken]
      simp only [on_bind, on_ofExcept]
      cases elementType.ensureSupported (.tensor name) with
      | error e => rfl
      | ok _ => exact on_insert taken

theorem on_materialize (r : Registry) (name : String) (elementType : ElementType)
    (shape : Shape) (data : List UInt8) :
    (materialize name elementType shape data).on r.directory =
      view r (r.materialize name elementType shape data) := by
  rw [materialize, Registry.materialize, on_bind, on_ensureVacant]
  by_cases taken : name ∈ r.names
  · rw [if_pos taken, dif_pos taken]
    rfl
  · rw [if_neg taken, dif_neg taken]
    simp only [on_bind, on_ofExcept]
    cases elementType.ensureSupported (.weight name) with
    | error e => rfl
    | ok _ =>
      rw [Shape.wordSizes?_eq_sizes?]
      simp only [plain_ok]
      cases shape.sizes? elementType.width with
      | none => rfl
      | some sizes =>
        by_cases whole : data.length = sizes.2
        · simp only [whole, ne_eq, not_true_eq_false, if_false]
          exact on_insert taken
        · simp only [whole, ne_eq, not_false_eq_true, if_true]
          rfl

end Directory
end TensorGraph
