import TensorGraph.Proofs.AttributeForms
import TensorGraph.Proofs.Rewriting.Descriptions

/-! Values that are written and read again. A value may be written by many texts; reading any of them
gives back the attribute, or the node, that the value was made of. As the form of an attribute is not
written, an empty list is one of integers when it is read again. -/
namespace TensorGraph
open Json

namespace Json

/-- A literal writes a number when it has its value in its form: floats have a point or an exponent. -/
inductive Literal.Writes : Literal → Number → Prop
  | integer {literal : Literal} {i : ℤ} : literal.WritesInteger i → Writes literal (.integer i)
  | float {literal : Literal} {y : Binary64} : literal.WritesFloat y → Writes literal (.float y)

namespace Value

mutual

/-- The trees of a value: only how numbers are written is left open. -/
inductive WrittenAs : Value → Tree → Prop
  | null : WrittenAs .null .null
  | boolean {value : Bool} : WrittenAs (.boolean value) (.boolean value)
  | number {n : Number} {literal : Literal} : literal.Writes n → WrittenAs (.number n) (.number literal)
  | string {text : String} : WrittenAs (.string text) (.string (some text))
  | array {items : List Value} {trees : List Tree} :
    List.Forall₂ WrittenAs items trees → WrittenAs (.array items) (.array trees)
  | object {members : List (String × Value)} {trees : List Member} :
    List.Forall₂ MemberWrittenAs members trees → WrittenAs (.object members) (.object trees)

inductive MemberWrittenAs : String × Value → Member → Prop
  | member {key : String} {value : Value} {tree : Tree} :
    WrittenAs value tree → MemberWrittenAs (key, value) (some key, tree)

end

end Value

theorem Literal.exists_writes (n : Number) : ∃ literal : Literal, literal.Writes n := by
  cases n with
  | integer i =>
    obtain ⟨literal, writes⟩ := exists_writesInteger i
    exact ⟨literal, .integer writes⟩
  | float y =>
    obtain ⟨literal, writes⟩ := exists_writesFloat y
    exact ⟨literal, .float writes⟩

/-- Every value can be written. -/
theorem Value.exists_writtenAs : (value : Value) → ∃ tree, value.WrittenAs tree
  | .null => ⟨_, .null⟩
  | .boolean _ => ⟨_, .boolean⟩
  | .number n =>
    have ⟨_, writes⟩ := Literal.exists_writes n
    ⟨_, .number writes⟩
  | .string _ => ⟨_, .string⟩
  | .array items =>
    have ⟨_, each⟩ := exists_forall₂_of_mem fun item (_ : item ∈ items) => item.exists_writtenAs
    ⟨_, .array each⟩
  | .object members =>
    have ⟨_, each⟩ := exists_forall₂_of_mem fun member (_ : member ∈ members) =>
      have ⟨tree, written⟩ := member.2.exists_writtenAs
      ⟨(some member.1, tree), .member written⟩
    ⟨_, .object each⟩
  decreasing_by
    all_goals simp_wf
    · have := List.sizeOf_lt_of_mem ‹item ∈ items›
      omega
    · have := List.sizeOf_lt_of_mem ‹member ∈ members›
      obtain ⟨key, value⟩ := member
      simp only [Prod.mk.sizeOf_spec] at this ⊢
      omega

end Json

namespace Attribute

/-- All floats of an attribute are finite. -/
def Finite : Attribute → Prop
  | .float x => x.isFinite
  | .floats xs => ∀ x ∈ xs, x.isFinite
  | _ => True

/-- What becomes of an attribute that is written and read again. -/
def reread : Attribute → Attribute
  | .floats [] => .ints []
  | other => other

theorem reread_eq_self_iff {a : Attribute} : a.reread = a ↔ a ≠ .floats [] := by
  cases a with
  | floats xs => cases xs <;> simp [reread]
  | _ => simp [reread]

theorem ofNumber_float (y : Binary64) : ofNumber (.float y) = .float (.ofBinary64 y) := rfl

theorem ofNumber_integer (i : Int64) : ofNumber (.integer i.toInt) = .int i := ofNumber_eq_int.mpr rfl

theorem ofNumbers_integers (values : List Int64) :
    ofNumbers (values.map fun i => .integer i.toInt) = .ints values := ofNumbers_eq_ints.mpr rfl

/-- Floats make floats of a list, unless there is none. -/
theorem ofNumbers_floats (ys : List Binary64) :
    ofNumbers (ys.map .float) = (Attribute.floats (ys.map .ofBinary64)).reread := by
  cases ys with
  | nil => rfl
  | cons y ys =>
    have mem : Number.float y ∈ (y :: ys).map .float := List.mem_cons_self
    rw [ofNumbers_of_mem mem rfl, List.map_map]
    rfl

variable {a : Attribute} {tree : Tree}

/-- What is written for a finite float is read as floats that narrow to it. -/
theorem isNumber_of_floatValue {x : Binary32} (finite : x.isFinite)
    (written : (floatValue x).WrittenAs tree) :
    ∃ y, tree.IsNumber (.float y) ∧ Binary32.ofBinary64 y = x := by
  rw [floatValue, if_pos finite] at written
  cases written with
  | number writes =>
    cases writes with
    | float writes =>
      obtain ⟨y, found, same⟩ := Literal.number?_of_writesFloat finite writes
      exact ⟨y, .number found, same⟩

theorem exists_numbers_of_floats {xs : List Binary32} {items : List Tree} (finite : ∀ x ∈ xs, x.isFinite)
    (each : List.Forall₂ (fun x item => (floatValue x).WrittenAs item) xs items) :
    ∃ ys : List Binary64, List.Forall₂ (fun item y => item.IsNumber (.float y)) items ys ∧
      ys.map .ofBinary64 = xs := by
  induction each with
  | nil => exact ⟨[], .nil, rfl⟩
  | cons first _ ih =>
    rw [List.forall_mem_cons] at finite
    obtain ⟨y, isNumber, rfl⟩ := isNumber_of_floatValue finite.1 first
    obtain ⟨ys, rest, rfl⟩ := ih finite.2
    exact ⟨y :: ys, .cons isNumber rest, rfl⟩

/-- What is written for an attribute is read as the attribute, but for its form when it is empty. -/
theorem readFrom_of_writtenAs (finite : a.Finite) (written : a.toValue.WrittenAs tree) :
    ReadFrom tree a.reread := by
  cases a with
  | int i =>
    cases written with
    | number writes =>
      cases writes with
      | integer writes =>
        rw [reread, ← ofNumber_integer]
        · exact .number (Tree.isInt_iff.mp ⟨_, rfl, writes⟩)
        · simp
  | float x =>
    obtain ⟨y, isNumber, same⟩ := isNumber_of_floatValue finite written
    rw [reread, ← same, ← ofNumber_float]
    · exact .number isNumber
    · simp
  | string text =>
    cases written
    exact .string
  | ints values =>
    cases written with
    | array each =>
      rw [List.forall₂_map_left_iff] at each
      rw [reread, ← ofNumbers_integers]
      · refine .array (List.forall₂_map_right_iff.mpr (each.flip.imp fun item i written => ?_))
        cases written with
        | number writes =>
          cases writes with
          | integer writes => exact Tree.isInt_iff.mp ⟨_, rfl, writes⟩
      · simp
  | floats xs =>
    cases written with
    | array each =>
      rw [List.forall₂_map_left_iff] at each
      obtain ⟨ys, numbers, rfl⟩ := exists_numbers_of_floats finite each
      rw [← ofNumbers_floats]
      exact .array (List.forall₂_map_right_iff.mpr numbers)

/-- The form is found again in memory as well, where nothing is written. -/
theorem ofValue?_toValue (finite : a.Finite) : ofValue? a.toValue = some a.reread := by
  rw [ofValue?_eq_some]
  cases a with
  | int i => exact .inl ⟨_, rfl, (ofNumber_integer i).symm⟩
  | float x =>
    refine .inl ⟨.float x.toBinary64, if_pos finite, ?_⟩
    rw [ofNumber_float, Binary32.ofBinary64_toBinary64 finite]
    rfl
  | string text => exact .inr (.inl ⟨text, rfl, rfl⟩)
  | ints values =>
    refine .inr (.inr ⟨values.map fun i => .integer i.toInt, ?_, ?_⟩)
    · rw [toValue, List.map_map]
      rfl
    · rw [ofNumbers_integers]
      rfl
  | floats xs =>
    refine .inr (.inr ⟨(xs.map Binary32.toBinary64).map .float, ?_, ?_⟩)
    · rw [toValue, List.map_map, List.map_map]
      congr 1
      exact List.map_congr_left fun x mem => if_pos (finite x mem)
    · have same : (xs.map Binary32.toBinary64).map Binary32.ofBinary64 = xs := by
        rw [List.map_map]
        exact (List.map_congr_left fun x mem => Binary32.ofBinary64_toBinary64 (finite x mem)).trans
          xs.map_id
      rw [ofNumbers_floats, same]

/-- No attribute is read from a text that goes no further. -/
theorem not_marked_of_readFrom (read : ReadFrom tree a) : ¬tree.Marked := by
  intro marked
  cases read with
  | number isNumber =>
    cases isNumber
    cases marked
  | string => cases marked
  | array each =>
    generalize same : Tree.array _ = tree at marked
    cases marked with
    | array items =>
      cases same
      obtain ⟨n, -, isNumber⟩ := exists_of_mem_forall₂ each (x := .broken) (by simp)
      cases isNumber
    | _ => cases same

/-- A text of an attribute is read as what its tree is read from. -/
theorem document_eq_ok {octets : List UInt8} :
    (decoder 0).document octets = .ok a ↔ ∃ tree : Tree, tree.Writes octets ∧ ReadFrom tree a := by
  have room : 0 < nestingLimit := by decide
  rw [Decoder.document_eq_ok_iff]
  · simp only [decoder_eq_ok room]
  · intro tree marked x read
    exact not_marked_of_readFrom ((decoder_eq_ok room).mp read) marked

end Attribute

namespace NameMap

variable {α : Type}

theorem nodup_keys (m : NameMap α) : (m.entries.map (·.1)).Nodup :=
  List.pairwise_map.mpr (m.ascending.imp String.ne_of_lt)

/-- A map is made of its entries. -/
theorem ofList_entries (m : NameMap α) : ofList m.entries = m := by
  apply eq_of_get?
  intro name
  apply Option.ext
  intro x
  exact (get?_ofList_eq_some_iff m.nodup_keys).trans get?_eq_some_iff.symm

end NameMap

/-- Attributes that read back as themselves: their floats are finite, and no list of floats is empty. -/
def Attributes.Rereadable (attributes : Attributes) : Prop :=
  ∀ key a, attributes.get? key = some a → a.Finite ∧ a ≠ .floats []

theorem Attributes.decoder_of_writtenAs {attributes : Attributes} (rereadable : attributes.Rereadable)
    {depth : ℕ} (room : depth + 1 < nestingLimit) {tree : Tree}
    (written : attributes.toValue.WrittenAs tree) : decoder depth tree = .ok attributes := by
  cases written with
  | object each =>
    refine Decoder.Alike.members_eq_ok.mpr ⟨attributes.entries, ?_, attributes.ofList_entries⟩
    rw [List.forall₂_map_left_iff] at each
    have entries : ∀ entry ∈ attributes.entries, entry.2.Finite ∧ entry.2 ≠ .floats [] :=
      fun entry mem => rereadable entry.1 entry.2 (NameMap.get?_eq_some_iff.mpr mem)
    refine ((List.forall₂_and_left _ _).mpr ⟨entries, each⟩).flip.imp fun member entry h => ?_
    obtain ⟨⟨finite, filled⟩, written⟩ := h
    cases written with
    | member written =>
      have read := Attribute.readFrom_of_writtenAs finite written
      rw [Attribute.reread_eq_self_iff.mpr filled] at read
      exact ⟨rfl, (Attribute.decoder_eq_ok room).mpr read⟩

namespace Node

theorem strings_of_writtenAs {texts : List String} {tree : Tree}
    (written : (Value.strings texts).WrittenAs tree) : Decoder.list .string tree = .ok texts := by
  cases written with
  | array each =>
    rw [List.forall₂_map_left_iff] at each
    refine Decoder.mapM_eq_ok.mpr (each.flip.imp fun item text written => ?_)
    cases written
    rfl

theorem optional_of_writtenAs {name : Option String} {tree : Tree}
    (written : ((name.map Value.string).getD .null).WrittenAs tree) :
    Decoder.optional .string tree = .ok name := by
  cases name <;> cases written <;> rfl

/-- A node is read from what is written for it, whether it stands alone or in a description. -/
theorem decoder_of_writtenAs {node : Node} (rereadable : node.attributes.Rereadable) {depth : ℕ}
    (room : depth + 2 < nestingLimit) {tree : Tree} (written : node.toValue.WrittenAs tree) :
    decoder depth tree = .ok node := by
  cases written with
  | object each =>
    simp only [List.forall₂_cons_left_iff, List.forall₂_nil_left_iff] at each
    obtain ⟨_, _, ⟨name⟩, ⟨_, _, ⟨kind⟩, ⟨_, _, ⟨attributes⟩, ⟨_, _, ⟨inputs⟩,
      ⟨_, _, ⟨outputs⟩, ⟨_, _, ⟨types⟩, rfl, rfl⟩, rfl⟩, rfl⟩, rfl⟩, rfl⟩, rfl⟩ := each
    have name' : Decoder.optional .string _ = .ok node.name := optional_of_writtenAs name
    have attributes' : Attributes.decoder (depth + 1) _ = .ok node.attributes :=
      Attributes.decoder_of_writtenAs rereadable room attributes
    have inputs' := strings_of_writtenAs inputs
    have outputs' := strings_of_writtenAs outputs
    have types' := strings_of_writtenAs types
    cases kind
    simp [decoder, Decoder.record, Decoder.recordMembers, fields, Slot.part, name', attributes', inputs',
      outputs', types', Decoder.string, finish, Layout.require, bind, Except.bind, pure, Except.pure]

/-- A text of a node is read as what its tree is read as. -/
theorem document_eq_ok {node : Node} {octets : List UInt8} :
    (decoder 0).document octets = .ok node ↔
      ∃ tree : Tree, tree.Writes octets ∧ decoder 0 tree = .ok node :=
  Decoder.document_eq_ok_iff fun _ => (readsRecord_decoder 0).ne_ok_of_marked

end Node

/-- Every attribute with finite floats reads back as itself, from its value and from all texts of it, but
for the empty list of floats, which reads back as one of integers. So every node reads back as itself
when its floats are finite and none of its attributes is an empty list of floats. -/
theorem values_read_back :
    (∀ a : Attribute, a.Finite →
      (a.reread = a ↔ a ≠ .floats []) ∧ Attribute.ofValue? a.toValue = some a.reread ∧
        ∀ (tree : Tree) (octets : List UInt8), a.toValue.WrittenAs tree → tree.Writes octets →
          (Attribute.decoder 0).document octets = .ok a.reread) ∧
    (Attribute.floats []).reread = .ints [] ∧
    ∀ node : Node, node.attributes.Rereadable → ∀ (tree : Tree) (octets : List UInt8),
      node.toValue.WrittenAs tree → tree.Writes octets →
        (Node.decoder 0).document octets = .ok node := by
  refine ⟨fun a finite => ⟨Attribute.reread_eq_self_iff, Attribute.ofValue?_toValue finite, ?_⟩, rfl, ?_⟩
  · intro tree octets written writes
    exact Attribute.document_eq_ok.mpr ⟨tree, writes, Attribute.readFrom_of_writtenAs finite written⟩
  · intro node rereadable tree octets written writes
    exact Node.document_eq_ok.mpr
      ⟨tree, writes, Node.decoder_of_writtenAs rereadable (by decide) written⟩

/-- A node with a half for its scale. -/
def halved : Node where
  kindLabel := "gemm"
  attributes := .ofList [("alpha", .float ⟨0x3f000000⟩)]

def halvedText : String :=
  "\x7b\"name\":null,\"kind\":\"gemm\",\"attributes\":\x7b\"alpha\":5e-1\x7d," ++
    "\"inputs\":[],\"outputs\":[],\"output_types\":[]\x7d"

theorem halved_reads_back :
    (Attribute.decoder 0).document "5e-1".toUTF8.toList = .ok (.float ⟨0x3f000000⟩) ∧
      (Node.decoder 0).document halvedText.toUTF8.toList = .ok halved := by
  have finite : (Attribute.float ⟨0x3f000000⟩).Finite :=
    show Binary32.isFinite ⟨0x3f000000⟩ = true by decide
  have half : Value.WrittenAs (Attribute.float ⟨0x3f000000⟩).toValue
      (.number ⟨false, [5], [], some (-1)⟩) :=
    .number (.float ⟨.inr (by decide), by decide +kernel, by decide +kernel⟩)
  have attributes : halved.attributes.toValue.WrittenAs
      (.object [(some "alpha", .number ⟨false, [5], [], some (-1)⟩)]) :=
    .object (.cons (.member half) .nil)
  have written : halved.toValue.WrittenAs (.object [(some "name", .null),
      (some "kind", .string (some "gemm")),
      (some "attributes", .object [(some "alpha", .number ⟨false, [5], [], some (-1)⟩)]),
      (some "inputs", .array []), (some "outputs", .array []), (some "output_types", .array [])]) :=
    .object (.cons (.member .null) (.cons (.member .string) (.cons (.member attributes)
      (.cons (.member (.array .nil)) (.cons (.member (.array .nil))
        (.cons (.member (.array .nil)) .nil))))))
  have rereadable : halved.attributes.Rereadable := by
    intro key a found
    rw [NameMap.get?_eq_some_iff] at found
    obtain ⟨-, rfl⟩ : key = "alpha" ∧ a = .float ⟨0x3f000000⟩ := by
      simpa [halved, NameMap.ofList, NameMap.insert, NameMap.place, NameMap.empty] using found
    exact ⟨finite, by decide⟩
  obtain ⟨ofAttribute, -, ofNode⟩ := values_read_back
  constructor
  · exact (ofAttribute (.float ⟨0x3f000000⟩) finite).2.2 _ _ half (by decide +kernel)
  · exact ofNode halved rereadable _ _ written (by decide +kernel)

/-- All floats of an empty list are finite, and it is not read back as itself. -/
theorem empty_floats_read_back_as_ints :
    (Attribute.floats []).Finite ∧ (Attribute.floats []).toValue.WrittenAs (.array []) ∧
      (Tree.array []).Writes "[]".toUTF8.toList ∧
        (Attribute.decoder 0).document "[]".toUTF8.toList = .ok (.ints []) ∧
          Attribute.ints [] ≠ .floats [] :=
  ⟨nofun, .array .nil, by decide +kernel, by decide +kernel, nofun⟩

end TensorGraph
