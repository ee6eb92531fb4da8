import TensorGraph.Proofs.Rewriting.Records

/-! Rewriting descriptions. The description and the records in it may be rewritten, and their tokens
spaced, as one likes: the same description is loaded. -/
namespace TensorGraph
open Json

namespace Input

/-- The members of a declaration within a description. -/
def known : List KnownMember := [
  { name := "name" },
  { name := "dtype", defaults := [.null, .string (some defaultTypeLabel)] },
  { name := "shape", defaults := [.array []] }]

theorem readsRecord_listedDecoder : listedDecoder.ReadsRecord known := by
  refine .record ⟨by simp, by simp, ?reads, ?layouts⟩
  case reads =>
    refine .cons Slot.reads_required (.cons (Slot.reads_part rfl ?types nofun)
      (.cons (Slot.reads_default rfl ?shapes nofun) .nil))
    case types =>
      simp only [List.forall_mem_cons]
      refine ⟨⟨none, rfl, ?_⟩, ⟨some defaultTypeLabel, rfl, ?_⟩, nofun⟩
      · intro parts absent
        simp [absent]
      · intro parts absent
        simp [absent]
    case shapes =>
      intro parts absent
      simp [absent]
  case layouts =>
    intro parts x
    simp only [bind_eq_ok, Layout.require_eq_ok]

end Input

namespace Node

/-- The members of a node. -/
def known : List KnownMember := [
  { name := "name", defaults := [.null] },
  { name := "kind" },
  { name := "attributes", defaults := [.object []], inside := Reordered },
  { name := "inputs", defaults := [.array []] },
  { name := "outputs", defaults := [.array []] },
  { name := "output_types", defaults := [.array []] }]

theorem readsRecord_decoder (depth : Nat) : (decoder depth).ReadsRecord known := by
  refine .record ⟨by simp [fields, Attributes.decoder], by simp [fields], ?reads, ?layouts⟩
  case reads =>
    refine .cons (Slot.reads_default rfl ?_ nofun) (.cons Slot.reads_required
      (.cons (Slot.reads_default rfl ?_ fun _ _ => Decoder.Alike.map_reordered)
        (.cons (Slot.reads_default rfl ?_ nofun) (.cons (Slot.reads_default rfl ?_ nofun)
          (.cons (Slot.reads_default rfl ?_ nofun) .nil)))))
    all_goals
      intro parts absent
      simp [finish, absent]
  case layouts =>
    intro parts x
    simp only [finish, bind_eq_ok, Layout.require_eq_ok]

end Node

namespace Weight

/-- The members of a weight, none of which has a default. -/
def known : List KnownMember :=
  [{ name := "name" }, { name := "dtype" }, { name := "shape" }, { name := "values" }]

theorem readsRecord_decoder : decoder.ReadsRecord known := by
  refine .record ⟨by simp, by simp, by simp [known], ?layouts⟩
  case layouts =>
    intro parts x
    simp only [bind_eq_ok, Layout.require_eq_ok]

end Weight

namespace Description

/-- A zero as it is written. -/
def zero : Tree := .number { negative := false, whole := [digit 0x30], fraction := [], exponent := none }

/-- The members of a description. -/
def known : List KnownMember := [
  { name := "name", defaults := [.string (some defaultName)] },
  { name := "placeholder_inputs", defaults := [zero] },
  { name := "inputs", defaults := [.array []], inside := InItem (Rewrite Input.known) },
  { name := "nodes", defaults := [.array []], inside := InItem (Rewrite Node.known) },
  { name := "weights", defaults := [.array []], inside := InItem (Rewrite Weight.known) },
  { name := "outputs", defaults := [.array []] }]

theorem readsRecord_decoder : decoder.ReadsRecord known := by
  refine .record ⟨by simp, by simp, ?_, Iff.rfl⟩
  have inputs : ∀ tree tree', InItem (Rewrite Input.known) tree tree' →
      (Decoder.list Input.listedDecoder).Alike tree tree' :=
    fun _ _ => .list_inItem fun _ _ => Input.readsRecord_listedDecoder.alike
  have nodes : ∀ tree tree', InItem (Rewrite Node.known) tree tree' →
      (Decoder.list (Node.decoder 2)).Alike tree tree' :=
    fun _ _ => .list_inItem fun _ _ => (Node.readsRecord_decoder 2).alike
  have weights : ∀ tree tree', InItem (Rewrite Weight.known) tree tree' →
      (Decoder.list Weight.decoder).Alike tree tree' :=
    fun _ _ => .list_inItem fun _ _ => Weight.readsRecord_decoder.alike
  have nothing : digit 0x30 = 0 := by decide
  refine .cons (Slot.reads_default rfl ?_ nofun) (.cons (Slot.reads_default rfl ?_ nofun)
    (.cons (Slot.reads_default rfl ?_ inputs) (.cons (Slot.reads_default rfl ?_ nodes)
      (.cons (Slot.reads_default rfl ?_ weights) (.cons (Slot.reads_default rfl ?_ nofun) .nil)))))
  all_goals
    intro parts absent
    simp [absent, nothing]

/-- Texts are rewritten by rewriting their trees and spacing the tokens anew. -/
def Rewritten (octets octets' : List UInt8) : Prop :=
  ∃ tree tree' : Tree, tree.Writes octets ∧ Relation.EqvGen (Rewrite known) tree tree' ∧
    tree'.Writes octets'

theorem ofOctets_eq_ok {octets : List UInt8} {d : Description} :
    ofOctets octets = .ok d ↔ ∃ tree : Tree, tree.Writes octets ∧ decoder tree = .ok d :=
  Decoder.document_eq_ok_iff fun _ => readsRecord_decoder.ne_ok_of_marked

/-- A text that is loaded may be rewritten, and all that it is rewritten to is loaded as the same. -/
theorem load_rewritten {octets : List UInt8} {d : Description} (read : ofOctets octets = .ok d) :
    Rewritten octets octets ∧ ∀ octets', Rewritten octets octets' → ofOctets octets' = .ok d := by
  obtain ⟨tree, writes, decoded⟩ := ofOctets_eq_ok.mp read
  constructor
  · exact ⟨tree, tree, writes, .refl tree, writes⟩
  · intro octets' rewritten
    obtain ⟨first, last, writesFirst, steps, writesLast⟩ := rewritten
    obtain rfl := writes.unique writesFirst
    have alike := Decoder.Alike.eqvGen (fun _ _ => readsRecord_decoder.alike) steps
    exact ofOctets_eq_ok.mpr ⟨last, writesLast, (alike d).mp decoded⟩

/-- An input with nothing but its name. -/
def terseText : String := "\x7b\"inputs\":[\x7b\"name\":\"x\"\x7d]\x7d"

/-- The same input as an array, and a note that no description knows. -/
def verboseText : String :=
  "\x7b \"note\" : [-1e999, \"\\ud800\"],\n  \"inputs\" : [ [\"x\", null, []] ] \x7d"

theorem rewritten_verboseText : Rewritten terseText.toUTF8.toList verboseText.toUTF8.toList := by
  let name : Tree := .string (some "x")
  let note : Tree := .array [.number ⟨true, [1], [], some 999⟩, .string none]
  have typed : Rewrite Input.known (.object [(some "name", name)])
      (.object [(some "name", name), (some "dtype", .null)]) :=
    @Rewrite.default _ [_] [] { name := "dtype", defaults := [.null, .string (some "Float")] } _
      (by simp [Input.known, defaultTypeLabel]) (by simp) (by simp)
  have shaped : Rewrite Input.known (.object [(some "name", name), (some "dtype", .null)])
      (.object [(some "name", name), (some "dtype", .null), (some "shape", .array [])]) :=
    @Rewrite.default _ [_, _] [] { name := "shape", defaults := [.array []] } _
      (by simp [Input.known]) (by simp) (by simp)
  have placed : Rewrite Input.known
      (.object [(some "name", name), (some "dtype", .null), (some "shape", .array [])])
      (.array [name, .null, .array []]) := @Rewrite.positions Input.known [_, _, _] rfl
  have steps : Relation.EqvGen (Rewrite Input.known) (.object [(some "name", name)])
      (.array [name, .null, .array []]) :=
    .trans _ _ _ (.rel _ _ typed) (.trans _ _ _ (.rel _ _ shaped) (.rel _ _ placed))
  have inputs : known[2] ∈ known := List.getElem_mem _
  have input := Rewrite.eqvGen_inItem inputs (fun _ _ => id) steps [] [] [] []
  have noted : Rewrite known (.object [(some "inputs", .array [.array [name, .null, .array []]])])
      (.object [(some "note", note), (some "inputs", .array [.array [name, .null, .array []]])]) :=
    @Rewrite.unknown _ [] [_] "note" note (by simp [known])
  exact ⟨_, _, by decide +kernel, input.trans _ _ _ (.rel _ _ noted), by decide +kernel⟩

theorem load_rewritten_verbose :
    Rewritten terseText.toUTF8.toList verboseText.toUTF8.toList ∧
      ofOctets verboseText.toUTF8.toList = .ok { inputs := [{ name := "x", shape := [] }] } := by
  have read : ofOctets terseText.toUTF8.toList = .ok { inputs := [{ name := "x", shape := [] }] } := by
    decide +kernel
  exact ⟨rewritten_verboseText, (load_rewritten read).2 _ rewritten_verboseText⟩

end Description
end TensorGraph
