import TensorGraph.Proofs.AttributeForms
import TensorGraph.Proofs.Parameters
import TensorGraph.Proofs.Places
import TensorGraph.Proofs.Rewriting.Descriptions

/-! Which values operators take for their parameters. A value is given a form where the description is
read, and the operator looks at the form alone where it is built; together they take certain numbers, or
certain lists of integers. What has no form is refused by the reader, and everything else by the operator. -/
namespace TensorGraph
open Json

/-- What is read as no attribute: what is neither number nor text nor a list of numbers, and numbers that
are out of range. A string that is no text and what was cut are no values at all. -/
inductive Json.Tree.Unreadable : Tree → Prop
  | null : Unreadable .null
  | boolean {value : Bool} : Unreadable (.boolean value)
  | object {members : List Member} : Unreadable (.object members)
  | number {literal : Literal} : literal.number? = none → Unreadable (.number literal)
  | item {items : List Tree} {item : Tree} : item ∈ items →
    (∀ literal, item = .number literal → literal.number? = none) → Unreadable (.array items)
  | string : Unreadable (.string none)
  | broken : Unreadable .broken

namespace Attribute

variable {tree : Tree} {a : Attribute}

theorem ReadFrom.not_unreadable (read : ReadFrom tree a) : ¬ tree.Unreadable := by
  have numbered {item : Tree} {n : Number} (isNumber : item.IsNumber n)
      (absent : ∀ literal, item = .number literal → literal.number? = none) : False := by
    obtain ⟨found⟩ := isNumber
    cases found.symm.trans (absent _ rfl)
  intro unreadable
  cases read with
  | number isNumber =>
    cases unreadable with
    | number absent =>
      refine numbered isNumber ?_
      rintro _ ⟨⟩
      exact absent
    | _ => cases isNumber
  | string => cases unreadable
  | array each =>
    cases unreadable with
    | item mem absent =>
      obtain ⟨n, -, isNumber⟩ := exists_of_mem_forall₂ each mem
      exact numbered isNumber absent

/-- What is not unreadable has a form. -/
theorem exists_readFrom (readable : ¬ tree.Unreadable) : ∃ a, ReadFrom tree a := by
  cases tree with
  | null => exact absurd .null readable
  | boolean => exact absurd .boolean readable
  | object => exact absurd .object readable
  | broken => exact absurd .broken readable
  | string text =>
    cases text with
    | none => exact absurd .string readable
    | some text => exact ⟨_, .string⟩
  | number literal =>
    cases found : literal.number? with
    | none => exact absurd (.number found) readable
    | some n => exact ⟨_, .number (.number found)⟩
  | array items =>
    have each : ∀ item ∈ items, ∃ n, item.IsNumber n := by
      intro item mem
      by_contra other
      refine readable (.item mem ?_)
      rintro literal rfl
      rw [Option.eq_none_iff_forall_ne_some]
      exact fun n found => other ⟨n, .number found⟩
    obtain ⟨numbers, each⟩ := exists_forall₂_of_mem each
    exact ⟨_, .array each⟩

end Attribute

/-- The values that are taken for a parameter: for a scale an integer of 64 bits, or a number that is
finite in 32 bits; for a flag an integer; for axes a list of integers that are the numbers from zero on,
rearranged. -/
def Parameter.Takes : Parameter → Tree → Prop
  | alpha, tree | beta, tree => (∃ i, tree.IsInt i) ∨ ∃ n, tree.IsNumber n ∧ n.toBinary32.isFinite
  | transB, tree => ∃ i, tree.IsInt i
  | perm, tree => ∃ items axes, tree = .array items ∧ List.Forall₂ Tree.IsInt items axes ∧ Rearranged axes

/-- The reader gives exactly these values a form that suits. -/
theorem Parameter.suits_iff_takes {p : Parameter} {tree : Tree} {a : Attribute}
    (read : Attribute.ReadFrom tree a) : p.Suits a ↔ p.Takes tree := by
  cases p with
  | transB =>
    simp only [Suits, Takes, isFlag_iff, Option.some.injEq, forall_eq']
    simp only [read.eq_iff, Attribute.readFrom_int_iff]
  | perm =>
    simp only [Suits, Takes, read.eq_iff, Attribute.readFrom_ints_iff]
    constructor
    · rintro ⟨axes, ⟨items, same, each⟩, rearranged⟩
      exact ⟨items, axes, same, each, rearranged⟩
    · rintro ⟨items, axes, same, each, rearranged⟩
      exact ⟨axes, ⟨items, same, each⟩, rearranged⟩
  | _ =>
    simp only [Suits, Takes, exists_isScale_iff, Option.some.injEq, forall_eq']
    simp only [read.eq_iff, Attribute.readFrom_int_iff, Attribute.readFrom_float_iff]
    constructor
    · rintro (isInt | ⟨_, ⟨n, isNumber, rfl, -⟩, finite⟩)
      · exact .inl isInt
      · exact .inr ⟨n, isNumber, finite⟩
    · rintro (isInt | ⟨n, isNumber, finite⟩)
      · exact .inl isInt
      · by_cases isInt : ∃ i, tree.IsInt i
        · exact .inl isInt
        · exact .inr ⟨_, ⟨n, isNumber, rfl, not_exists.mp isInt⟩, finite⟩

/-- What is taken is read. -/
theorem Parameter.Takes.not_unreadable {p : Parameter} {tree : Tree} (takes : p.Takes tree) :
    ¬ tree.Unreadable := by
  have int {i : Int64} (isInt : tree.IsInt i) : ¬ tree.Unreadable :=
    (Attribute.readFrom_int_iff.mpr isInt).not_unreadable
  cases p with
  | transB =>
    obtain ⟨i, isInt⟩ := takes
    exact int isInt
  | perm =>
    obtain ⟨items, axes, same, each, -⟩ := takes
    exact (Attribute.readFrom_ints_iff.mpr ⟨items, same, each⟩).not_unreadable
  | _ =>
    obtain ⟨i, isInt⟩ | ⟨n, isNumber, -⟩ := takes
    · exact int isInt
    · exact (Attribute.ReadFrom.number isNumber).not_unreadable

/-- A node of a description with its attributes, whatever the layouts. -/
theorem Node.partAt_attributes (depth : Nat) {place : Tree → Tree} (field : FieldOf "attributes" 2 place) :
    (Node.decoder depth).PartAt place (Attributes.decoder (depth + 1)) (fun node => some node.attributes)
      (fun node attributes => { node with attributes }) := by
  refine Decoder.partAt_record (by simp [fields, Attributes.decoder]) (by simp [fields]) ?layouts rfl ?kept
    field
  case layouts =>
    intro parts x
    simp only [finish, bind_eq_ok, Layout.require_eq_ok]
  case kept =>
    intro parts attributes node finished
    simp only [finish, bind_eq_ok, pure_eq_ok] at finished ⊢
    obtain ⟨label, labelled, rfl⟩ := finished
    exact ⟨rfl, fun _ => ⟨label, labelled, rfl⟩⟩

theorem Description.partAt_nodes {place : Tree → Tree} (field : FieldOf "nodes" 3 place) :
    Description.decoder.PartAt place (.list (Node.decoder 2)) (fun d => some d.nodes)
      (fun d nodes => { d with nodes }) := by
  refine Decoder.partAt_record (by simp) (by simp) Iff.rfl rfl ?_ field
  rintro parts nodes d ⟨⟩
  exact ⟨rfl, fun _ => rfl⟩

/-- A value stands for an attribute of the node at a position of a description. -/
inductive Description.AttributePlace (position : Nat) (key : String) : (Tree → Tree) → Prop
  | place {nodes node attributes entry : Tree → Tree} : FieldOf "nodes" 3 nodes →
    ItemOf position node → FieldOf "attributes" 2 attributes → EntryOf key entry →
      AttributePlace position key (nodes ∘ node ∘ attributes ∘ entry)

/-- A description with an attribute under a name of the node at a position. -/
def Description.withAttribute (d : Description) (position : Nat) (key : String) (a : Attribute) :
    Description :=
  { d with nodes := d.nodes.modify position (·.withAttribute key a) }

theorem Description.partAt_attribute {position : Nat} {key : String} {place : Tree → Tree}
    (isPlace : AttributePlace position key place) :
    decoder.PartAt place (Attribute.decoder 4) (fun d => d.nodes[position]?.bind (·.attributes.get? key))
      (fun d a => d.withAttribute position key a) := by
  obtain ⟨nodes, node, attributes, entry⟩ := isPlace
  have parts := (partAt_nodes nodes).comp ((Decoder.partAt_list node).comp
    ((Node.partAt_attributes 2 attributes).comp (Decoder.partAt_map entry)))
  have put (d : Description) (a : Attribute) : d.withAttribute position key a = { d with
      nodes := (d.nodes[position]?.map fun node => d.nodes.set position (node.withAttribute key a)).getD
        d.nodes } := by
    rw [withAttribute, List.modify_eq_set_getElem?]
    rfl
  simp only [put]
  exact parts

/-- A description with a place for the value of a parameter. With some value in the place it is loaded, and
the node is built. -/
structure Setting (p : Parameter) (options : Options) where
  place : Tree → Tree
  position : Nat
  isPlace : Description.AttributePlace position p.key place
  value : Tree
  description : Description
  node : Node
  loaded : Description.decoder (place value) = .ok description
  found : description.nodes[position]? = some node
  ofKind : Kind.ofLabel? node.kindLabel = some p.kind
  unchecked : p = .perm → options.checkPermutationRank = false
  built : ∃ op, (description.live options).BuildsAt options position op

namespace Setting

variable {p : Parameter} {options : Options} (s : Setting p options) {tree : Tree} {octets : List UInt8}

/-- Other values in the place are read as attributes of the node. -/
theorem ofOctets_eq_ok (writes : (s.place tree).Writes octets) {d : Description} :
    Description.ofOctets octets = .ok d ↔
      ∃ a, Attribute.ReadFrom tree a ∧ d = s.description.withAttribute s.position p.key a := by
  have room : 4 < nestingLimit := by decide
  rw [Description.ofOctets_eq_ok]
  constructor
  · rintro ⟨tree', writes', loaded⟩
    obtain rfl := writes.unique writes'
    obtain ⟨a, read, same⟩ :=
      ((Description.partAt_attribute s.isPlace).exchange s.loaded tree d).mp loaded
    exact ⟨a, (Attribute.decoder_eq_ok room).mp read, same⟩
  · rintro ⟨a, read, same⟩
    refine ⟨_, writes, ((Description.partAt_attribute s.isPlace).exchange s.loaded tree d).mpr ?_⟩
    exact ⟨a, (Attribute.decoder_eq_ok room).mpr read, same⟩

/-- A value in the place that has a form is loaded. -/
theorem ofOctets_of_readFrom (writes : (s.place tree).Writes octets) {a : Attribute}
    (read : Attribute.ReadFrom tree a) :
    Description.ofOctets octets = .ok (s.description.withAttribute s.position p.key a) :=
  (s.ofOctets_eq_ok writes).mpr ⟨a, read, rfl⟩

theorem exists_error_iff (writes : (s.place tree).Writes octets) :
    (∃ e, Description.ofOctets octets = .error e) ↔ tree.Unreadable := by
  constructor
  · rintro ⟨e, failed⟩
    by_contra readable
    obtain ⟨a, read⟩ := Attribute.exists_readFrom readable
    cases failed.symm.trans (s.ofOctets_of_readFrom writes read)
  · intro unreadable
    cases outcome : Description.ofOctets octets with
    | error e => exact ⟨e, rfl⟩
    | ok d =>
      obtain ⟨a, read, -⟩ := (s.ofOctets_eq_ok writes).mp outcome
      exact absurd unreadable read.not_unreadable

theorem found_live : (s.description.live options).nodes[s.position]? = some s.node := s.found

/-- The node is built with just the values of which the operator takes the form. -/
theorem exists_buildsAt_iff (writes : (s.place tree).Writes octets) :
    (∃ d op, Description.ofOctets octets = .ok d ∧ (d.live options).BuildsAt options s.position op) ↔
      p.Takes tree := by
  have builds (a : Attribute) := Graph.exists_buildsAt_withAttribute_iff (a := a) s.ofKind s.unchecked
    s.found_live s.built
  constructor
  · rintro ⟨d, op, loaded, built⟩
    obtain ⟨a, read, rfl⟩ := (s.ofOctets_eq_ok writes).mp loaded
    exact (Parameter.suits_iff_takes read).mp ((builds a).mp ⟨op, built⟩)
  · intro takes
    obtain ⟨a, read⟩ := Attribute.exists_readFrom takes.not_unreadable
    obtain ⟨op, built⟩ := (builds a).mpr ((Parameter.suits_iff_takes read).mpr takes)
    exact ⟨_, op, s.ofOctets_of_readFrom writes read, built⟩

/-- A form that the operator does not take is what the compilation of the description stops at. -/
theorem exists_compile_eq_error (writes : (s.place tree).Writes octets) (readable : ¬ tree.Unreadable)
    (refused : ¬ p.Takes tree) : ∃ d fault, Description.ofOctets octets = .ok d ∧ d.compile options =
      .error (.invalidAttribute (Graph.nodeName s.node p.kind s.position) p.key fault) := by
  obtain ⟨a, read⟩ := Attribute.exists_readFrom readable
  have other := mt (Parameter.suits_iff_takes read).mp refused
  obtain ⟨fault, failed⟩ :=
    Graph.exists_compile_withAttribute_eq_error s.ofKind s.found_live s.built other
  exact ⟨_, fault, s.ofOctets_of_readFrom writes read, (Description.compile_eq_live ..).trans failed⟩

/-- With a value that is taken the description compiles when it did with the value that was there. -/
theorem exists_compile_iff (writes : (s.place tree).Writes octets) (takes : p.Takes tree) :
    ∃ d, Description.ofOctets octets = .ok d ∧
      ((∃ m, d.compile options = .ok m) ↔ ∃ m, s.description.compile options = .ok m) := by
  obtain ⟨a, read⟩ := Attribute.exists_readFrom takes.not_unreadable
  have suits := (Parameter.suits_iff_takes read).mpr takes
  refine ⟨_, s.ofOctets_of_readFrom writes read, ?_⟩
  rw [Description.compile_eq_live, Description.compile_eq_live]
  exact Graph.exists_compile_withAttribute_iff s.ofKind s.unchecked s.found_live s.built suits

/-- Of the values in the place just those that have no form are refused when the description is read, and
the node is built with just those that are taken. Any other is what the description is refused for when it
is compiled, under the name of the parameter. One that is taken changes nothing of whether the description
compiles. -/
theorem takes_exactly (writes : (s.place tree).Writes octets) :
    ((∃ e, Description.ofOctets octets = .error e) ↔ tree.Unreadable) ∧
    ((∃ d op, Description.ofOctets octets = .ok d ∧ (d.live options).BuildsAt options s.position op) ↔
      p.Takes tree) ∧
    (¬ tree.Unreadable → ¬ p.Takes tree → ∃ d fault, Description.ofOctets octets = .ok d ∧
      d.compile options =
        .error (.invalidAttribute (Graph.nodeName s.node p.kind s.position) p.key fault)) ∧
    (p.Takes tree → ∃ d, Description.ofOctets octets = .ok d ∧
      ((∃ m, d.compile options = .ok m) ↔ ∃ m, s.description.compile options = .ok m)) := by
  refine ⟨s.exists_error_iff writes, s.exists_buildsAt_iff writes, ?refused, ?taken⟩
  case refused => exact s.exists_compile_eq_error writes
  case taken => exact s.exists_compile_iff writes

end Setting

/-- A product of an input with itself, and some value for the flag of B. -/
def squareText (value : String) : String :=
  "\x7b\"inputs\": [\x7b\"name\": \"x\"\x7d], \"nodes\": [\x7b\"kind\": \"affine\", " ++
    "\"attributes\": \x7b\"transB\": " ++ value ++ "\x7d, \"inputs\": [\"x\", \"x\", \"x\"], " ++
    "\"outputs\": [\"y\"], \"output_types\": [\"Float\"]\x7d]\x7d"

/-- The tree of the same text. -/
def squareTree (value : Tree) : Tree :=
  .object [(some "inputs", .array [.object [(some "name", .string (some "x"))]]),
    (some "nodes", .array [.object [(some "kind", .string (some "affine")),
      (some "attributes", .object [(some "transB", value)]),
      (some "inputs", .array [.string (some "x"), .string (some "x"), .string (some "x")]),
      (some "outputs", .array [.string (some "y")]),
      (some "output_types", .array [.string (some "Float")])]])]

def squareNode : Node where
  kindLabel := "affine"
  attributes := .ofList [("transB", .int 1)]
  inputs := ["x", "x", "x"]
  outputs := ["y"]
  outputTypes := ["Float"]

def square : Description where
  inputs := [{ name := "x", shape := [] }]
  nodes := [squareNode]

/-- The place of the flag of B, where a one would do. -/
def squareSetting : Setting .transB {} where
  place := squareTree
  position := 0
  isPlace := .place (.member [_] []) (.item [] [] rfl) (.member [_] [_, _, _]) (.entry [] [] (by simp))
  value := .number ⟨false, [digit 0x31], [], none⟩
  description := square
  node := squareNode
  loaded := by decide +kernel
  found := rfl
  ofKind := by decide +kernel
  unchecked := nofun
  built := ⟨⟨"Gemm_0", .gemm ⟨.one, .one, false, true⟩, ["x", "x", "x"], ["y"], .float32⟩,
    { tensors := [⟨"x", .float32, some [], .input⟩] }, squareNode, by decide +kernel, rfl,
    by decide +kernel⟩

/-- A negative integer is a flag; a null is not even read, and a number with a point is read but no flag. -/
theorem takes_exactly_square :
    (∃ d op, Description.ofOctets (squareText "-7").toUTF8.toList = .ok d ∧
      (d.live {}).BuildsAt {} 0 op) ∧
    (∃ e, Description.ofOctets (squareText "null").toUTF8.toList = .error e) ∧
    ∃ d fault, Description.ofOctets (squareText "1.0").toUTF8.toList = .ok d ∧
      d.compile = .error (.invalidAttribute "Gemm_0" "transB" fault) := by
  have int : (squareTree (.number ⟨true, [7], [], none⟩)).Writes (squareText "-7").toUTF8.toList := by
    decide +kernel
  have null : (squareTree .null).Writes (squareText "null").toUTF8.toList := by decide +kernel
  have float : (squareTree (.number ⟨false, [1], [0], none⟩)).Writes
      (squareText "1.0").toUTF8.toList := by decide +kernel
  refine ⟨(squareSetting.takes_exactly int).2.1.mpr ?taken, (squareSetting.takes_exactly null).1.mpr .null,
    (squareSetting.takes_exactly float).2.2.1 ?readable ?refused⟩
  case taken => exact ⟨-7, _, rfl, rfl, rfl, by decide, by decide⟩
  case readable =>
    rintro (_ | _ | _ | absent)
    exact absurd absent (by decide +kernel)
  case refused =>
    rintro ⟨i, _, ⟨⟩, writes⟩
    cases writes.fraction

end TensorGraph
