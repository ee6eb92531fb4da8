import Mathlib.Data.List.Find
import TensorGraph.Proofs.Building
import TensorGraph.Proofs.OctetOrder

/-! Which attributes a reader was asked for. Whatever the queries and whatever their answers, left over are
the attributes that no query named, and the least of them is refused. A checklist, on which only the names
that are found are crossed off, comes to the same end. So a kind that completes a draft has asked for all
attributes of the draft. -/
namespace TensorGraph

/-- A query for the attribute under a name, as one of the things that operators want. -/
structure Query where
  wanted : Attribute.Wanted
  key : String

def Asked (queries : List Query) (key : String) : Prop := ∃ query ∈ queries, query.key = key

/-- The least name, by octets, that attributes have and no query asks for. -/
structure LeastUnasked (attributes : Attributes) (queries : List Query) (key : String) : Prop where
  there : key ∈ attributes.keys
  unasked : ¬ Asked queries key
  least : ∀ other ∈ attributes.keys, ¬ Asked queries other → other ≠ key →
    Text.octets key < Text.octets other

/-- What a kind asks for. -/
def Kind.queries : Kind → List Query
  | .gemm => [⟨.float, "alpha"⟩, ⟨.float, "beta"⟩, ⟨.flag, "transA"⟩, ⟨.flag, "transB"⟩]
  | .relu => []
  | .transpose => [⟨.ints, "perm"⟩]

/-- Refuses a name that is left over, if there is one. -/
def refuseLeftover (node : String) : Option String → Except GraphError Unit
  | some key => .error (.invalidAttribute node key .unrecognised)
  | none => .ok ()

namespace AttributeReader

variable {reader : AttributeReader} {queries : List Query}

/-- The reader that a query leaves behind, also where it stops at a fault. -/
def afterQuery (reader : AttributeReader) (query : Query) : AttributeReader :=
  match query.wanted with
  | .float => ((float query.key).run.run reader).2
  | .flag => ((flag query.key).run.run reader).2
  | .ints => ((ints query.key).run.run reader).2

def after (reader : AttributeReader) (queries : List Query) : AttributeReader :=
  queries.foldl afterQuery reader

/-- How a look at the attributes left over ends. -/
def ending (reader : AttributeReader) : Except GraphError Unit := (finish.run.run reader).1

theorem afterQuery_eq (reader : AttributeReader) (query : Query) :
    reader.afterQuery query = reader.note query.key := by
  rw [afterQuery]
  cases query.wanted
  all_goals simp only [float, flag, ints, run_read]

theorem after_cons (reader : AttributeReader) (query : Query) (queries : List Query) :
    reader.after (query :: queries) = (reader.note query.key).after queries := by
  rw [after, List.foldl_cons, afterQuery_eq, after]

theorem after_append (queries queries' : List Query) :
    reader.after (queries ++ queries') = (reader.after queries).after queries' :=
  List.foldl_append

theorem after_eq (reader : AttributeReader) (queries : List Query) :
    reader.after queries = { reader with asked := reader.asked ++ queries.map (·.key) } := by
  induction queries generalizing reader with
  | nil => simp [after]
  | cons query rest ih =>
    rw [after_cons, ih]
    simp [note]

theorem ending_eq (reader : AttributeReader) :
    reader.ending = refuseLeftover reader.node reader.leftover? := by
  rw [ending, run_finish]
  cases reader.leftover? <;> rfl

theorem ending_eq_ok_iff : reader.ending = .ok () ↔ reader.leftover? = none := by
  rw [ending_eq]
  cases reader.leftover? <;> simp [refuseLeftover]

theorem ending_eq_error_iff {e : GraphError} : reader.ending = .error e ↔
    ∃ key, reader.leftover? = some key ∧ e = .invalidAttribute reader.node key .unrecognised := by
  rw [ending_eq]
  cases reader.leftover? <;> simp [refuseLeftover, eq_comm]

end AttributeReader

/-- A reader that crosses off what it finds. -/
structure Checklist where
  node : String
  attributes : Attributes
  crossed : NameMap Unit := .empty

namespace Checklist

variable {α : Type} {list : Checklist} {reader : AttributeReader} {key : String}

def cross (list : Checklist) (key : String) : Checklist :=
  { list with crossed := list.crossed.insert key () }

/-- Asks for the attribute under a name; a name under which there is none is not crossed off. -/
def read (convert : Attribute → Except AttributeFault α) (key : String) :
    ExceptT GraphError (StateM Checklist) (Option α) := do
  let list ← get
  match list.attributes.get? key with
  | none => return none
  | some found =>
    set (list.cross key)
    match convert found with
    | .ok x => return some x
    | .error fault => throw (.invalidAttribute list.node key fault)

def afterQuery (list : Checklist) (query : Query) : Checklist :=
  match query.wanted with
  | .float => ((read Attribute.asFloat query.key).run.run list).2
  | .flag => ((read Attribute.asFlag query.key).run.run list).2
  | .ints => ((read Attribute.asInts query.key).run.run list).2

def after (list : Checklist) (queries : List Query) : Checklist := queries.foldl afterQuery list

/-- The least name that is not crossed off. -/
def leftover? (list : Checklist) : Option String :=
  list.attributes.keys.find? fun key => (list.crossed.get? key).isNone

def ending (list : Checklist) : Except GraphError Unit := refuseLeftover list.node list.leftover?

/-- What is crossed off on a checklist is what a reader has and was asked for. -/
structure Agrees (list : Checklist) (reader : AttributeReader) : Prop where
  node : list.node = reader.node
  attributes : list.attributes = reader.attributes
  crossed : ∀ key, (list.crossed.get? key).isSome ↔
    key ∈ reader.attributes.keys ∧ key ∈ reader.asked

theorem run_read (convert : Attribute → Except AttributeFault α) (key : String) (list : Checklist) :
    (read convert key).run.run list = match list.attributes.get? key with
      | none => (.ok none, list)
      | some found => (match convert found with
        | .ok x => .ok (some x)
        | .error fault => .error (.invalidAttribute list.node key fault), list.cross key) := by
  change ((match list.attributes.get? key with
    | none => return none
    | some found => do
      set (list.cross key)
      match convert found with
      | .ok x => return some x
      | .error fault => throw (.invalidAttribute list.node key fault) :
        ExceptT GraphError (StateM Checklist) (Option α)).run.run list) = _
  cases list.attributes.get? key with
  | none => rfl
  | some found =>
    dsimp only
    cases convert found <;> rfl

namespace Agrees

/-- A query has the same answer, and there is agreement behind it. -/
theorem run_read (agrees : list.Agrees reader) (convert : Attribute → Except AttributeFault α)
    (key : String) : ((read convert key).run.run list).1 = reader.answer convert key ∧
      ((read convert key).run.run list).2.Agrees (reader.note key) := by
  rw [Checklist.run_read, AttributeReader.answer, agrees.attributes, agrees.node]
  cases found : reader.attributes.get? key with
  | none =>
    -- The name goes into the history all the same, but there is nothing to cross off.
    have absent := NameMap.get?_eq_none_iff.mp found
    refine ⟨rfl, agrees.node, agrees.attributes, fun other => ?_⟩
    rw [agrees.crossed other]
    by_cases same : other = key
    · subst same
      exact iff_of_false (fun both => absent both.1) fun both => absent both.1
    · simp [AttributeReader.note, same]
  | some value =>
    have there : key ∈ reader.attributes.keys := by
      by_contra absent
      rw [NameMap.get?_eq_none_iff.mpr absent] at found
      cases found
    refine ⟨by cases convert value <;> rfl, agrees.node, agrees.attributes, fun other => ?_⟩
    rw [cross, NameMap.get?_insert]
    by_cases same : key = other
    · subst same
      simp [AttributeReader.note, there]
    · rw [if_neg same, agrees.crossed other]
      simp [AttributeReader.note, Ne.symm same]

theorem afterQuery (agrees : list.Agrees reader) (query : Query) :
    (list.afterQuery query).Agrees (reader.afterQuery query) := by
  rw [AttributeReader.afterQuery_eq, Checklist.afterQuery]
  cases query.wanted
  all_goals exact (agrees.run_read ..).2

theorem after (agrees : list.Agrees reader) (queries : List Query) :
    (list.after queries).Agrees (reader.after queries) := by
  induction queries generalizing list reader with
  | nil => exact agrees
  | cons query rest ih => exact ih (agrees.afterQuery query)

theorem leftover?_eq (agrees : list.Agrees reader) : list.leftover? = reader.leftover? := by
  rw [leftover?, AttributeReader.leftover?, agrees.attributes]
  refine List.find?_congr fun key there => ?_
  have crossed := agrees.crossed key
  rw [and_iff_right there] at crossed
  rw [Bool.eq_iff_iff, decide_eq_true_iff, ← not_iff_not.mpr crossed, Option.isNone_iff_eq_none,
    Option.not_isSome_iff_eq_none]

theorem ending_eq (agrees : list.Agrees reader) : list.ending = reader.ending := by
  rw [ending, AttributeReader.ending_eq, agrees.leftover?_eq, agrees.node]

end Agrees
end Checklist

namespace Reading

variable {α β : Type} {x : Reading α} {f : α → Reading β} {queries queries' : List Query}

/-- A reading that has made these queries when it ends well. -/
structure Makes (x : Reading α) (queries : List Query) : Prop where
  after : ∀ {reader a}, (x.run.run reader).1 = .ok a → (x.run.run reader).2 = reader.after queries

/-- A reading that has also left nothing over when it ends well. -/
structure Exhausts (x : Reading α) (queries : List Query) : Prop extends x.Makes queries where
  nothingLeft : ∀ {reader a}, (x.run.run reader).1 = .ok a →
    (x.run.run reader).2.leftover? = none

/-- Where a sequence ends well, it ends as its second part does with the reader that the first part leaves
behind. -/
theorem exists_of_run_bind {reader : AttributeReader} {b : β} (h : ((x >>= f).run.run reader).1 = .ok b) :
    ∃ a, (x.run.run reader).1 = .ok a ∧ ((f a).run.run (x.run.run reader).2).1 = .ok b ∧
      ((x >>= f).run.run reader).2 = ((f a).run.run (x.run.run reader).2).2 := by
  rw [AttributeReader.run_bind] at h ⊢
  rcases run : x.run.run reader with ⟨_ | a, middle⟩
  · rw [run] at h
    cases h
  · rw [run] at h
    exact ⟨a, rfl, h, rfl⟩

namespace Makes

theorem pure (a : α) : Makes (Pure.pure a) [] := ⟨fun _ => rfl⟩

theorem refuse (key : String) (fault : AttributeFault) :
    Makes (AttributeReader.refuse key fault : Reading α) queries :=
  ⟨fun h => by cases h⟩

theorem float (key : String) : Makes (AttributeReader.float key) [⟨.float, key⟩] := ⟨fun _ => rfl⟩

theorem flag (key : String) : Makes (AttributeReader.flag key) [⟨.flag, key⟩] := ⟨fun _ => rfl⟩

theorem ints (key : String) : Makes (AttributeReader.ints key) [⟨.ints, key⟩] := ⟨fun _ => rfl⟩

theorem finish : Makes AttributeReader.finish [] := ⟨fun _ => by rw [AttributeReader.run_finish]; rfl⟩

theorem bind (first : x.Makes queries) (next : ∀ a, (f a).Makes queries') :
    Makes (x >>= f) (queries ++ queries') := by
  constructor
  intro reader b h
  obtain ⟨a, ended, later, same⟩ := exists_of_run_bind h
  rw [same, (next a).after later, first.after ended, AttributeReader.after_append]

end Makes

namespace Exhausts

theorem throw (e : GraphError) : Exhausts (throw e : Reading α) queries :=
  ⟨⟨fun h => by cases h⟩, fun h => by cases h⟩

theorem bind (first : x.Makes queries) (next : ∀ a, (f a).Exhausts queries') :
    Exhausts (x >>= f) (queries ++ queries') := by
  refine ⟨first.bind fun a => (next a).toMakes, fun {reader b} h => ?_⟩
  obtain ⟨a, -, later, same⟩ := exists_of_run_bind h
  rw [same]
  exact (next a).nothingLeft later

theorem finish : Exhausts AttributeReader.finish [] where
  toMakes := .finish
  nothingLeft {reader} _ ended := by
    rw [Makes.finish.after ended]
    exact AttributeReader.ending_eq_ok_iff.mp ended

/-- Once nothing is left over, a reading that asks for nothing more leaves it so. -/
theorem bind_of_makes_nil (exhausts : x.Exhausts queries) (next : ∀ a, (f a).Makes []) :
    Exhausts (x >>= f) queries := by
  have after : ∀ {reader b}, ((x >>= f).run.run reader).1 = .ok b →
      ∃ a, (x.run.run reader).1 = .ok a ∧ ((x >>= f).run.run reader).2 = (x.run.run reader).2 := by
    intro reader b h
    obtain ⟨a, ended, later, same⟩ := exists_of_run_bind h
    exact ⟨a, ended, same.trans ((next a).after later)⟩
  refine ⟨⟨fun h => ?_⟩, fun h => ?_⟩
  · obtain ⟨a, ended, same⟩ := after h
    rw [same, exhausts.after ended]
  · obtain ⟨a, ended, same⟩ := after h
    rw [same, exhausts.nothingLeft ended]

theorem map (exhausts : x.Exhausts queries) (f : α → β) : Exhausts (f <$> x) queries := by
  rw [← bind_pure_comp]
  exact exhausts.bind_of_makes_nil fun a => .pure (f a)

end Exhausts
end Reading

namespace Draft

variable {d : Draft} {kind : Kind} {queries : List Query} {key : String}

/-- The reader of a draft's attributes before the first query. -/
def reader (d : Draft) : AttributeReader := { node := d.name, attributes := d.attributes }

/-- The checklist of a draft's attributes before the first query. -/
def checklist (d : Draft) : Checklist := { node := d.name, attributes := d.attributes }

theorem agrees_checklist (d : Draft) : d.checklist.Agrees d.reader :=
  ⟨rfl, rfl, fun key => by simp [checklist, reader]⟩

theorem mem_asked_after_iff : key ∈ (d.reader.after queries).asked ↔ Asked queries key := by
  simp [AttributeReader.after_eq, reader, Asked]

theorem attributes_after (d : Draft) (queries : List Query) :
    (d.reader.after queries).attributes = d.attributes := by
  rw [AttributeReader.after_eq, reader]

theorem leftover?_after_eq_some_iff :
    (d.reader.after queries).leftover? = some key ↔ LeastUnasked d.attributes queries key := by
  rw [AttributeReader.leftover?, NameMap.find?_keys_eq_some_iff, attributes_after]
  simp only [decide_eq_true_eq, mem_asked_after_iff]
  constructor
  · rintro ⟨⟨there, unasked⟩, least⟩
    exact ⟨there, unasked, least⟩
  · rintro ⟨there, unasked, least⟩
    exact ⟨⟨there, unasked⟩, least⟩

theorem leftover?_after_eq_none_iff :
    (d.reader.after queries).leftover? = none ↔ ∀ key ∈ d.attributes.keys, Asked queries key := by
  rw [AttributeReader.leftover?_eq_none_iff, attributes_after]
  simp only [mem_asked_after_iff]

theorem exhausts_readScaling (d : Draft) : d.readScaling.Exhausts Kind.gemm.queries := by
  refine .bind (.float _) fun alpha => .bind (.float _) fun beta =>
    .bind (.flag _) fun flagA => .bind (.flag _) fun flagB => ?_
  split
  · exact .throw _
  · exact .bind_of_makes_nil .finish fun _ => .pure _

theorem exhausts_readPermutation (d : Draft) : d.readPermutation.Exhausts Kind.transpose.queries := by
  refine .bind (.ints _) fun found => ?_
  split
  · exact .throw _
  · refine .bind_of_makes_nil .finish fun _ => ?_
    split
    · exact .refuse _ _
    · exact .pure _

theorem exhausts_readOperation (d : Draft) (kind : Kind) :
    (d.readOperation kind).Exhausts kind.queries := by
  cases kind with
  | gemm => exact d.exhausts_readScaling.map _
  | relu => exact .bind_of_makes_nil .finish fun _ => .pure _
  | transpose => exact d.exhausts_readPermutation.map _

/-- Whatever a reader of attributes was asked, it ends well exactly when every name was asked for; else it
refuses the least name that was not. A checklist has crossed off what was there and asked for, and ends
alike. A kind that completes a draft has made its queries, and they asked for every name. -/
theorem unasked_exactly_refused (d : Draft) :
    (∀ queries : List Query,
      ((d.reader.after queries).ending = .ok () ↔ ∀ key ∈ d.attributes.keys, Asked queries key) ∧
      (∀ e, (d.reader.after queries).ending = .error e ↔ ∃ key,
        LeastUnasked d.attributes queries key ∧ e = .invalidAttribute d.name key .unrecognised) ∧
      (∀ key, ((d.checklist.after queries).crossed.get? key).isSome ↔
        key ∈ d.attributes.keys ∧ Asked queries key) ∧
      (d.checklist.after queries).ending = (d.reader.after queries).ending) ∧
    ∀ kind op, d.complete kind = .ok op →
      ((d.readOperation kind).run.run d.reader).2 = d.reader.after kind.queries ∧
        ∀ key ∈ d.attributes.keys, Asked kind.queries key := by
  refine ⟨fun queries => ⟨?_, fun e => ?_, fun key => ?_, ?_⟩, fun kind op built => ?_⟩
  · rw [AttributeReader.ending_eq_ok_iff, leftover?_after_eq_none_iff]
  · have node : (d.reader.after queries).node = d.name := by rw [AttributeReader.after_eq, reader]
    simp only [AttributeReader.ending_eq_error_iff, leftover?_after_eq_some_iff, node]
  · rw [(d.agrees_checklist.after queries).crossed key, attributes_after, mem_asked_after_iff]
  · exact (d.agrees_checklist.after queries).ending_eq
  · have exhausts := d.exhausts_readOperation kind
    obtain ⟨-, -, asked, -⟩ := complete_eq_ok.mp built
    have after : ((d.readOperation kind).run.run d.reader).2 = d.reader.after kind.queries :=
      exhausts.after asked
    refine ⟨after, leftover?_after_eq_none_iff.mp ?_⟩
    rw [← after]
    exact exhausts.nothingLeft asked

/-- A product with an attribute that no kind asks for, under a name that takes two octets. -/
def annotated : Draft where
  name := "g"
  attributes := .ofList [("transB", .int 1), ("é", .string "one"), ("alpha", .string "one")]
  inputs := ["a", "b", "c"]
  outputs := ["y"]
  elementType := .float32

/-- A product of which every attribute is asked for. -/
def plainProduct : Draft := { annotated with attributes := .ofList [("transB", .int 1)] }

/-- Queries that stop at a fault, come twice or find nothing are queries all the same. -/
theorem unasked_exactly_refused_annotated :
    let queries : List Query := [⟨.ints, "transB"⟩, ⟨.float, "beta"⟩, ⟨.ints, "transB"⟩]
    LeastUnasked annotated.attributes queries "alpha" ∧
      (annotated.checklist.after queries).ending =
        .error (.invalidAttribute "g" "alpha" .unrecognised) ∧
      ∀ key ∈ plainProduct.attributes.keys, Asked Kind.gemm.queries key := by
  intro queries
  obtain ⟨ends, -⟩ := unasked_exactly_refused annotated
  obtain ⟨-, refuses, -, same⟩ := ends queries
  have ending : (annotated.reader.after queries).ending =
      .error (.invalidAttribute "g" "alpha" .unrecognised) := by decide +kernel
  obtain ⟨key, least, told⟩ := (refuses _).mp ending
  cases told
  refine ⟨least, same.trans ending, ?_⟩
  have built : plainProduct.complete .gemm =
      .ok ⟨"g", .gemm ⟨.one, .one, false, true⟩, ["a", "b", "c"], ["y"], .float32⟩ := by
    decide +kernel
  exact ((unasked_exactly_refused plainProduct).2 _ _ built).2

end Draft
end TensorGraph
