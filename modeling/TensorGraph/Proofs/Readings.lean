import TensorGraph.Operator.Draft
import TensorGraph.Proofs.Outcome

/-! What the attributes of a draft are read as, said without a reader: answers for the names that a kind
asks for, and behind them a look at the names that nobody asks for. So attributes stand for an operation
by themselves, whoever reads them. -/
namespace TensorGraph

namespace Attributes

variable {α : Type}

/-- What stands under a name converts to what is found, or there is nothing. -/
def Gives (attributes : Attributes) (convert : Attribute → Except AttributeFault α) (key : String)
    (found : Option α) : Prop :=
  (attributes.get? key).map convert = found.map .ok

/-- There are no names but those that are asked for. -/
def Only (attributes : Attributes) (asked : List String) : Prop :=
  ∀ key ∈ attributes.keys, key ∈ asked

/-- The operations that attributes stand for, one of each kind at most. -/
inductive Denotes (attributes : Attributes) : Operation → Prop
  | gemm {alpha beta : Option Binary32} {flagA flagB : Option Bool} {transB : Bool} :
    attributes.Gives Attribute.asFloat "alpha" alpha →
      attributes.Gives Attribute.asFloat "beta" beta →
        attributes.Gives Attribute.asFlag "transA" flagA →
          attributes.Gives Attribute.asFlag "transB" flagB →
            (flagB <|> flagA.map not) = some transB →
              attributes.Only ["alpha", "beta", "transA", "transB"] →
                Denotes attributes (.gemm
                  { alpha := alpha.getD .one, beta := beta.getD .one, transA := !transB, transB })
  | relu : attributes.Only [] → Denotes attributes .relu
  | transpose {axes : List Int64} {permutation : List Nat} :
    attributes.Gives Attribute.asInts "perm" (some axes) → attributes.Only ["perm"] →
      permutationOf axes = .ok permutation → Denotes attributes (.transpose permutation)

end Attributes

namespace AttributeReader

variable {α β : Type}

/-- A sequence of readings goes on with the reader that its first part leaves behind. -/
theorem run_bind (x : Reading α) (f : α → Reading β) (reader : AttributeReader) :
    (x >>= f).run.run reader = match x.run.run reader with
      | (.ok a, middle) => (f a).run.run middle
      | (.error e, middle) => (.error e, middle) := by
  simp only [bind, ExceptT.bind, ExceptT.mk, ExceptT.run, StateT.run, StateT.bind, ExceptT.bindCont]
  rcases x reader with ⟨_ | _, _⟩ <;> rfl

theorem fst_run_bind {x : Reading α} {f : α → Reading β} {reader : AttributeReader} :
    ((x >>= f).run.run reader).1 =
      (x.run.run reader).1 >>= fun a => ((f a).run.run (x.run.run reader).2).1 := by
  rw [run_bind]
  rcases x.run.run reader with ⟨_ | _, _⟩ <;> rfl

end AttributeReader

/-- The operator that a fault of attributes or of operands lies with. -/
def GraphError.operator? : GraphError → Option String
  | .missingAttribute node _ | .invalidAttribute node _ _ | .invalidNode node _ => some node
  | _ => none

/-- A computation that stops at nothing but faults of an operator. -/
abbrev FaultsAt {α : Type} (node : String) (x : Except GraphError α) : Prop :=
  FaultsIn (fun e => e.operator? = some node) x

namespace Draft

variable {α : Type} {d : Draft}

/-- What a draft answers for the name of an attribute. -/
def answer (d : Draft) (convert : Attribute → Except AttributeFault α) (key : String) :
    Except GraphError (Option α) :=
  AttributeReader.answer { node := d.name, attributes := d.attributes } convert key

/-- Refuses the first attribute that is none of those a kind asks for. -/
def expectOnly (d : Draft) (asked : List String) : Except GraphError Unit :=
  match d.attributes.keys.find? (· ∉ asked) with
  | some key => .error (.invalidAttribute d.name key .unrecognised)
  | none => .ok ()

theorem read_readScaling (d : Draft) : d.read d.readScaling = (do
    let alpha ← d.answer Attribute.asFloat "alpha"
    let beta ← d.answer Attribute.asFloat "beta"
    let flagA ← d.answer Attribute.asFlag "transA"
    let flagB ← d.answer Attribute.asFlag "transB"
    match flagB <|> flagA.map not with
    | none => throw (.missingAttribute d.name "transA/transB")
    | some transB =>
      d.expectOnly ["alpha", "beta", "transA", "transB"]
      return { alpha := alpha.getD .one, beta := beta.getD .one, transA := !transB, transB }) := by
  simp only [read, AttributeReader.outcome, readScaling, AttributeReader.fst_run_bind,
    AttributeReader.float, AttributeReader.flag, AttributeReader.run_read]
  refine bind_congr fun alpha => bind_congr fun beta => bind_congr fun flagA =>
    bind_congr fun flagB => ?_
  cases flagB <|> flagA.map not with
  | none => rfl
  | some transB =>
    simp only [AttributeReader.fst_run_bind, AttributeReader.run_finish]
    rfl

theorem read_readPermutation (d : Draft) : d.read d.readPermutation = (do
    match ← d.answer Attribute.asInts "perm" with
    | none => throw (.missingAttribute d.name "perm")
    | some axes =>
      d.expectOnly ["perm"]
      (permutationOf axes).mapError (.invalidAttribute d.name "perm")) := by
  simp only [read, AttributeReader.outcome, readPermutation, AttributeReader.fst_run_bind,
    AttributeReader.ints, AttributeReader.run_read]
  refine bind_congr fun found => ?_
  cases found with
  | none => rfl
  | some axes =>
    simp only [AttributeReader.fst_run_bind, AttributeReader.run_finish]
    refine bind_congr fun _ => ?_
    cases permutationOf axes <;> rfl

theorem faultsAt_answer (convert : Attribute → Except AttributeFault α) (key : String) :
    FaultsAt d.name (d.answer convert key) := by
  rw [answer, AttributeReader.answer]
  split
  · exact .ok _
  · split
    · exact .ok _
    · exact .error rfl

theorem faultsAt_expectOnly (asked : List String) : FaultsAt d.name (d.expectOnly asked) := by
  rw [expectOnly]
  split
  · exact .error rfl
  · exact .ok _

/-- Each kind asks for its attributes and for no others. -/
theorem read_readOperation (d : Draft) (kind : Kind) :
    d.read (d.readOperation kind) = match kind with
      | .gemm => Operation.gemm <$> d.read d.readScaling
      | .relu => d.expectOnly [] >>= fun _ => .ok .relu
      | .transpose => Operation.transpose <$> d.read d.readPermutation := by
  cases kind with
  | gemm =>
    simp only [read, AttributeReader.outcome, readOperation, ← bind_pure_comp,
      AttributeReader.fst_run_bind]
    rfl
  | relu =>
    simp only [read, AttributeReader.outcome, readOperation, AttributeReader.fst_run_bind,
      AttributeReader.run_finish]
    rfl
  | transpose =>
    simp only [read, AttributeReader.outcome, readOperation, ← bind_pure_comp,
      AttributeReader.fst_run_bind]
    rfl

theorem answer_eq_ok {convert : Attribute → Except AttributeFault α} {key : String}
    {found : Option α} :
    d.answer convert key = .ok found ↔ d.attributes.Gives convert key found := by
  rw [answer, AttributeReader.answer, Attributes.Gives]
  cases there : d.attributes.get? key with
  | none => cases found <;> simp
  | some value => cases converted : convert value <;> cases found <;> simp [converted]

theorem expectOnly_eq_ok {asked : List String} {u : Unit} :
    d.expectOnly asked = .ok u ↔ d.attributes.Only asked := by
  rw [expectOnly, Attributes.Only]
  cases left : d.attributes.keys.find? (· ∉ asked) with
  | none => simpa using left
  | some key =>
    have unasked : key ∉ asked := by simpa using List.find?_some left
    have there := List.mem_of_find?_eq_some left
    exact iff_of_false nofun fun only => unasked (only key there)

theorem readScaling_eq_ok {scaling : Scaling} :
    d.read d.readScaling = .ok scaling ↔ d.attributes.Denotes (.gemm scaling) := by
  simp only [read_readScaling, bind_eq_ok, answer_eq_ok]
  constructor
  · rintro ⟨alpha, givesAlpha, beta, givesBeta, flagA, givesA, flagB, givesB, h⟩
    cases decided : flagB <|> flagA.map not with
    | none => simp [decided, throw_ne_ok] at h
    | some transB =>
      simp only [decided, bind_eq_ok, expectOnly_eq_ok, pure_eq_ok] at h
      obtain ⟨-, only, rfl⟩ := h
      exact .gemm givesAlpha givesBeta givesA givesB decided only
  · intro denotes
    cases denotes with
    | gemm givesAlpha givesBeta givesA givesB decided only =>
      refine ⟨_, givesAlpha, _, givesBeta, _, givesA, _, givesB, ?_⟩
      rw [decided]
      exact bind_eq_ok.mpr ⟨(), expectOnly_eq_ok.mpr only, rfl⟩

theorem readPermutation_eq_ok {permutation : List Nat} :
    d.read d.readPermutation = .ok permutation ↔ d.attributes.Denotes (.transpose permutation) := by
  simp only [read_readPermutation, bind_eq_ok, answer_eq_ok]
  constructor
  · rintro ⟨found, gives, h⟩
    cases found with
    | none => simp [throw_ne_ok] at h
    | some axes =>
      simp only [bind_eq_ok, expectOnly_eq_ok] at h
      obtain ⟨-, only, h⟩ := h
      cases accepted : permutationOf axes with
      | error fault =>
        rw [accepted] at h
        cases h
      | ok result =>
        rw [accepted] at h
        cases h
        exact .transpose gives only accepted
  · intro denotes
    cases denotes with
    | transpose gives only accepted =>
      refine ⟨_, gives, bind_eq_ok.mpr ⟨(), expectOnly_eq_ok.mpr only, ?_⟩⟩
      rw [accepted]
      rfl

theorem expectOnly_nil_eq_ok {u : Unit} :
    d.expectOnly [] = .ok u ↔ d.attributes.Denotes .relu := by
  rw [expectOnly_eq_ok]
  constructor
  · exact .relu
  · intro denotes
    cases denotes with
    | relu only => exact only

/-- A kind reads the operation of this kind that the attributes stand for. -/
theorem readOperation_eq_ok {kind : Kind} {operation : Operation} :
    d.read (d.readOperation kind) = .ok operation ↔
      operation.kind = kind ∧ d.attributes.Denotes operation := by
  rw [read_readOperation]
  cases kind with
  | gemm =>
    simp only [map_eq_ok, readScaling_eq_ok]
    cases operation <;> simp [Operation.kind]
  | relu =>
    simp only [bind_eq_ok, expectOnly_nil_eq_ok]
    cases operation <;> simp [Operation.kind]
  | transpose =>
    simp only [map_eq_ok, readPermutation_eq_ok]
    cases operation <;> simp [Operation.kind]

theorem faultsAt_readScaling (d : Draft) : FaultsAt d.name (d.read d.readScaling) := by
  rw [read_readScaling]
  refine (faultsAt_answer ..).bind fun alpha _ => (faultsAt_answer ..).bind fun beta _ =>
    (faultsAt_answer ..).bind fun flagA _ => (faultsAt_answer ..).bind fun flagB _ => ?_
  cases flagB <|> flagA.map not with
  | none => exact .error rfl
  | some transB => exact (faultsAt_expectOnly _).bind fun _ _ => .ok _

theorem faultsAt_readPermutation (d : Draft) : FaultsAt d.name (d.read d.readPermutation) := by
  rw [read_readPermutation]
  refine (faultsAt_answer ..).bind fun found _ => ?_
  cases found with
  | none => exact .error rfl
  | some axes =>
    refine (faultsAt_expectOnly _).bind fun _ _ => ?_
    cases permutationOf axes with
    | error fault => exact .error rfl
    | ok permutation => exact .ok _

/-- Whatever is wrong with the attributes of a draft is said of its operator. -/
theorem faultsAt_readOperation (d : Draft) (kind : Kind) :
    FaultsAt d.name (d.read (d.readOperation kind)) := by
  rw [read_readOperation]
  cases kind with
  | gemm => exact d.faultsAt_readScaling.map _
  | relu => exact (faultsAt_expectOnly _).bind fun _ _ => .ok _
  | transpose => exact d.faultsAt_readPermutation.map _

/-- A draft that does not complete has a type that models are not built of, or else the fault lies with
its operator. -/
theorem faultsIn_complete (d : Draft) (kind : Kind) {P : GraphError → Prop}
    (operator : ∀ e, e.operator? = some d.name → P e)
    (type : d.elementType ≠ .float32 →
      P (.unsupportedType d.elementType.name (.operator d.name kind))) :
    FaultsIn P (d.complete kind) := by
  have arity : FaultsAt d.name (d.expectArity (inputCount kind) 1) := by
    rw [expectArity]
    split
    · exact .ok _
    · exact .error rfl
  have supported : FaultsIn P (d.elementType.ensureSupported (.operator d.name kind)) := by
    rw [ElementType.ensureSupported]
    split
    · exact .ok _
    · rename_i other
      exact .error (type (mt ElementType.isSupported_iff.mpr other))
  refine (arity.mono operator).bind fun _ _ => supported.bind fun _ _ => ?_
  exact ((d.faultsAt_readOperation kind).mono operator).bind fun _ _ => .ok _

end Draft
end TensorGraph
