import TensorGraph.CommandLine.Run
import TensorGraph.Proofs.Listing

/-! What the import command prints, and how it ends: as far as its steps come, it prints what they give.
With shapes it prints what it does without, and behind that one line for each tensor. -/
namespace TensorGraph

namespace CommandLine
open Json (FormatError)

variable {opened : String → Opened} {graph : String} {config : Option String} {m : Model}

/-- The options of a command: the default ones, or those that a file holds. -/
inductive HasOptions (opened : String → Opened) : Option String → Options → Prop
  | default : HasOptions opened none {}
  | file {path : String} {data : List UInt8} {options : Options} :
    opened path = .file data → Options.ofOctets data = .ok options →
      HasOptions opened (some path) options

/-- All steps of an import succeed: the options are there, the graph is read, and it compiles. -/
def Imports (opened : String → Opened) (graph : String) (config : Option String) (m : Model) : Prop :=
  ∃ options data description, HasOptions opened config options ∧ opened graph = .file data ∧
    Description.ofOctets data = .ok description ∧ description.compile options = .ok m

/-- A run ends with success just when something is so, and with failure otherwise. -/
def Outcome.EndsWellIff (outcome : Outcome) (P : Prop) : Prop :=
  (outcome.code = 0 ↔ P) ∧ (outcome.code = 1 ↔ ¬ P)

theorem Outcome.EndsWellIff.of_pos {outcome : Outcome} {P : Prop} (h : P) (code : outcome.code = 0) :
    outcome.EndsWellIff P := by
  simp [EndsWellIff, h, code]

theorem Outcome.EndsWellIff.of_neg {outcome : Outcome} {P : Prop} (h : ¬ P) (code : outcome.code = 1) :
    outcome.EndsWellIff P := by
  simp [EndsWellIff, h, code]

theorem attempt_eq_ok {ε α : Type} {context : String} {causes : ε → List String} {x : Except ε α}
    {a : α} : attempt context causes x = .ok a ↔ x = .ok a := by
  cases x <;> simp [attempt, Except.mapError]

theorem load_eq_ok {α : Type} {read : List UInt8 → Except FormatError α} {path : String} {a : α} :
    load opened read path = .ok a ↔ ∃ data, opened path = .file data ∧ read data = .ok a := by
  rw [load]
  cases opened path with
  | file data =>
    cases done : read data with
    | error e => simp [done, Except.mapError]
    | ok a => simp [done, Except.mapError]
  | directory => simp
  | fault fault => simp

theorem loadOptions_eq_ok {options : Options} :
    loadOptions opened config = .ok options ↔ HasOptions opened config options := by
  cases config with
  | none =>
    constructor
    · rintro ⟨⟩
      exact .default
    · rintro ⟨⟩
      rfl
  | some path =>
    rw [loadOptions, attempt_eq_ok, load_eq_ok]
    constructor
    · rintro ⟨data, there, read⟩
      exact .file there read
    · rintro ⟨⟩
      exact ⟨_, ‹_›, ‹_›⟩

theorem importModel_eq_ok :
    importModel opened graph config = .ok m ↔ Imports opened graph config m := by
  simp only [importModel, bind_eq_ok, attempt_eq_ok, loadOptions_eq_ok, load_eq_ok, Imports]
  constructor
  · rintro ⟨options, has, description, ⟨data, there, read⟩, compiled⟩
    exact ⟨options, data, description, has, there, read, compiled⟩
  · rintro ⟨options, data, description, has, there, read, compiled⟩
    exact ⟨options, has, description, ⟨data, there, read⟩, compiled⟩

theorem Imports.compiled (imports : Imports opened graph config m) : m.Compiled := by
  obtain ⟨options, data, description, -, -, -, ran⟩ := imports
  exact .description ran

theorem Imports.unique {m' : Model} (imports : Imports opened graph config m)
    (imports' : Imports opened graph config m') : m = m' := by
  rw [← importModel_eq_ok] at imports imports'
  exact Except.ok.inj (imports.symm.trans imports')

/-- A request for a command with a filter in order runs the command. -/
theorem run_of_parse {arguments : List String} {filter : String} {command : Command}
    (parsed : parse? none arguments = some (.command filter command))
    (valid : LogFilter.check filter = .ok ()) : run opened arguments = command.run opened := by
  rw [run, parsed]
  simp only [Request.run, valid]

theorem run_importGraph_of_imports (imports : Imports opened graph config m) (shapes : Bool) :
    (Command.importGraph graph config shapes).run opened = printModel m shapes := by
  rw [Command.run, importModel_eq_ok.mpr imports]

theorem run_importGraph_of_not_imports (fails : ¬ ∃ m, Imports opened graph config m) (shapes : Bool) :
    ((Command.importGraph graph config shapes).run opened).code = 1 ∧
      ((Command.importGraph graph config shapes).run opened).output = "" := by
  rw [Command.run]
  cases imported : importModel opened graph config with
  | error failure => exact ⟨rfl, rfl⟩
  | ok m => exact absurd ⟨m, importModel_eq_ok.mp imported⟩ fails

theorem printModel_of_error {e : GraphError} (failed : m.shapes = .error e) :
    (printModel m true).code = 1 ∧ (printModel m true).output = m.report := by
  rw [printModel, failed]
  exact ⟨rfl, rfl⟩

theorem printModel_of_ok {known : NameMap Shape} (inferred : m.shapes = .ok known) :
    printModel m true = { code := 0, output := m.report ++ m.shapeReport known } := by
  rw [printModel, inferred]
  rfl

/-- Without shapes an import ends well when its steps succeed. -/
theorem endsWell_plain : ((Command.importGraph graph config false).run opened).EndsWellIff
    (∃ m, Imports opened graph config m) := by
  by_cases imports : ∃ m, Imports opened graph config m
  · refine .of_pos imports ?_
    obtain ⟨m, imports⟩ := imports
    rw [run_importGraph_of_imports imports]
    rfl
  · exact .of_neg imports (run_importGraph_of_not_imports imports false).1

/-- With shapes it does when inference succeeds as well. -/
theorem endsWell_detailed : ((Command.importGraph graph config true).run opened).EndsWellIff
    (∃ m known, Imports opened graph config m ∧ m.shapes = .ok known) := by
  by_cases imports : ∃ m, Imports opened graph config m
  · obtain ⟨m, imports⟩ := imports
    rw [run_importGraph_of_imports imports]
    cases inferred : m.shapes with
    | ok known =>
      refine .of_pos ⟨m, known, imports, inferred⟩ ?_
      rw [printModel_of_ok inferred]
    | error e =>
      refine .of_neg ?_ (printModel_of_error inferred).1
      rintro ⟨m', known, imports', inferred'⟩
      rw [imports'.unique imports, inferred] at inferred'
      cases inferred'
  · refine .of_neg ?_ (run_importGraph_of_not_imports imports true).1
    rintro ⟨m, -, imports', -⟩
    exact imports ⟨m, imports'⟩

/-- The outcome of an import follows its steps. It ends well when all of them do, inference among them
where shapes are asked for; nothing is printed where there is no model; what is printed with shapes begins
with what is printed without; and the lines behind it are those of all tensors in their order, where a
tensor that had a shape before has the same again. -/
theorem run_import {opened : String → Opened} {plain detailed : List String}
    {filter filter' graph : String} {config : Option String}
    (asksPlain : parse? none plain = some (.command filter (.importGraph graph config false)))
    (asksDetailed : parse? none detailed = some (.command filter' (.importGraph graph config true)))
    (valid : LogFilter.check filter = .ok ()) (valid' : LogFilter.check filter' = .ok ()) :
    let printed := run opened plain
    let extended := run opened detailed
    printed.EndsWellIff (∃ m, Imports opened graph config m) ∧
      extended.EndsWellIff (∃ m known, Imports opened graph config m ∧ m.shapes = .ok known) ∧
      ((¬ ∃ m, Imports opened graph config m) → printed.output = "" ∧ extended.output = "") ∧
      ∀ m, Imports opened graph config m → Text.HasLines printed.output m.listing ∧
        (∀ e, m.shapes = .error e → extended.output = printed.output) ∧
        ∀ known, m.shapes = .ok known →
          (∃ behind, extended.output = printed.output ++ behind ∧
            Text.HasLines behind ("shapes:" :: m.tensors.tensors.map (Tensor.shapeEntry known))) ∧
          ∀ t ∈ m.tensors.tensors, known.get? t.name ≠ none ∧ (t.Given →
            known.get? t.name = t.shape ∧ shapeWord (known.get? t.name) = shapeWord t.shape) := by
  intro printed extended
  have ranPlain : printed = _ := run_of_parse asksPlain valid
  have ranDetailed : extended = _ := run_of_parse asksDetailed valid'
  rw [ranPlain, ranDetailed]
  refine ⟨endsWell_plain, endsWell_detailed, fun fails => ?_, fun m imports => ?_⟩
  · exact ⟨(run_importGraph_of_not_imports fails false).2, (run_importGraph_of_not_imports fails true).2⟩
  · rw [run_importGraph_of_imports imports, run_importGraph_of_imports imports]
    have compiled := imports.compiled
    refine ⟨compiled.hasLines_report, fun e failed => (printModel_of_error failed).2,
      fun known inferred => ?_⟩
    have assigned := compiled.get?_shapes inferred
    refine ⟨⟨m.shapeReport known, ?_, ?_⟩, fun t mem => ⟨(assigned t mem).1, fun given => ?_⟩⟩
    · rw [printModel_of_ok inferred]
      rfl
    · exact Model.hasLines_shapeReport fun t mem => (assigned t mem).1
    · have same := (assigned t mem).2 given
      exact ⟨same, congrArg shapeWord same⟩

/-- A graph that exchanges the axes of its second input, with a weight that nothing uses. -/
def turningText : String :=
  "\x7b\"inputs\":[\x7b\"name\":\"self\"\x7d,\x7b\"name\":\"x\",\"shape\":[2,3]\x7d]," ++
    "\"weights\":[\x7b\"name\":\"w\",\"dtype\":\"Float\",\"shape\":[1],\"values\":[1]\x7d]," ++
    "\"nodes\":[\x7b\"kind\":\"transpose\",\"attributes\":\x7b\"perm\":[1,0]\x7d," ++
    "\"inputs\":[\"x\"],\"outputs\":[\"y\"],\"output_types\":[\"Float\"]\x7d]," ++
    "\"outputs\":[\"y\"]\x7d"

/-- Options by which the first input is a placeholder. -/
def skippingText : String := "\x7b\"placeholder_inputs\":1\x7d"

/-- A directory with this graph and these options. -/
def turning : Directory where
  files := [("g", turningText.toUTF8.toList), ("c", skippingText.toUTF8.toList)]

theorem components_turning :
    Directory.components "g" = ["g"] ∧ Directory.components "c" = ["c"] := by
  constructor
  -- The one character is no separator, and behind it the path is at its end.
  all_goals
    rw [Directory.components, String.splitOn, if_neg (by decide), String.splitOnAux,
      if_neg (by decide +kernel), if_neg (by decide +kernel), String.splitOnAux,
      if_pos (by decide +kernel)]
    decide +kernel

theorem opened_turning : turning.opened "g" = .file turningText.toUTF8.toList ∧
    turning.opened "c" = .file skippingText.toUTF8.toList := by
  have graph : Directory.start "g" = .here := by simp [Directory.start]
  have options : Directory.start "c" = .here := by simp [Directory.start]
  rw [Directory.opened, Directory.opened, components_turning.1, components_turning.2, graph, options]
  exact ⟨rfl, rfl⟩

/-- The model of this graph without the placeholder. -/
def turningModel : Model where
  name := "model"
  operators := [{ name := "Transpose_0", operation := .transpose [1, 0], inputs := ["x"],
                  outputs := ["y"], elementType := .float32 }]
  tensors := ⟨[⟨"x", .float32, some [2, 3], .input⟩, .intermediate "y",
    ⟨"w", .float32, some [1], .initialized [0, 0, 0x80, 0x3f]⟩], by simp [Tensor.intermediate]⟩
  outputs := ["y"]

theorem imports_turning : Imports turning.opened "g" (some "c") turningModel := by
  have options : Options.ofOctets skippingText.toUTF8.toList = .ok { placeholderInputs := some 1 } := by
    decide +kernel
  refine ⟨{ placeholderInputs := some 1 }, _, {
    inputs := [{ name := "self", shape := [] }, { name := "x", shape := [2, 3] }]
    weights := [{ name := "w", shape := [1], data := [0, 0, 0x80, 0x3f] }]
    nodes := [{ kindLabel := "transpose", attributes := .ofList [("perm", .ints [1, 0])],
                inputs := ["x"], outputs := ["y"], outputTypes := ["Float"] }]
    outputs := ["y"] }, .file opened_turning.2 options, opened_turning.1, ?_, ?_⟩
  · decide +kernel
  · decide +kernel

theorem run_import_turning :
    let printed := run turning.opened ["import", "g", "--config", "c"]
    let extended := run turning.opened ["import", "g", "--config", "c", "--shapes"]
    printed.code = 0 ∧ extended.code = 0 ∧
      Text.HasLines printed.output ["model model", "tensors:",
        "  x                    Input        float32 [2, 3]",
        "  y                    Intermediate float32 ?",
        "  w                    Initialized  float32 [1]",
        "operators:", "  y = Transpose(x) perm=[1, 0]", "outputs: y"] ∧
      ∃ behind, extended.output = printed.output ++ behind ∧ Text.HasLines behind ["shapes:",
        "  x                    [2, 3]",
        "  y                    [3, 2]",
        "  w                    [1]"] := by
  have asksPlain : parse? none ["import", "g", "--config", "c"] =
      some (.command "warn" (.importGraph "g" (some "c") false)) := by decide +kernel
  have asksDetailed : parse? none ["import", "g", "--config", "c", "--shapes"] =
      some (.command "warn" (.importGraph "g" (some "c") true)) := by decide +kernel
  have valid : LogFilter.check "warn" = .ok () := by decide +kernel
  have inferred : turningModel.shapes =
      .ok (.ofList [("x", [2, 3]), ("y", [3, 2]), ("w", [1])]) := by decide +kernel
  obtain ⟨endsPlain, endsDetailed, -, printed⟩ :=
    @run_import turning.opened _ _ _ _ _ _ asksPlain asksDetailed valid valid
  obtain ⟨lines, -, detailed⟩ := printed _ imports_turning
  obtain ⟨⟨behind, output, further⟩, -⟩ := detailed _ inferred
  refine ⟨endsPlain.1.mpr ⟨_, imports_turning⟩, endsDetailed.1.mpr ⟨_, _, imports_turning, inferred⟩,
    ?_, behind, output, ?_⟩
  · convert lines using 1
    decide +kernel
  · convert further using 1
    decide +kernel

end CommandLine
end TensorGraph
