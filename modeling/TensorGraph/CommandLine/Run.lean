import TensorGraph.CommandLine.Arguments
import TensorGraph.CommandLine.Files
import TensorGraph.CommandLine.LogFilter
import TensorGraph.Graph.Compile
import TensorGraph.Graph.Format
import TensorGraph.Model.Report

/-! Commands: what is printed, and how a run ends. A failure names what was tried and its causes; what
was printed before it stays printed. -/
namespace TensorGraph.CommandLine
open Json (FormatError)

structure Outcome where
  code : Nat
  output : String := ""
  errors : String := ""
  deriving DecidableEq

/-- Why nothing could be read from a path. -/
inductive LoadError where
  | io (fault : FileFault)
  | format (error : FormatError)
  deriving DecidableEq

/-- What went wrong, from the outermost to the innermost cause. -/
def LoadError.causes : LoadError → List String
  | io fault => [s!"IO error: {fault.text}", fault.text]
  | format error => ["Invalid format: " ++ error.message?.getD "malformed text"]

structure Failure where
  context : String
  causes : List String
  deriving DecidableEq

namespace Failure

/-- A text whose further lines begin with blanks. -/
def indented (blanks : Nat) (text : String) : String :=
  String.ofList (text.toList.flatMap fun c =>
    if c = '\n' then c :: List.replicate blanks ' ' else [c])

/-- Several causes are numbered. -/
def causeLines : List String → List String
  | [cause] => ["    " ++ indented 4 cause]
  | causes => causes.zipIdx.map fun (cause, number) => s!"    {number}: " ++ indented 7 cause

def text (f : Failure) : String :=
  Text.unlines ([s!"Error: {f.context}", "", "Caused by:"] ++ causeLines f.causes)

end Failure

/-- Reads what a path leads to. -/
def load {α : Type} (opened : String → Opened) (read : List UInt8 → Except FormatError α)
    (path : String) : Except LoadError α :=
  match opened path with
  | .fault fault => .error (.io fault)
  | .directory => .error (.format .malformed)
  | .file data => (read data).mapError .format

/-- Says what was tried when it failed. -/
def attempt {ε α : Type} (context : String) (causes : ε → List String) (x : Except ε α) :
    Except Failure α :=
  x.mapError fun e => { context, causes := causes e }

def graphCauses (e : GraphError) : List String := [e.message]

def loadOptions (opened : String → Opened) : Option String → Except Failure Options
  | none => .ok {}
  | some path =>
    attempt s!"failed to read options from {path}" LoadError.causes
      (load opened Options.ofOctets path)

/-- The model of a graph in a file, with options that may be in another. -/
def importModel (opened : String → Opened) (graph : String) (options : Option String) :
    Except Failure Model := do
  let options ← loadOptions opened options
  let description ← attempt s!"failed to load graph {graph}" LoadError.causes
    (load opened Description.ofOctets graph)
  attempt s!"failed to import {graph}" graphCauses (description.compile options)

/-- Prints a model, with its shapes on demand. -/
def printModel (m : Model) (shapes : Bool) : Outcome :=
  if shapes then
    match attempt "shape inference failed" graphCauses m.shapes with
    | .error failure => { code := 1, output := m.report, errors := failure.text }
    | .ok known => { code := 0, output := m.report ++ m.shapeReport known }
  else { code := 0, output := m.report }

def Command.run (opened : String → Opened) : Command → Outcome
  | importGraph graph options shapes =>
    match importModel opened graph options with
    | .error failure => { code := 1, errors := failure.text }
    | .ok model => printModel model shapes
  | kinds => { code := 0, output := Kind.report }

def versionText : String := "torchir 0.1.0\n"

/-- How a run ends that cannot go on with its filter. -/
def filterOutcome : LogFilter.Fault → Outcome
  | .malformed =>
    let failure : Failure := ⟨"invalid --log filter", ["invalid filter directive"]⟩
    { code := 1, errors := failure.text }
  | .torn => { code := 101, errors := "a part of the filter begins or ends inside a character\n" }

/-- A filter is looked at before anything is read. -/
def Request.run (opened : String → Opened) : Request → Outcome
  | version => { code := 0, output := versionText }
  | command filter wanted =>
    match LogFilter.check filter with
    | .ok () => wanted.run opened
    | .error fault => filterOutcome fault

def usage : String := "usage: [--log FILTER] (import GRAPH [--config OPTIONS] [--shapes] | kinds)\n"

def run (opened : String → Opened) (arguments : List String) : Outcome :=
  match parse? none arguments with
  | none => { code := 2, errors := usage }
  | some request => request.run opened

end TensorGraph.CommandLine
