import TensorGraph.CommandLine.Run

/-! The program: files are read before the run, which itself is pure. -/
namespace TensorGraph.CommandLine

/-- The paths that a request reads. -/
def Request.paths : Request → List String
  | .command _ (.importGraph graph options _) => options.toList ++ [graph]
  | _ => []

/-- Whether a system error is of a number, which the system may give with either sign. -/
def isNumber (number code : UInt32) : Bool := code = number || 0 - code = number

/-- Opens a path in the file system. -/
def openPath (path : String) : IO Opened := do
  try
    return .file (← IO.FS.readBinFile path).toList
  catch error =>
    match error with
    | .noFileOrDirectory .. => return .fault .notFound
    | .inappropriateType _ code _ =>
      return if isNumber 20 code then .fault .notDirectory else .directory
    | .invalidArgument _ code _ =>
      if isNumber 36 code then return .fault .nameTooLong else throw error
    | _ => throw error

end TensorGraph.CommandLine

open TensorGraph.CommandLine

def main (arguments : List String) : IO UInt32 := do
  let paths := (parse? none arguments).elim [] Request.paths
  let found ← paths.mapM fun path => return (path, ← openPath path)
  let outcome := run (fun path => (found.lookup path).getD (.fault .notFound)) arguments
  IO.print outcome.output
  IO.eprint outcome.errors
  return UInt32.ofNat outcome.code
