/-! Opening files by path, and a directory of files that stands alone. -/
namespace TensorGraph.CommandLine

/-- Why a file cannot be opened. -/
inductive FileFault where
  | notFound
  | notDirectory
  | nameTooLong
  deriving DecidableEq

def FileFault.text : FileFault → String
  | notFound => "No such file or directory (os error 2)"
  | notDirectory => "Not a directory (os error 20)"
  | nameTooLong => "File name too long (os error 36)"

/-- What a path leads to. A directory can be opened, but nothing can be read from it. -/
inductive Opened where
  | file (data : List UInt8)
  | directory
  | fault (fault : FileFault)
  deriving DecidableEq

/-- Files under their names. -/
structure Directory where
  files : List (String × List UInt8)

namespace Directory

/-- Where a path has led so far: to the directory itself, somewhere outside of it, or to a file. -/
inductive Standing where
  | here
  | outside
  | file (data : List UInt8)

def greatestName : Nat := 255
def greatestPath : Nat := 4095

/-- One component further. Nothing outside of the directory is known by name. -/
def step (d : Directory) (standing : Standing) (component : String) :
    Except FileFault Standing :=
  match standing with
  | .file _ => .error .notDirectory
  | .outside =>
    if component = "" ∨ component = "." ∨ component = ".." then .ok .outside
    else if greatestName < component.utf8ByteSize then .error .nameTooLong
    else .error .notFound
  | .here =>
    if component = "" ∨ component = "." then .ok .here
    else if component = ".." then .ok .outside
    else if greatestName < component.utf8ByteSize then .error .nameTooLong
    else
      match d.files.lookup component with
      | some data => .ok (.file data)
      | none => .error .notFound

/-- The components of a path, empty ones among them. -/
def components (path : String) : List String := path.splitOn "/"

def start (path : String) : Standing := if path.startsWith "/" then .outside else .here

def opened (d : Directory) (path : String) : Opened :=
  if path = "" then .fault .notFound
  else if greatestPath < path.utf8ByteSize then .fault .nameTooLong
  else
    match (components path).foldlM d.step (start path) with
    | .error fault => .fault fault
    | .ok (.file data) => .file data
    | .ok _ => .directory

end Directory
end TensorGraph.CommandLine
