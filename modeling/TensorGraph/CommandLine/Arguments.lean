/-! The command line. Options may stand before and behind what they go with; an option and its value are
two arguments or one with "=" between them. A value of its own does not begin with "-", unless it is
"-" alone. Nothing may be given twice. Behind "--" nothing is an option. -/
namespace TensorGraph.CommandLine

inductive Command where
  | importGraph (graph : String) (options : Option String) (shapes : Bool)
  | kinds
  deriving DecidableEq

inductive Request where
  | version
  | command (filter : String) (command : Command)
  deriving DecidableEq

/-- What a command takes: options with a value, flags, and how many other arguments. -/
structure Grammar where
  options : List String
  flags : List String
  positionals : Nat

/-- What was given. -/
structure Given where
  options : List (String × String) := []
  flags : List String := []
  positionals : List String := []
  deriving DecidableEq

/-- An argument that is a long option: its name, and its value behind "=". -/
def longOption? (argument : String) : Option (String × Option String) :=
  match argument.toList with
  | '-' :: '-' :: body =>
    let name := String.ofList (body.takeWhile (· ≠ '='))
    match body.dropWhile (· ≠ '=') with
    | _ :: value => some (name, some (String.ofList value))
    | [] => some (name, none)
  | _ => none

/-- Whether an argument is no value: it looks like an option. -/
def looksLikeOption (argument : String) : Bool :=
  match argument.toList with
  | '-' :: _ :: _ => true
  | _ => false

namespace Given

def addOption? (g : Given) (name value : String) : Option Given :=
  if (g.options.lookup name).isSome then none
  else some { g with options := g.options ++ [(name, value)] }

def addFlag? (g : Given) (name : String) : Option Given :=
  if name ∈ g.flags then none else some { g with flags := g.flags ++ [name] }

def addPositional? (g : Given) (most : Nat) (argument : String) : Option Given :=
  if g.positionals.length < most then
    some { g with positionals := g.positionals ++ [argument] }
  else none

end Given

/-- Reads the arguments of a command, from left to right; none when they are wrong. -/
def Grammar.read? (grammar : Grammar) (g : Given) : List String → Option Given
  | [] => some g
  | "--" :: rest => rest.foldlM (fun g => g.addPositional? grammar.positionals) g
  | argument :: rest =>
    match longOption? argument with
    | some (name, attached) =>
      if name ∈ grammar.options then
        match attached, rest with
        | some value, rest => do grammar.read? (← g.addOption? name value) rest
        | none, value :: rest =>
          if looksLikeOption value then none
          else do grammar.read? (← g.addOption? name value) rest
        | none, [] => none
      else if name ∈ grammar.flags ∧ attached = none then do
        grammar.read? (← g.addFlag? name) rest
      else none
    | none =>
      if looksLikeOption argument then none
      else do grammar.read? (← g.addPositional? grammar.positionals argument) rest

def logOption : String := "log"
def defaultFilter : String := "warn"

def importGrammar : Grammar := ⟨[logOption, "config"], ["shapes"], 1⟩
def kindsGrammar : Grammar := ⟨[logOption], [], 0⟩

/-- Paths are not empty. -/
def importCommand? (g : Given) : Option Command :=
  match g.positionals with
  | [graph] =>
    let options := g.options.lookup "config"
    if graph = "" ∨ options = some "" then none
    else some (.importGraph graph options ("shapes" ∈ g.flags))
  | _ => none

/-- A request for a command; the filter given with the command wins over the one in front of it. -/
def commandRequest? (filter : Option String) (grammar : Grammar) (command? : Given → Option Command)
    (arguments : List String) : Option Request := do
  let g ← grammar.read? {} arguments
  let command ← command? g
  return .command ((g.options.lookup logOption <|> filter).getD defaultFilter) command

/-- Whether an argument asks for the version. -/
def asksVersion (argument : String) : Bool :=
  argument = "--version" || ['-', 'V'].isPrefixOf argument.toList

/-- What a command line asks for; none when it is wrong. -/
def parse? (filter : Option String) : List String → Option Request
  | [] => none
  | "import" :: rest => commandRequest? filter importGrammar importCommand? rest
  | "kinds" :: rest => commandRequest? filter kindsGrammar (fun _ => some .kinds) rest
  | argument :: rest =>
    if asksVersion argument then some .version
    else if filter.isSome then none
    else
      match longOption? argument, rest with
      | some ("log", some value), rest => parse? (some value) rest
      | some ("log", none), value :: rest =>
        if looksLikeOption value then none else parse? (some value) rest
      | _, _ => none

example : parse? none ["import", "g", "--shapes", "--log=off"] =
    some (.command "off" (.importGraph "g" none true)) := by decide +kernel

/-- A value that looks like an option is none. -/
example : parse? none ["--log", "-x", "kinds"] = none := by decide +kernel

end TensorGraph.CommandLine
