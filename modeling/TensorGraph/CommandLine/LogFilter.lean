import TensorGraph.Pattern.Reader
import TensorGraph.Text.Octets

/-! Log filters: directives between commas, of which empty ones count for nothing. A directive is a
level, or a target with an optional span, its field and a level, as in
target[span{field=value}]=level. -/
namespace TensorGraph.CommandLine

namespace LogFilter

/-- Why a text is no filter. A part is torn when one of its ends lies inside a character. -/
inductive Fault where
  | malformed
  | torn
  deriving DecidableEq

def levelNames : List String := ["error", "warn", "info", "debug", "trace", "off"]

def isDecimal (c : Char) : Bool := '0' ≤ c && c ≤ '9'

/-- A level's number, up to five; it may have a plus sign. -/
def isLevelNumber (text : List Char) : Bool :=
  let digits := match text with
    | '+' :: rest => rest
    | _ => text
  !digits.isEmpty && digits.all isDecimal &&
    digits.foldl (fun n c => 10 * n + (c.toNat - '0'.toNat)) 0 ≤ 5

/-- A level by name in any ASCII case, or by number; an empty level is one too. -/
def isLevel (text : List Char) : Bool :=
  text.isEmpty || isLevelNumber text || levelNames.any (·.toList == text.map Char.toLower)

def dropSign : List Char → List Char
  | '+' :: rest | '-' :: rest => rest
  | text => text

/-- The end of a number: nothing, or an exponent. -/
def isExponent : List Char → Bool
  | [] => true
  | mark :: rest =>
    let digits := dropSign rest
    (mark = 'e' || mark = 'E') && !digits.isEmpty && digits.all isDecimal

/-- A decimal number with digits on one side of its point at least, or the name of a number that has
none. It may have a sign. -/
def isNumber (text : List Char) : Bool :=
  let body := dropSign text
  let whole := body.takeWhile isDecimal
  let (fraction, rest) := match body.dropWhile isDecimal with
    | '.' :: rest => (rest.takeWhile isDecimal, rest.dropWhile isDecimal)
    | rest => ([], rest)
  ["inf", "infinity", "nan"].any (·.toList == body.map Char.toLower) ||
    !(whole.isEmpty && fraction.isEmpty) && isExponent rest

/-- A field: a name, which may be anything, and an optional value between the first equals sign and
the second. A value is a number or a pattern. -/
def isField (text : List Char) : Bool :=
  !text.isEmpty && match text.dropWhile (· ≠ '=') with
    | [] => true
    | _ :: rest =>
      let value := rest.takeWhile (· ≠ '=')
      isNumber value || Pattern.isValid value

/-- How far a directive has been read. Places count the octets behind the blanks that it begins with. -/
inductive Progress where
  | start
  | levelOrTarget
  | span (since : Nat)
  | field (since : Nat)
  | fields
  | target
  | level (since : Nat)

/-- The part of a directive between two places. It is cut out of the whole directive: where that begins
with blanks, the part lies as many octets in front of what was read there. -/
def cut (text : List Char) (first last : Nat) : Except Fault (List Char) :=
  (Text.sliceOctets? first last text).elim (.error .torn) .ok

/-- The next character, at a place. The text is the whole directive. -/
def step (text : List Char) (place : Nat) (c : Char) : Progress → Except Fault Progress
  | .start =>
    if c = '[' then .ok (.span (place + 1))
    else if c = '-' ∨ c = ':' ∨ c = '_' ∨ Text.isAlphanumeric c then .ok .levelOrTarget
    else .error .malformed
  | .levelOrTarget =>
    if c = '=' then (cut text 0 place).map fun _ => .level (place + 1)
    else if c = '[' then (cut text 0 place).map fun _ => .span (place + 1)
    else .ok .levelOrTarget
  | .span since =>
    if c = ']' then (cut text since place).map fun _ => .target
    else if c = '\x7b' then (cut text since place).map fun _ => .field (place + 1)
    else .ok (.span since)
  | .field since =>
    if c = '\x7d' then do
      if isField (← cut text since place) then return .fields else throw .malformed
    else .ok (.field since)
  | .fields => if c = ']' then .ok .target else .error .malformed
  | .target => if c = '=' then .ok (.level (place + 1)) else .error .malformed
  | .level since => .ok (.level since)

/-- Reads a directive from a place on. -/
def read (text : List Char) (place : Nat) (p : Progress) : List Char → Except Fault Progress
  | [] => .ok p
  | c :: rest => do read text (place + c.utf8Size) (← step text place c p) rest

/-- A directive may end behind a target, and behind a level, blanks at its end and all. -/
def finish (text : List Char) : Progress → Except Fault Unit
  | .levelOrTarget | .target => .ok ()
  | .level since => do
    if isLevel (← cut text since (Text.octetCount text)) then return () else throw .malformed
  | _ => .error .malformed

def checkDirective (text : List Char) : Except Fault Unit := do
  finish text (← read text 0 .start (Text.trim text))

/-- The parts of a text between commas. -/
def parts (text : List Char) : List (List Char) :=
  text.splitBy fun a b => (a == ',') == (b == ',')

/-- Whether a text is a filter; otherwise what is wrong with its first directive that is none. -/
def check (filter : String) : Except Fault Unit :=
  (parts filter.toList).forM fun part =>
    if part.head? = some ',' then .ok () else checkDirective part

example : (check "warn,target=debug" matches .ok ()) = true := by decide +kernel
example : (check "target=loud" matches .error .malformed) = true := by decide +kernel
example : (check "\u3000[]" matches .error .torn) = true := by decide +kernel

end LogFilter
end TensorGraph.CommandLine
