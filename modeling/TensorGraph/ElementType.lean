import TensorGraph.Text.Blank

/-! Element types of tensors, and the labels that name them. A label may stand in white space and in
single quotes, may begin with "torch." and may end in "Tensor"; the word between is read without regard
to ASCII case. -/
namespace TensorGraph

inductive ElementType where
  | float32 | float64 | float16 | int32 | int64 | uint8
  deriving DecidableEq, Repr, Inhabited

namespace ElementType

def all : List ElementType := [float32, float64, float16, int32, int64, uint8]

theorem mem_all (t : ElementType) : t ∈ all := by cases t <;> decide

def name : ElementType → String
  | float32 => "float32"
  | float64 => "float64"
  | float16 => "float16"
  | int32 => "int32"
  | int64 => "int64"
  | uint8 => "uint8"

/-- Octets of one element. -/
def width : ElementType → Nat
  | float64 | int64 => 8
  | float32 | int32 => 4
  | float16 => 2
  | uint8 => 1

/-- Models are built of these types alone. -/
def supported : List ElementType := [float32]

def isSupported (t : ElementType) : Bool := t ∈ supported

theorem isSupported_iff {t : ElementType} : t.isSupported = true ↔ t = float32 := by
  simp [isSupported, supported]

/-- The two words of a type, in lower case. -/
def words : ElementType → List (List Char)
  | float32 => ["float".toList, "float32".toList]
  | float64 => ["double".toList, "float64".toList]
  | float16 => ["half".toList, "float16".toList]
  | int32 => ["int".toList, "int32".toList]
  | int64 => ["long".toList, "int64".toList]
  | uint8 => ["byte".toList, "uint8".toList]

/-- Drops a word from the front of a text that begins with it. -/
def dropFront (word text : List Char) : List Char :=
  if word.isPrefixOf text then text.drop word.length else text

/-- Drops a word from the end of a text that ends in it. -/
def dropBack (word text : List Char) : List Char :=
  if word.isSuffixOf text then text.take (text.length - word.length) else text

/-- The word of a label, as it was written. -/
def bareWord (label : List Char) : List Char :=
  dropBack "Tensor".toList
    (dropFront "torch.".toList (Text.trimWhere (· == '\x27') (Text.trim label)))

def ofLabel? (label : String) : Option ElementType :=
  let word := (bareWord label.toList).map Char.toLower
  all.find? fun t => word ∈ t.words

example : ofLabel? "Float" = some float32 := by decide +kernel
example : ofLabel? " 'torch.LongTensor' " = some int64 := by decide +kernel

/-- What stands around the word is read in exactly this case. -/
example : ofLabel? "Torch.float" = none := by decide +kernel

end ElementType
end TensorGraph
