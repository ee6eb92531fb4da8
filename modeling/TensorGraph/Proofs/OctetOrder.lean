import Mathlib.Tactic.SplitIfs
import TensorGraph.NameMap

/-! The order of names by octets. What is less by code points has a lesser UTF-8 form, so that the names of
a map, which ascend by code points, ascend by octets. -/
namespace TensorGraph

namespace Text

/-- The UTF-8 form of a text. -/
def octets (text : String) : List UInt8 := text.toUTF8.data.toList

theorem octets_eq_flatMap (text : String) : octets text = text.toList.flatMap String.utf8EncodeChar := by
  rw [octets, String.toUTF8_eq_toByteArray, ← String.utf8Encode_toList, List.utf8Encode,
    List.data_toByteArray, List.toList_toArray]

/-- Of two code points the form of the lesser one is less, whatever is behind them. -/
theorem utf8EncodeChar_append_lt {c d : Char} (below : c < d) (behind behind' : List UInt8) :
    String.utf8EncodeChar c ++ behind < String.utf8EncodeChar d ++ behind' := by
  have below' : c.val.toNat < d.val.toNat := below
  have high : d.val.toNat < 0x110000 := by
    rcases d.valid with low | high
    · omega
    · exact high.2
  have places : ∀ n : Nat, n / 4096 = n / 64 / 64 ∧ n / 262144 = n / 64 / 64 / 64 := by
    omega
  unfold String.utf8EncodeChar
  simp only [places]
  -- Forms of different sizes differ in their first octets, and those of one size are numerals to base 64.
  split_ifs
  all_goals
    simp only [List.cons_append, List.nil_append, List.cons_lt_cons_iff, UInt8.lt_iff_toNat_lt,
      ← UInt8.toNat_inj, UInt8.toNat_ofNat']
    omega

theorem flatMap_utf8EncodeChar_lt {text text' : List Char} (below : text < text') :
    text.flatMap String.utf8EncodeChar < text'.flatMap String.utf8EncodeChar := by
  induction below with
  | @nil d rest =>
    rw [List.flatMap_cons]
    obtain ⟨octet, more, form⟩ := List.exists_cons_of_ne_nil (String.utf8EncodeChar_ne_nil (c := d))
    rw [form]
    exact List.nil_lt_cons ..
  | rel below => exact utf8EncodeChar_append_lt below ..
  | cons _ ih => exact List.append_left_lt ih

theorem octets_lt {text text' : String} (below : text < text') : octets text < octets text' := by
  rw [octets_eq_flatMap, octets_eq_flatMap]
  exact flatMap_utf8EncodeChar_lt below

end Text

namespace NameMap

variable {α : Type} {m : NameMap α} {accept : String → Bool} {name : String}

theorem pairwise_octets_keys (m : NameMap α) :
    m.keys.Pairwise fun name name' => Text.octets name < Text.octets name' :=
  List.pairwise_map.mpr (m.ascending.imp Text.octets_lt)

/-- The first acceptable name of a map is the least one. -/
theorem find?_keys_eq_some_iff : m.keys.find? accept = some name ↔
    (name ∈ m.keys ∧ accept name = true) ∧ ∀ other ∈ m.keys, accept other = true → other ≠ name →
      Text.octets name < Text.octets other := by
  have least : ∀ {first}, m.keys.find? accept = some first → ∀ other ∈ m.keys, accept other = true →
      other ≠ first → Text.octets first < Text.octets other := by
    intro first found other mem accepted apart
    obtain ⟨-, front, back, split, refused⟩ := List.find?_eq_some_iff_append.mp found
    have ascending := m.pairwise_octets_keys
    rw [split] at mem ascending
    rcases List.mem_append.mp mem with inFront | behind
    · have isRefused := refused other inFront
      rw [accepted] at isRefused
      cases isRefused
    · rcases List.mem_cons.mp behind with rfl | behind
      · exact absurd rfl apart
      · exact (List.pairwise_cons.mp (List.pairwise_append.mp ascending).2.1).1 other behind
  constructor
  · intro found
    exact ⟨⟨List.mem_of_find?_eq_some found, List.find?_some found⟩, least found⟩
  · rintro ⟨⟨mem, accepted⟩, below⟩
    cases found : m.keys.find? accept with
    | none => exact absurd accepted (List.find?_eq_none.mp found name mem)
    | some first =>
      by_cases same : first = name
      · rw [same]
      · have less := below first (List.mem_of_find?_eq_some found) (List.find?_some found) same
        have more := least found name mem accepted (Ne.symm same)
        exact absurd less (List.lt_asymm more)

end NameMap
end TensorGraph
