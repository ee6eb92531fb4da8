import Mathlib.Data.List.Forall2
import TensorGraph.Graph.Format
import TensorGraph.Proofs.Outcome

/-! What the parts of a record come from. Where a record is read, a part has been read from the member of
its name or from the value at its position, and is absent where there is none. Lists are read item by
item, and texts as their first value. -/
namespace TensorGraph.Json

variable {π α β : Type} {name : String} {get : π → Option α} {decode : Decoder α}

namespace Slot

/-- A member that fills a part. -/
structure Fills (slot : Slot π) (name : String) (get : π → Option α) (decode : Decoder α) : Prop where
  named : slot.name = name
  isSet : ∀ parts, slot.isSet parts = (get parts).isSome
  read : ∀ {parts tree parts'}, slot.read parts tree = .ok parts' →
    ∃ x, decode tree = .ok x ∧ get parts' = some x

/-- A member of another name, which leaves a part as it is. -/
structure Keeps (slot : Slot π) (name : String) (get : π → Option α) : Prop where
  named : slot.name ≠ name
  read : ∀ {parts tree parts'}, slot.read parts tree = .ok parts' → get parts' = get parts

@[simp] theorem fills_part {set : π → α → π} (here : ∀ parts x, get (set parts x) = some x) :
    (Slot.part name get set decode).Fills name get decode := by
  refine ⟨rfl, fun _ => rfl, fun read => ?_⟩
  obtain ⟨x, decoded, done⟩ := bind_eq_ok.mp read
  rw [← pure_eq_ok.mp done]
  exact ⟨x, decoded, here _ _⟩

@[simp] theorem keeps_part {other : String} {get' : π → Option β} {set : π → β → π} {decode' : Decoder β}
    (named : other ≠ name) (apart : ∀ parts x, get (set parts x) = get parts) :
    (Slot.part other get' set decode').Keeps name get := by
  refine ⟨named, fun read => ?_⟩
  obtain ⟨x, -, done⟩ := bind_eq_ok.mp read
  rw [← pure_eq_ok.mp done]
  exact apart _ _

end Slot

/-- One field fills a part, which is the one at the position, and the others keep it. -/
inductive Filled (name : String) (get : π → Option α) (decode : Decoder α) :
    List (Slot π) → Nat → Prop
  | here {slot : Slot π} {rest : List (Slot π)} : slot.Fills name get decode →
    (∀ other ∈ rest, other.Keeps name get) → Filled name get decode (slot :: rest) 0
  | behind {slot : Slot π} {rest : List (Slot π)} {position : Nat} : slot.Keeps name get →
    Filled name get decode rest position → Filled name get decode (slot :: rest) (position + 1)

/-- What a tree has for a field of a record. -/
def Tree.part? (position : Nat) (name : String) : Tree → Option Tree
  | .object members => (members.find? (·.1 == some name)).map (·.2)
  | .array items => items[position]?
  | _ => none

/-- What a tree has for a field of a record, read as such. -/
def Tree.field (tree : Tree) (position : Nat) (name : String) (decode : Decoder α) :
    Option (Except FormatError α) :=
  (tree.part? position name).map decode

variable {fields : List (Slot π)} {position : Nat}

namespace Filled

@[simp] theorem cons_zero {slot : Slot π} : Filled name get decode (slot :: fields) 0 ↔
    slot.Fills name get decode ∧ ∀ other ∈ fields, other.Keeps name get := by
  constructor
  · rintro ⟨⟩
    exact ⟨‹_›, ‹_›⟩
  · intro h
    exact .here h.1 h.2

@[simp] theorem cons_succ {slot : Slot π} : Filled name get decode (slot :: fields) (position + 1) ↔
    slot.Keeps name get ∧ Filled name get decode fields position := by
  constructor
  · rintro ⟨⟩
    exact ⟨‹_›, ‹_›⟩
  · intro h
    exact .behind h.1 h.2

/-- The field that a name finds fills the part or keeps it, as the name is that of the part or not. -/
theorem of_find? (filled : Filled name get decode fields position) {key : String} {slot : Slot π}
    (found : fields.find? (·.name == key) = some slot) :
    (key = name ∧ slot.Fills name get decode) ∨ (key ≠ name ∧ slot.Keeps name get) := by
  induction filled with
  | @here first rest fills others =>
    have named : slot.name = key := by simpa using List.find?_some found
    rcases List.mem_cons.mp (List.mem_of_find?_eq_some found) with rfl | mem
    · exact .inl ⟨named ▸ fills.named, fills⟩
    · exact .inr ⟨named ▸ (others slot mem).named, others slot mem⟩
  | @behind first rest position keeps filled ih =>
    rw [List.find?_cons] at found
    split at found
    · rename_i same
      obtain rfl : first = slot := Option.some.inj found
      exact .inr ⟨(beq_iff_eq.mp same) ▸ keeps.named, keeps⟩
    · exact ih found

/-- The name of the part finds a field. -/
theorem find?_ne_none (filled : Filled name get decode fields position) :
    fields.find? (·.name == name) ≠ none := by
  induction filled with
  | here fills others => simp [fills.named]
  | behind keeps filled ih =>
    rw [List.find?_cons]
    split
    · simp
    · exact ih

theorem recordMembers_of_some (filled : Filled name get decode fields position) {parts parts' : π}
    {x : α} {members : List Member} (there : get parts = some x)
    (read : Decoder.recordMembers fields parts members = .ok parts') : get parts' = some x := by
  induction members generalizing parts with
  | nil =>
    obtain rfl : parts = parts' := Except.ok.inj read
    exact there
  | cons member rest ih =>
    obtain ⟨key, tree⟩ := member
    cases key with
    | none => cases read
    | some key =>
      rw [Decoder.recordMembers] at read
      split at read
      · exact ih there read
      · rename_i slot found
        split at read
        · cases read
        · rename_i unset
          obtain ⟨next, done, read⟩ := bind_eq_ok.mp read
          rcases filled.of_find? found with ⟨-, fills⟩ | ⟨-, keeps⟩
          · rw [fills.isSet, there] at unset
            exact absurd rfl unset
          · exact ih ((keeps.read done).trans there) read

/-- Reading members fills a part with what the first of its name holds. -/
theorem recordMembers (filled : Filled name get decode fields position) {parts parts' : π}
    {members : List Member} (absent : get parts = none)
    (read : Decoder.recordMembers fields parts members = .ok parts') :
    (Tree.object members).field position name decode = (get parts').map .ok := by
  rw [Tree.field, Tree.part?, Option.map_map]
  induction members generalizing parts with
  | nil =>
    obtain rfl : parts = parts' := Except.ok.inj read
    rw [absent]
    rfl
  | cons member rest ih =>
    obtain ⟨key, tree⟩ := member
    cases key with
    | none => cases read
    | some key =>
      rw [Decoder.recordMembers] at read
      rw [List.find?_cons]
      split at read
      · rename_i unknown
        have other : key ≠ name := by
          rintro rfl
          exact filled.find?_ne_none unknown
        have skipped : (some key == some name) = false := by simpa using other
        rw [skipped]
        exact ih absent read
      · rename_i slot found
        split at read
        · cases read
        · obtain ⟨next, done, read⟩ := bind_eq_ok.mp read
          rcases filled.of_find? found with ⟨rfl, fills⟩ | ⟨other, keeps⟩
          · obtain ⟨x, decoded, there⟩ := fills.read done
            rw [filled.recordMembers_of_some there read]
            simp [decoded]
          · have skipped : (some key == some name) = false := by simpa using other
            rw [skipped]
            exact ih ((keeps.read done).trans absent) read

theorem recordItems_of_keeps {parts parts' : π} {items : List Tree}
    (others : ∀ slot ∈ fields, slot.Keeps name get)
    (read : Decoder.recordItems fields parts items = .ok parts') : get parts' = get parts := by
  induction items generalizing fields parts with
  | nil =>
    obtain rfl : parts = parts' := by
      cases fields <;> exact Except.ok.inj read
    rfl
  | cons tree rest ih =>
    cases fields with
    | nil => cases read
    | cons slot fields =>
      obtain ⟨next, done, read⟩ := bind_eq_ok.mp read
      rw [List.forall_mem_cons] at others
      exact (ih others.2 read).trans (others.1.read done)

/-- Reading values in order fills a part with the one at its position. -/
theorem recordItems (filled : Filled name get decode fields position) {parts parts' : π}
    {items : List Tree} (absent : get parts = none)
    (read : Decoder.recordItems fields parts items = .ok parts') :
    (Tree.array items).field position name decode = (get parts').map .ok := by
  rw [Tree.field, Tree.part?]
  induction filled generalizing parts items with
  | here fills others =>
    cases items with
    | nil =>
      obtain rfl : parts = parts' := Except.ok.inj read
      rw [absent]
      rfl
    | cons tree rest =>
      obtain ⟨next, done, read⟩ := bind_eq_ok.mp read
      obtain ⟨x, decoded, there⟩ := fills.read done
      rw [recordItems_of_keeps others read, there]
      simp [decoded]
  | behind keeps filled ih =>
    cases items with
    | nil =>
      obtain rfl : parts = parts' := Except.ok.inj read
      rw [absent]
      rfl
    | cons tree rest =>
      obtain ⟨next, done, read⟩ := bind_eq_ok.mp read
      rw [List.getElem?_cons_succ]
      exact ih ((keeps.read done).trans absent) read

end Filled

/-- A tree whose members or values have been read as parts. -/
inductive Parted (fields : List (Slot π)) (start : π) : Tree → Layout → π → Prop
  | object {members : List Member} {parts : π} :
    Decoder.recordMembers fields start members = .ok parts →
      Parted fields start (.object members) .object parts
  | array {items : List Tree} {parts : π} :
    Decoder.recordItems fields start items = .ok parts →
      Parted fields start (.array items) .array parts

variable {start : π} {tree : Tree}

theorem record_eq_ok {finish : Layout → π → Except FormatError β} {b : β} :
    Decoder.record fields start finish tree = .ok b ↔
      ∃ layout parts, Parted fields start tree layout parts ∧ finish layout parts = .ok b := by
  constructor
  · intro read
    cases tree with
    | object members =>
      obtain ⟨parts, done, finished⟩ := bind_eq_ok.mp read
      exact ⟨_, parts, .object done, finished⟩
    | array items =>
      obtain ⟨parts, done, finished⟩ := bind_eq_ok.mp read
      exact ⟨_, parts, .array done, finished⟩
    | _ => cases read
  · intro h
    obtain ⟨layout, parts, parted, finished⟩ := h
    cases parted with
    | object done => exact bind_eq_ok.mpr ⟨parts, done, finished⟩
    | array done => exact bind_eq_ok.mpr ⟨parts, done, finished⟩

/-- A part of a record is what the tree has for its field. -/
theorem Parted.field_eq {layout : Layout} {parts : π} (parted : Parted fields start tree layout parts)
    (filled : Filled name get decode fields position) (absent : get start = none) :
    tree.field position name decode = (get parts).map .ok := by
  cases parted with
  | object done => exact filled.recordMembers absent done
  | array done => exact filled.recordItems absent done

theorem Layout.require_eq_ok {layout : Layout} {part : Option α} {x : α} :
    layout.require name part = .ok x ↔ part = some x := by
  cases part <;> cases layout <;> simp [Layout.require]

namespace Decoder

theorem mapM_eq_ok {xs : List Tree} {ys : List α} :
    xs.mapM decode = .ok ys ↔ List.Forall₂ (fun x y => decode x = .ok y) xs ys := by
  induction xs generalizing ys with
  | nil => rw [List.mapM_nil, pure_eq_ok, List.forall₂_nil_left_iff, eq_comm]
  | cons x xs ih =>
    simp only [List.mapM_cons, bind_eq_ok, pure_eq_ok, List.forall₂_cons_left_iff, ih]
    constructor
    · intro h
      obtain ⟨y, first, later, rest, rfl⟩ := h
      exact ⟨y, later, first, rest, rfl⟩
    · intro h
      obtain ⟨y, later, first, rest, rfl⟩ := h
      exact ⟨y, first, later, rest, rfl⟩

theorem list_eq_ok {xs : List α} : list decode tree = .ok xs ↔
    ∃ items, tree = .array items ∧ List.Forall₂ (fun item x => decode item = .ok x) items xs := by
  cases tree <;> simp [list, mapM_eq_ok]

theorem tree_of_document {octets : List UInt8} {x : α} (read : document decode octets = .ok x) :
    decode (Document.ofOctets octets).tree = .ok x := by
  obtain ⟨y, decoded, rest⟩ := bind_eq_ok.mp read
  dsimp only at rest
  split at rest
  · cases rest
  · rw [← pure_eq_ok.mp rest]
    exact decoded

end Decoder
end TensorGraph.Json
