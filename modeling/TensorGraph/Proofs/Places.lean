import TensorGraph.Proofs.Rewriting.Records

/-! Places for values in a tree. A reader that reads a part by itself takes any value of the part in its
place, whatever else is in the tree, and the value changes nothing but the part. Places are put together
from one container to the next. -/
namespace TensorGraph

namespace NameMap

variable {α : Type}

theorem insert_insert (m : NameMap α) (name : String) (x y : α) :
    (m.insert name x).insert name y = m.insert name y := by
  apply eq_of_get?
  intro key
  simp only [get?_insert]
  split <;> rfl

theorem insert_comm (m : NameMap α) {name other : String} (apart : name ≠ other) (x y : α) :
    (m.insert name x).insert other y = (m.insert other y).insert name x := by
  apply eq_of_get?
  intro key
  simp only [get?_insert]
  split
  · rename_i here
    rw [if_neg (here ▸ apart)]
  · rfl

end NameMap

theorem toOption_eq_some {ε α : Type} {x : Except ε α} {a : α} : x.toOption = some a ↔ x = .ok a := by
  cases x <;> simp [Except.toOption]

namespace Json

variable {α β γ π : Type}

/-- A value stands for a field of a record: under its name, or at its position. -/
inductive FieldOf (name : String) (position : Nat) : (Tree → Tree) → Prop
  | member (front rest : List Member) :
    FieldOf name position fun tree => .object (front ++ (some name, tree) :: rest)
  | item (front rest : List Tree) : front.length = position →
    FieldOf name position fun tree => .array (front ++ tree :: rest)

/-- A value stands at a position of a list. -/
inductive ItemOf (position : Nat) : (Tree → Tree) → Prop
  | item (front rest : List Tree) : front.length = position →
    ItemOf position fun tree => .array (front ++ tree :: rest)

/-- A value stands under a name of a map, with no other behind it that would win. -/
inductive EntryOf (name : String) : (Tree → Tree) → Prop
  | entry (front rest : List Member) : some name ∉ rest.map (·.1) →
    EntryOf name fun tree => .object (front ++ (some name, tree) :: rest)

namespace Decoder

/-- In a place a part is read by itself: where one value is read there, exactly the values of the part
are, and they change the part alone. -/
structure PartAt (decode : Decoder α) (place : Tree → Tree) (inner : Decoder β) (get : α → Option β)
    (put : α → β → α) : Prop where
  part : ∀ {tree x}, decode (place tree) = .ok x → ∃ y, inner tree = .ok y ∧ get x = some y
  exchange : ∀ {tree x}, decode (place tree) = .ok x → ∀ tree' x',
    decode (place tree') = .ok x' ↔ ∃ y, inner tree' = .ok y ∧ x' = put x y

/-- A place within a place. -/
theorem PartAt.comp {decode : Decoder α} {middle : Decoder β} {inner : Decoder γ}
    {place place' : Tree → Tree} {get : α → Option β} {put : α → β → α} {get' : β → Option γ}
    {put' : β → γ → β} (outside : decode.PartAt place middle get put)
    (inside : middle.PartAt place' inner get' put') :
    decode.PartAt (place ∘ place') inner (fun x => (get x).bind get')
      (fun x z => ((get x).map fun y => put x (put' y z)).getD x) where
  part read := by
    obtain ⟨y, read', found⟩ := outside.part read
    obtain ⟨z, read'', found'⟩ := inside.part read'
    exact ⟨z, read'', by rw [found, Option.bind_some, found']⟩
  exchange read tree' x' := by
    obtain ⟨y, read', found⟩ := outside.part read
    rw [Function.comp_apply, outside.exchange read, found]
    constructor
    · rintro ⟨y', other, rfl⟩
      obtain ⟨z, innermost, rfl⟩ := (inside.exchange read' tree' y').mp other
      exact ⟨z, innermost, rfl⟩
    · rintro ⟨z, innermost, rfl⟩
      exact ⟨_, (inside.exchange read' tree' _).mpr ⟨z, innermost, rfl⟩, rfl⟩

theorem list_append_eq_ok {decode : Decoder α} {front rest : List Tree} {tree : Tree} {xs : List α} :
    list decode (.array (front ++ tree :: rest)) = .ok xs ↔ ∃ before x after,
      front.mapM decode = .ok before ∧ decode tree = .ok x ∧ rest.mapM decode = .ok after ∧
        xs = before ++ x :: after := by
  simp only [list, List.mapM_append, List.mapM_cons, bind_eq_ok, pure_eq_ok]
  constructor
  · rintro ⟨before, first, _, ⟨x, here, after, later, rfl⟩, rfl⟩
    exact ⟨before, x, after, first, here, later, rfl⟩
  · rintro ⟨before, x, after, first, here, later, rfl⟩
    exact ⟨before, first, _, ⟨x, here, after, later, rfl⟩, rfl⟩

theorem length_of_mapM {decode : Decoder α} {items : List Tree} {xs : List α}
    (read : items.mapM decode = .ok xs) : xs.length = items.length :=
  (mapM_eq_ok.mp read).length_eq.symm

theorem partAt_list {decode : Decoder α} {position : Nat} {place : Tree → Tree}
    (item : ItemOf position place) :
    (list decode).PartAt place decode (·[position]?) (·.set position ·) := by
  obtain ⟨front, rest, length⟩ := item
  constructor
  · intro tree xs read
    obtain ⟨before, x, after, first, here, -, rfl⟩ := list_append_eq_ok.mp read
    refine ⟨x, here, ?_⟩
    rw [← length, ← length_of_mapM first]
    simp
  · intro tree xs read tree' xs'
    obtain ⟨before, x, after, first, -, later, rfl⟩ := list_append_eq_ok.mp read
    rw [list_append_eq_ok]
    simp only [first, later, Except.ok.injEq]
    rw [← length, ← length_of_mapM first]
    constructor
    · rintro ⟨_, y, _, rfl, here, rfl, rfl⟩
      exact ⟨y, here, by simp⟩
    · rintro ⟨y, here, rfl⟩
      exact ⟨before, y, after, rfl, here, rfl, by simp⟩

theorem members_append (decode : Decoder α) (found : NameMap α) (front rest : List Member) :
    members decode found (front ++ rest) =
      members decode found front >>= fun found => members decode found rest := by
  induction front generalizing found with
  | nil => rfl
  | cons member front ih =>
    obtain ⟨key, tree⟩ := member
    cases key with
    | none => rfl
    | some key =>
      simp only [List.cons_append, members, bind_assoc]
      exact bind_congr fun x => ih _

/-- A member may be put into a map last when none behind it has its name. -/
theorem members_insert {decode : Decoder α} {name : String} {rest : List Member}
    (absent : some name ∉ rest.map (·.1)) (found : NameMap α) (x : α) :
    members decode (found.insert name x) rest =
      (fun m => m.insert name x) <$> members decode found rest := by
  induction rest generalizing found with
  | nil => rfl
  | cons member rest ih =>
    obtain ⟨key, tree⟩ := member
    rw [List.map_cons, List.mem_cons, not_or] at absent
    cases key with
    | none => rfl
    | some key =>
      have apart : name ≠ key := fun same => absent.1 (congrArg some same)
      simp only [members, map_bind]
      refine bind_congr fun y => ?_
      rw [NameMap.insert_comm found apart, ih absent.2]

theorem partAt_map {decode : Decoder α} {name : String} {place : Tree → Tree}
    (entry : EntryOf name place) :
    (map decode).PartAt place decode (·.get? name) (·.insert name ·) := by
  obtain ⟨front, rest, absent⟩ := entry
  have reads (tree : Tree) (m : NameMap α) :
      map decode (.object (front ++ (some name, tree) :: rest)) = .ok m ↔
        ∃ found, members decode ∅ front = .ok found ∧ ∃ x, decode tree = .ok x ∧
          ∃ others, members decode found rest = .ok others ∧ others.insert name x = m := by
    simp only [map, members_append, members, members_insert absent, bind_eq_ok, map_eq_ok]
  constructor
  · intro tree m read
    obtain ⟨found, -, x, here, others, -, rfl⟩ := (reads tree m).mp read
    exact ⟨x, here, by simp⟩
  · intro tree m read tree' m'
    obtain ⟨found, first, x, -, others, later, rfl⟩ := (reads tree m).mp read
    rw [reads]
    simp only [first, later, Except.ok.injEq, exists_eq_left', NameMap.insert_insert, eq_comm]

/-- A slot may be read behind others that it has nothing to do with. -/
theorem recordItems_swap {slot : Slot π} {others : List (Slot π)}
    (apart : ∀ other ∈ others, slot.Apart other) {parts next : π} {tree : Tree} {rest : List Tree} :
    (∃ p, slot.read parts tree = .ok p ∧ recordItems others p rest = .ok next) ↔
      ∃ p, recordItems others parts rest = .ok p ∧ slot.read p tree = .ok next := by
  induction rest generalizing others parts with
  | nil =>
    have done : ∀ p : π, recordItems others p [] = .ok p := fun p => by cases others <;> rfl
    simp [done]
  | cons value rest ih =>
    cases others with
    | nil => simp [recordItems]
    | cons other others =>
      rw [List.forall_mem_cons] at apart
      have swap (middle : π) :
          (∃ p, slot.read parts tree = .ok p ∧ other.read p value = .ok middle) ↔
            ∃ p, other.read parts value = .ok p ∧ slot.read p tree = .ok middle := by
        rw [← bind_eq_ok, ← bind_eq_ok]
        exact apart.1.swap middle
      simp only [recordItems, bind_eq_ok]
      constructor
      · rintro ⟨p, here, middle, there, later⟩
        obtain ⟨q, there, here⟩ := (swap middle).mp ⟨p, here, there⟩
        obtain ⟨last, later, here⟩ := (ih apart.2).mp ⟨middle, here, later⟩
        exact ⟨last, ⟨q, there, later⟩, here⟩
      · rintro ⟨last, ⟨q, there, later⟩, here⟩
        obtain ⟨middle, here, later⟩ := (ih apart.2).mpr ⟨last, later, here⟩
        obtain ⟨p, here, there⟩ := (swap middle).mpr ⟨q, there, here⟩
        exact ⟨p, here, middle, there, later⟩

/-- A value at the position of a slot may be read behind all others. -/
theorem recordItems_append_eq_ok {slot : Slot π} {before after : List (Slot π)}
    (apart : ∀ other ∈ after, slot.Apart other) {parts next : π} {front rest : List Tree} {tree : Tree}
    (length : front.length = before.length) :
    recordItems (before ++ slot :: after) parts (front ++ tree :: rest) = .ok next ↔
      ∃ p, recordItems (before ++ after) parts (front ++ rest) = .ok p ∧
        slot.read p tree = .ok next := by
  induction front generalizing before parts with
  | nil =>
    rw [List.eq_nil_of_length_eq_zero length.symm]
    simp only [List.nil_append, recordItems, bind_eq_ok]
    exact recordItems_swap apart
  | cons value front ih =>
    cases before with
    | nil => cases length
    | cons first before =>
      simp only [List.cons_append, recordItems, bind_eq_ok, ih (Nat.succ.inj length)]
      constructor
      · rintro ⟨p, there, q, later, here⟩
        exact ⟨q, ⟨p, there, later⟩, here⟩
      · rintro ⟨q, ⟨p, there, later⟩, here⟩
        exact ⟨p, there, q, later, here⟩

end Decoder

section Records

variable {slots : List (Slot π)} {slot : Slot π} {start : π} {finish : Layout → π → Except FormatError α}

/-- Slots that have nothing to do with one another read the members of their names, if nothing more. -/
theorem RecordLaws.of_apart (waits : ∀ slot ∈ slots, slot.Waits start)
    (apart : slots.Pairwise Slot.Apart)
    (layouts : ∀ {parts x}, finish .object parts = .ok x ↔ finish .array parts = .ok x) :
    RecordLaws slots (slots.map fun slot => { name := slot.name }) start finish where
  waits := waits
  apart := apart
  layouts := layouts
  reads := by
    rw [List.forall₂_map_right_iff, List.forall₂_same]
    exact fun slot _ => ⟨rfl, fun _ => nofun, fun h => nomatch h⟩

variable {known : List KnownMember}

/-- A member is read behind all others of the object. -/
theorem RecordLaws.record_member_eq_ok (laws : RecordLaws slots known start finish) (mem : slot ∈ slots)
    (front rest : List Member) : ∃ others : Option π, ∀ tree x,
      Decoder.record slots start finish (.object (front ++ (some slot.name, tree) :: rest)) = .ok x ↔
        ∃ p ∈ others, ∃ q, slot.read p tree = .ok q ∧ finish .object q = .ok x := by
  have found := laws.find?_eq_some mem
  refine ⟨((front ++ rest).foldlM (Decoder.recordMember slots) start).toOption.filter
    fun p => !slot.isSet p, fun tree x => ?_⟩
  have atEnd : (front ++ (some slot.name, tree) :: rest).Perm
      (front ++ rest ++ [(some slot.name, tree)]) :=
    List.perm_middle.trans (List.perm_append_singleton _ _).symm
  rw [laws.alike_of_perm atEnd x]
  simp only [Decoder.record, bind_eq_ok, Decoder.recordMembers_eq_foldlM, List.foldlM_append,
    List.foldlM_cons, List.foldlM_nil, pure_eq_ok, Decoder.recordMember_eq_ok, Option.mem_def,
    Option.filter_eq_some_iff, Bool.not_eq_true', toOption_eq_some]
  constructor
  · rintro ⟨_, ⟨p, read, q, here, rfl⟩, finished⟩
    cases here with
    | unknown unknown => cases unknown.symm.trans found
    | known found' unset here =>
      cases found'.symm.trans found
      exact ⟨p, ⟨read, unset⟩, q, here, finished⟩
  · rintro ⟨p, ⟨read, unset⟩, q, here, finished⟩
    exact ⟨q, ⟨p, read, q, .known found unset here, rfl⟩, finished⟩

/-- A value at a position is read behind all others of the array. -/
theorem RecordLaws.record_item_eq_ok (laws : RecordLaws slots known start finish) {front : List Tree}
    (there : slots[front.length]? = some slot) (rest : List Tree) : ∃ others : Option π, ∀ tree x,
      Decoder.record slots start finish (.array (front ++ tree :: rest)) = .ok x ↔
        ∃ p ∈ others, ∃ q, slot.read p tree = .ok q ∧ finish .object q = .ok x := by
  obtain ⟨before, after, rfl, length⟩ :
      ∃ before after, slots = before ++ slot :: after ∧ before.length = front.length := by
    obtain ⟨inside, rfl⟩ := List.getElem?_eq_some_iff.mp there
    refine ⟨slots.take front.length, slots.drop (front.length + 1), ?_, by rw [List.length_take]; omega⟩
    rw [← List.drop_eq_getElem_cons inside, List.take_append_drop]
  have apart := laws.apart
  rw [List.pairwise_append, List.pairwise_cons] at apart
  have items (tree : Tree) (q : π) :
      Decoder.recordItems (before ++ slot :: after) start (front ++ tree :: rest) = .ok q ↔ _ :=
    Decoder.recordItems_append_eq_ok apart.2.1.1 length.symm
  refine ⟨(Decoder.recordItems (before ++ after) start (front ++ rest)).toOption, fun tree x => ?_⟩
  simp only [Decoder.record, bind_eq_ok, items, laws.layouts, Option.mem_def, toOption_eq_some]
  constructor
  · rintro ⟨q, ⟨p, read, here⟩, finished⟩
    exact ⟨p, read, q, here, finished⟩
  · rintro ⟨p, read, q, here, finished⟩
    exact ⟨q, ⟨p, read, here⟩, finished⟩

/-- What stands for a field is read behind all else in the record. -/
theorem RecordLaws.record_place_eq_ok (laws : RecordLaws slots known start finish) {position : Nat}
    (there : slots[position]? = some slot) {place : Tree → Tree}
    (field : FieldOf slot.name position place) :
    ∃ others : Option π, ∀ tree x, Decoder.record slots start finish (place tree) = .ok x ↔
      ∃ p ∈ others, ∃ q, slot.read p tree = .ok q ∧ finish .object q = .ok x := by
  cases field with
  | member front rest => exact laws.record_member_eq_ok (List.mem_of_getElem? there) front rest
  | item front rest length => exact laws.record_item_eq_ok (length ▸ there) rest

end Records

/-- A field that fills a part of a record, where the record keeps the part as it was read. -/
theorem Decoder.partAt_record {slots : List (Slot π)} {start : π}
    {finish : Layout → π → Except FormatError α} {name : String} {position : Nat} {get : π → Option β}
    {set : π → β → π} {inner : Decoder β} {part : α → Option β} {put : α → β → α}
    (waits : ∀ slot ∈ slots, slot.Waits start) (apart : slots.Pairwise Slot.Apart)
    (layouts : ∀ {parts x}, finish .object parts = .ok x ↔ finish .array parts = .ok x)
    (there : slots[position]? = some (.part name get set inner))
    (kept : ∀ {p y x}, finish .object (set p y) = .ok x →
      part x = some y ∧ ∀ y', finish .object (set p y') = .ok (put x y'))
    {place : Tree → Tree} (field : FieldOf name position place) :
    (record slots start finish).PartAt place inner part put := by
  obtain ⟨others, reads⟩ := (RecordLaws.of_apart waits apart layouts).record_place_eq_ok there field
  simp only [Slot.part_eq_ok] at reads
  constructor
  · intro tree x read
    obtain ⟨p, -, _, ⟨y, here, rfl⟩, finished⟩ := (reads tree x).mp read
    exact ⟨y, here, (kept finished).1⟩
  · intro tree x read tree' x'
    obtain ⟨p, found, _, ⟨y, -, rfl⟩, finished⟩ := (reads tree x).mp read
    rw [reads]
    constructor
    · rintro ⟨p', found', _, ⟨y', here, rfl⟩, finished'⟩
      cases Option.mem_unique found found'
      rw [(kept finished).2, Except.ok.injEq] at finished'
      exact ⟨y', here, finished'.symm⟩
    · rintro ⟨y', here, rfl⟩
      exact ⟨p, found, _, ⟨y', here, rfl⟩, (kept finished).2 y'⟩

end Json
end TensorGraph
