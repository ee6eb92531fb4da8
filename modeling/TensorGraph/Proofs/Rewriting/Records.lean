import Mathlib.Data.List.Pairwise
import TensorGraph.Proofs.Rewriting.Alike
import TensorGraph.Proofs.Spelling.Texts

/-! Rewriting records. The members of an object may be put in another order, members of unknown names come
and go, and so do known members whose value is their default; an object of all its members may be the
array of their values. No such rewriting changes what is read from a record, nor does rewriting inside of
its members that changes nothing there. -/
namespace TensorGraph.Json

variable {α π : Type}

/-- A member that a record knows, the values that stand for its absence, and what may be rewritten inside
of its value. -/
structure KnownMember where
  name : String
  defaults : List Tree := []
  inside : Tree → Tree → Prop := fun _ _ => False

/-- Rewriting the tree of a record in one place. -/
inductive Rewrite (known : List KnownMember) : Tree → Tree → Prop
  | reorder {members members' : List Member} : members.Perm members' →
    Rewrite known (.object members) (.object members')
  | unknown {front rest : List Member} {name : String} (value : Tree) :
    name ∉ known.map (·.name) →
      Rewrite known (.object (front ++ rest)) (.object (front ++ (some name, value) :: rest))
  | default {front rest : List Member} {field : KnownMember} {value : Tree} : field ∈ known →
    value ∈ field.defaults → some field.name ∉ (front ++ rest).map (·.1) →
      Rewrite known (.object (front ++ rest)) (.object (front ++ (some field.name, value) :: rest))
  | positions {values : List Tree} : values.length = known.length →
    Rewrite known (.object ((known.map (some ·.name)).zip values)) (.array values)
  | member {front rest : List Member} {field : KnownMember} {value value' : Tree} : field ∈ known →
    field.inside value value' → Rewrite known (.object (front ++ (some field.name, value) :: rest))
      (.object (front ++ (some field.name, value') :: rest))
  | item {front rest : List Tree} {field : KnownMember} {value value' : Tree} :
    known[front.length]? = some field → field.inside value value' →
      Rewrite known (.array (front ++ value :: rest)) (.array (front ++ value' :: rest))

/-- Records in a list under a member are rewritten as often as one likes. -/
theorem Rewrite.eqvGen_inItem {known : List KnownMember} {field : KnownMember}
    {rewrite : Tree → Tree → Prop} (mem : field ∈ known)
    (inside : ∀ tree tree', InItem rewrite tree tree' → field.inside tree tree')
    {tree tree' : Tree} (steps : Relation.EqvGen rewrite tree tree') (front rest : List Member)
    (before after : List Tree) : Relation.EqvGen (Rewrite known)
      (.object (front ++ (some field.name, .array (before ++ tree :: after)) :: rest))
      (.object (front ++ (some field.name, .array (before ++ tree' :: after)) :: rest)) := by
  induction steps with
  | rel tree tree' step => exact .rel _ _ (.member mem (inside _ _ (.item step)))
  | refl tree => exact .refl _
  | symm _ _ _ ih => exact ih.symm
  | trans _ _ _ _ _ first second => exact first.trans _ _ _ second

/-- Slots of different names that do not care which of them is read first. -/
structure Slot.Apart (slot slot' : Slot π) : Prop where
  names : slot.name ≠ slot'.name
  keeps : ∀ {parts tree next}, slot.read parts tree = .ok next → slot'.isSet next = slot'.isSet parts
  keeps' : ∀ {parts tree next}, slot'.read parts tree = .ok next → slot.isSet next = slot.isSet parts
  swap : ∀ {parts tree tree'} next,
    (slot.read parts tree >>= fun parts => slot'.read parts tree') = .ok next ↔
      (slot'.read parts tree' >>= fun parts => slot.read parts tree) = .ok next

instance : Std.Symm (Slot.Apart : Slot π → Slot π → Prop) where
  symm _ _ apart := ⟨apart.names.symm, apart.keeps', apart.keeps, fun next => (apart.swap next).symm⟩

/-- A reader that has no use for a value that was cut. -/
def Decoder.RefusesBroken (decode : Decoder α) : Prop := ∀ x, decode .broken ≠ .ok x

/-- A slot whose part is absent at the start and there as soon as it is read, from no broken value. -/
structure Slot.Waits (slot : Slot π) (start : π) : Prop where
  unset : slot.isSet start = false
  sets : ∀ {parts tree next}, slot.read parts tree = .ok next → slot.isSet next = true
  broken : ∀ parts, (slot.read parts).RefusesBroken

/-- A slot reads what is known of a member: a default changes nothing of the outcome, and rewriting inside
of the value changes nothing of the part. -/
structure Slot.Reads (slot : Slot π) (field : KnownMember)
    (finish : Layout → π → Except FormatError α) : Prop where
  named : slot.name = field.name
  default : ∀ {parts value}, slot.isSet parts = false → value ∈ field.defaults →
    ∃ next, slot.read parts value = .ok next ∧ finish .object next = finish .object parts
  inside : ∀ {parts value value'}, field.inside value value' → (slot.read parts).Alike value value'

/-- Slots that read what is known of a record's members. -/
structure RecordLaws (slots : List (Slot π)) (known : List KnownMember) (start : π)
    (finish : Layout → π → Except FormatError α) : Prop where
  waits : ∀ slot ∈ slots, slot.Waits start
  apart : slots.Pairwise Slot.Apart
  reads : List.Forall₂ (fun slot field => slot.Reads field finish) slots known
  layouts : ∀ {parts x}, finish .object parts = .ok x ↔ finish .array parts = .ok x

namespace Decoder

variable {slots : List (Slot π)} {parts next : π} {member : Member} {members members' : List Member}

/-- Reads one member. -/
def recordMember (slots : List (Slot π)) (parts : π) : Member → Except FormatError π
  | (none, _) => .error .malformed
  | (some key, tree) =>
    match slots.find? (·.name == key) with
    | none => .ok parts
    | some slot => if slot.isSet parts then .error (.duplicateField key) else slot.read parts tree

theorem recordMembers_eq_foldlM :
    recordMembers slots parts members = members.foldlM (recordMember slots) parts := by
  induction members generalizing parts with
  | nil => rfl
  | cons member rest ih =>
    obtain ⟨key, tree⟩ := member
    rw [List.foldlM_cons]
    cases key with
    | none => rfl
    | some key =>
      rw [recordMembers, recordMember]
      cases slots.find? (·.name == key) with
      | none => exact ih
      | some slot =>
        dsimp only
        split
        · rfl
        · exact bind_congr fun _ => ih

/-- What reading a member comes to, when it comes to something: one of an unknown name is passed over,
and a known one is read into a part that is absent. -/
inductive MemberRead (slots : List (Slot π)) : π → Member → π → Prop
  | unknown {key : String} {tree : Tree} {parts : π} : slots.find? (·.name == key) = none →
    MemberRead slots parts (some key, tree) parts
  | known {key : String} {tree : Tree} {slot : Slot π} {parts next : π} :
    slots.find? (·.name == key) = some slot → slot.isSet parts = false →
      slot.read parts tree = .ok next → MemberRead slots parts (some key, tree) next

theorem recordMember_eq_ok :
    recordMember slots parts member = .ok next ↔ MemberRead slots parts member next := by
  constructor
  · intro read
    obtain ⟨key, tree⟩ := member
    cases key with
    | none => cases read
    | some key =>
      rw [recordMember] at read
      split at read
      · rename_i unknown
        cases read
        exact .unknown unknown
      · rename_i slot found
        split at read
        · cases read
        · rename_i unset
          exact .known found (by simpa using unset) read
  · intro read
    cases read with
    | unknown unknown => rw [recordMember, unknown]
    | known found unset read => simp only [recordMember, found, unset, read, Bool.false_eq_true, if_false]

end Decoder

namespace RecordLaws

variable {slots : List (Slot π)} {known : List KnownMember} {start : π}
  {finish : Layout → π → Except FormatError α} {slot slot' : Slot π} {field : KnownMember}
  {parts next : π} {member member' : Member} {members members' : List Member} {key key' : String}

/-- At each position there is a slot for what is known. -/
theorem exists_slot (laws : RecordLaws slots known start finish) {position : Nat}
    (there : known[position]? = some field) :
    ∃ slot, slots[position]? = some slot ∧ slot.Reads field finish := by
  have each := laws.reads
  clear laws
  induction each generalizing position with
  | nil => simp at there
  | cons first _ ih =>
    cases position with
    | zero =>
      cases there
      exact ⟨_, rfl, first⟩
    | succ position => exact ih there

theorem names_eq (laws : RecordLaws slots known start finish) :
    slots.map (·.name) = known.map (·.name) := by
  rw [← List.forall₂_eq_eq_eq, List.forall₂_map_left_iff, List.forall₂_map_right_iff]
  exact laws.reads.imp fun _ _ here => here.named

theorem find?_eq_some (laws : RecordLaws slots known start finish) (mem : slot ∈ slots) :
    slots.find? (·.name == slot.name) = some slot := by
  have apart := laws.apart
  clear laws
  induction slots with
  | nil => cases mem
  | cons first rest ih =>
    rw [List.pairwise_cons] at apart
    rcases List.mem_cons.mp mem with rfl | later
    · simp
    · have other : first.name ≠ slot.name := (apart.1 slot later).names
      rw [List.find?_cons_of_neg (by simpa using other)]
      exact ih later apart.2

theorem apart_of_find? (laws : RecordLaws slots known start finish)
    (found : slots.find? (·.name == key) = some slot)
    (found' : slots.find? (·.name == key') = some slot') (distinct : key ≠ key') : slot.Apart slot' := by
  have named : slot.name = key := by simpa using List.find?_some found
  have named' : slot'.name = key' := by simpa using List.find?_some found'
  refine laws.apart.forall (List.mem_of_find?_eq_some found) (List.mem_of_find?_eq_some found') ?_
  rintro rfl
  exact distinct (named.symm.trans named')

/-- Reading a member of another name leaves a part absent or there, as it was. -/
theorem isSet_memberRead (laws : RecordLaws slots known start finish)
    (found : slots.find? (·.name == key) = some slot) (read : Decoder.MemberRead slots parts member next)
    (other : member.1 ≠ some key) : slot.isSet next = slot.isSet parts := by
  cases read with
  | unknown _ => rfl
  | known found' _ read =>
    have distinct : key ≠ _ := fun same => other (congrArg some same.symm)
    exact (laws.apart_of_find? found found' distinct).keeps' read

theorem memberRead_swap (laws : RecordLaws slots known start finish) {middle : π}
    (first : Decoder.MemberRead slots parts member middle)
    (second : Decoder.MemberRead slots middle member' next) :
    ∃ middle', Decoder.MemberRead slots parts member' middle' ∧
      Decoder.MemberRead slots middle' member next := by
  cases first with
  | unknown unknown => exact ⟨next, second, .unknown unknown⟩
  | @known key tree slot _ _ found unset read =>
    cases second with
    | unknown unknown' => exact ⟨parts, .unknown unknown', .known found unset read⟩
    | @known key' tree' slot' _ _ found' unset' read' =>
      have distinct : key ≠ key' := by
        rintro rfl
        obtain rfl : slot = slot' := Option.some.inj (found.symm.trans found')
        rw [(laws.waits slot (List.mem_of_find?_eq_some found)).sets read] at unset'
        cases unset'
      have apart := laws.apart_of_find? found found' distinct
      obtain ⟨middle', here, there⟩ :=
        bind_eq_ok.mp ((apart.swap next).mp (bind_eq_ok.mpr ⟨middle, read, read'⟩))
      rw [apart.keeps read] at unset'
      refine ⟨middle', .known found' unset' here, .known found ?_ there⟩
      rw [apart.keeps' here, unset]

/-- Members may be read in any order. -/
theorem recordMembers_perm (laws : RecordLaws slots known start finish) (perm : members.Perm members')
    (read : members.foldlM (Decoder.recordMember slots) parts = .ok next) :
    members'.foldlM (Decoder.recordMember slots) parts = .ok next := by
  induction perm generalizing parts with
  | nil => exact read
  | cons member _ ih =>
    rw [List.foldlM_cons, bind_eq_ok] at read ⊢
    obtain ⟨middle, here, later⟩ := read
    exact ⟨middle, here, ih later⟩
  | swap member member' rest =>
    simp only [List.foldlM_cons, bind_eq_ok, Decoder.recordMember_eq_ok] at read ⊢
    obtain ⟨middle, first, after, second, later⟩ := read
    obtain ⟨middle', first', second'⟩ := laws.memberRead_swap first second
    exact ⟨middle', first', after, second', later⟩
  | trans _ _ first second => exact second (first read)

theorem alike_of_perm (laws : RecordLaws slots known start finish) (perm : members.Perm members') :
    (Decoder.record slots start finish).Alike (.object members) (.object members') := by
  intro x
  simp only [Decoder.record, bind_eq_ok, Decoder.recordMembers_eq_foldlM]
  constructor
  · intro h
    obtain ⟨parts, read, finished⟩ := h
    exact ⟨parts, laws.recordMembers_perm perm read, finished⟩
  · intro h
    obtain ⟨parts, read, finished⟩ := h
    exact ⟨parts, laws.recordMembers_perm perm.symm read, finished⟩

theorem isSet_recordMembers (laws : RecordLaws slots known start finish)
    (found : slots.find? (·.name == key) = some slot) (absent : some key ∉ members.map (·.1))
    (read : members.foldlM (Decoder.recordMember slots) parts = .ok next) :
    slot.isSet next = slot.isSet parts := by
  induction members generalizing parts with
  | nil => rw [pure_eq_ok.mp read]
  | cons member rest ih =>
    rw [List.map_cons, List.mem_cons, not_or] at absent
    rw [List.foldlM_cons, bind_eq_ok] at read
    obtain ⟨middle, here, later⟩ := read
    rw [ih absent.2 later, laws.isSet_memberRead found (Decoder.recordMember_eq_ok.mp here)
      (Ne.symm absent.1)]

/-- A member may stand anywhere if it changes nothing of the outcome at the end. -/
theorem alike_insert (laws : RecordLaws slots known start finish) {front rest : List Member}
    (same : ∀ {parts x}, (front ++ rest).foldlM (Decoder.recordMember slots) start = .ok parts →
      ((∃ next, Decoder.MemberRead slots parts member next ∧ finish .object next = .ok x) ↔
        finish .object parts = .ok x)) :
    (Decoder.record slots start finish).Alike (.object (front ++ rest))
      (.object (front ++ member :: rest)) := by
  have atEnd : (front ++ member :: rest).Perm (front ++ rest ++ [member]) :=
    List.perm_middle.trans (List.perm_append_singleton member _).symm
  refine .trans ?_ (laws.alike_of_perm atEnd.symm)
  intro x
  simp only [Decoder.record, bind_eq_ok, Decoder.recordMembers_eq_foldlM, List.foldlM_append,
    List.foldlM_cons, List.foldlM_nil, pure_eq_ok, Decoder.recordMember_eq_ok] at same ⊢
  constructor
  · intro h
    obtain ⟨parts, read, finished⟩ := h
    obtain ⟨next, here, finished⟩ := (same read).mpr finished
    exact ⟨next, ⟨parts, read, next, here, rfl⟩, finished⟩
  · intro h
    obtain ⟨_, ⟨parts, read, next, here, rfl⟩, finished⟩ := h
    exact ⟨parts, read, (same read).mp ⟨next, here, finished⟩⟩

theorem alike_unknown (laws : RecordLaws slots known start finish) {front rest : List Member} {name : String}
    (value : Tree) (foreign : name ∉ known.map (·.name)) :
    (Decoder.record slots start finish).Alike (.object (front ++ rest))
      (.object (front ++ (some name, value) :: rest)) := by
  have unknown : slots.find? (·.name == name) = none := by
    rw [← laws.names_eq] at foreign
    simpa [List.find?_eq_none] using foreign
  apply laws.alike_insert
  intro parts x _
  constructor
  · intro h
    obtain ⟨next, read, finished⟩ := h
    cases read with
    | unknown _ => exact finished
    | known found _ _ => cases unknown.symm.trans found
  · intro finished
    exact ⟨parts, .unknown unknown, finished⟩

theorem exists_slot_of_mem (laws : RecordLaws slots known start finish) (mem : field ∈ known) :
    ∃ slot ∈ slots, slot.Reads field finish ∧ slots.find? (·.name == field.name) = some slot := by
  obtain ⟨position, there⟩ := List.mem_iff_getElem?.mp mem
  obtain ⟨slot, at', here⟩ := laws.exists_slot there
  have mem' := List.mem_of_getElem? at'
  exact ⟨slot, mem', here, here.named ▸ laws.find?_eq_some mem'⟩

theorem alike_default (laws : RecordLaws slots known start finish) {front rest : List Member} {value : Tree}
    (mem : field ∈ known) (isDefault : value ∈ field.defaults)
    (absent : some field.name ∉ (front ++ rest).map (·.1)) :
    (Decoder.record slots start finish).Alike (.object (front ++ rest))
      (.object (front ++ (some field.name, value) :: rest)) := by
  obtain ⟨slot, mem', here, found⟩ := laws.exists_slot_of_mem mem
  apply laws.alike_insert
  intro parts x read
  have unset : slot.isSet parts = false := by
    rw [laws.isSet_recordMembers found absent read, (laws.waits slot mem').unset]
  obtain ⟨next, done, same⟩ := here.default unset isDefault
  constructor
  · intro h
    obtain ⟨next', read', finished⟩ := h
    cases read' with
    | unknown unknown => cases unknown.symm.trans found
    | known found' _ read' =>
      cases found.symm.trans found'
      cases done.symm.trans read'
      rw [← same, finished]
  · intro finished
    exact ⟨next, .known found unset done, same ▸ finished⟩

theorem alike_member (laws : RecordLaws slots known start finish) {front rest : List Member}
    {value value' : Tree} (mem : field ∈ known) (rewritten : field.inside value value') :
    (Decoder.record slots start finish).Alike (.object (front ++ (some field.name, value) :: rest))
      (.object (front ++ (some field.name, value') :: rest)) := by
  obtain ⟨slot, _, here, found⟩ := laws.exists_slot_of_mem mem
  have same : ∀ parts next, Decoder.recordMember slots parts (some field.name, value) = .ok next ↔
      Decoder.recordMember slots parts (some field.name, value') = .ok next := by
    intro parts next
    simp only [Decoder.recordMember, found]
    split
    · rfl
    · exact here.inside rewritten next
  intro x
  simp only [Decoder.record, bind_eq_ok, Decoder.recordMembers_eq_foldlM, List.foldlM_append,
    List.foldlM_cons, same]

theorem recordItems_alike {value value' : Tree} {front rest : List Tree}
    (there : slots[front.length]? = some slot) (same : ∀ parts, (slot.read parts).Alike value value') :
    Decoder.recordItems slots parts (front ++ value :: rest) = .ok next ↔
      Decoder.recordItems slots parts (front ++ value' :: rest) = .ok next := by
  induction front generalizing slots parts with
  | nil =>
    cases slots with
    | nil => cases there
    | cons first slots =>
      cases there
      simp only [List.nil_append, Decoder.recordItems, bind_eq_ok, same parts _]
  | cons tree front ih =>
    cases slots with
    | nil => cases there
    | cons first slots =>
      simp only [List.cons_append, Decoder.recordItems, bind_eq_ok, ih there]

theorem alike_item (laws : RecordLaws slots known start finish) {front rest : List Tree} {value value' : Tree}
    (there : known[front.length]? = some field) (rewritten : field.inside value value') :
    (Decoder.record slots start finish).Alike (.array (front ++ value :: rest))
      (.array (front ++ value' :: rest)) := by
  obtain ⟨slot, there', here⟩ := laws.exists_slot there
  intro x
  simp only [Decoder.record, bind_eq_ok, recordItems_alike there' fun _ => here.inside rewritten]

/-- Members in the order of declaration are read as their values are. -/
theorem recordMembers_zip (laws : RecordLaws slots known start finish) {rest : List (Slot π)}
    (within : ∀ slot ∈ rest, slot ∈ slots) (apart : rest.Pairwise Slot.Apart)
    (unset : ∀ slot ∈ rest, slot.isSet parts = false) {values : List Tree}
    (length : values.length = rest.length) :
    ((rest.map (some ·.name)).zip values).foldlM (Decoder.recordMember slots) parts =
      Decoder.recordItems rest parts values := by
  induction rest generalizing parts values with
  | nil =>
    rw [List.length_eq_zero_iff.mp length]
    rfl
  | cons slot rest ih =>
    cases values with
    | nil => cases length
    | cons value values =>
      rw [List.forall_mem_cons] at within unset
      rw [List.pairwise_cons] at apart
      have first : Decoder.recordMember slots parts (some slot.name, value) = slot.read parts value := by
        simp [Decoder.recordMember, laws.find?_eq_some within.1, unset.1]
      rw [List.map_cons, List.zip_cons_cons, List.foldlM_cons, Decoder.recordItems, first]
      cases read : slot.read parts value with
      | error e => rfl
      | ok next =>
        rw [ok_bind, ok_bind]
        apply ih within.2 apart.2
        · intro slot' mem
          rw [(apart.1 slot' mem).keeps read, unset.2 slot' mem]
        · simpa using length

theorem alike_positions (laws : RecordLaws slots known start finish) {values : List Tree}
    (length : values.length = known.length) : (Decoder.record slots start finish).Alike
      (.object ((known.map (some ·.name)).zip values)) (.array values) := by
  have names : known.map (some ·.name) = slots.map (some ·.name) := by
    have names := congrArg (List.map some) laws.names_eq.symm
    rwa [List.map_map, List.map_map] at names
  have unset : ∀ slot ∈ slots, slot.isSet start = false := fun slot mem => (laws.waits slot mem).unset
  rw [← laws.reads.length_eq] at length
  intro x
  simp only [Decoder.record, bind_eq_ok, Decoder.recordMembers_eq_foldlM, names,
    laws.recordMembers_zip (fun _ => id) laws.apart unset length, laws.layouts]

/-- Rewriting a record changes nothing of what is read. -/
theorem alike_of_rewrite (laws : RecordLaws slots known start finish) {tree tree' : Tree}
    (rewrite : Rewrite known tree tree') : (Decoder.record slots start finish).Alike tree tree' := by
  cases rewrite with
  | reorder perm => exact laws.alike_of_perm perm
  | unknown value foreign => exact laws.alike_unknown value foreign
  | default mem isDefault absent => exact laws.alike_default mem isDefault absent
  | positions length => exact laws.alike_positions length
  | member mem rewritten => exact laws.alike_member mem rewritten
  | item there rewritten => exact laws.alike_item there rewritten

theorem recordItems_ne_ok (waits : ∀ slot ∈ slots, slot.Waits start) {items : List Tree} :
    Decoder.recordItems slots parts (items ++ [.broken]) ≠ .ok next := by
  induction items generalizing slots parts with
  | nil =>
    cases slots with
    | nil => nofun
    | cons slot slots =>
      intro read
      obtain ⟨_, here, _⟩ := bind_eq_ok.mp read
      exact (waits slot List.mem_cons_self).broken parts _ here
  | cons tree items ih =>
    cases slots with
    | nil => nofun
    | cons slot slots =>
      intro read
      obtain ⟨_, _, later⟩ := bind_eq_ok.mp read
      exact ih (fun slot mem => waits slot (List.mem_cons_of_mem _ mem)) later

/-- No record is read from a text that goes no further. -/
theorem ne_ok_of_marked (laws : RecordLaws slots known start finish) {tree : Tree} (marked : tree.Marked)
    (x : α) : Decoder.record slots start finish tree ≠ .ok x := by
  intro read
  cases marked with
  | broken => cases read
  | array items =>
    obtain ⟨parts, here, _⟩ := bind_eq_ok.mp read
    exact recordItems_ne_ok laws.waits here
  | object members =>
    obtain ⟨parts, here, _⟩ := bind_eq_ok.mp read
    rw [Decoder.recordMembers_eq_foldlM, List.foldlM_append, bind_eq_ok] at here
    obtain ⟨_, _, last⟩ := here
    cases last

end RecordLaws

namespace Slot

variable {name name' : String} {get : π → Option α} {set : π → α → π} {decode : Decoder α}
  {start : π} {β γ : Type} {get' : π → Option β} {set' : π → β → π} {decode' : Decoder β}

theorem part_eq_ok {parts next : π} {tree : Tree} :
    (Slot.part name get set decode).read parts tree = .ok next ↔
      ∃ x, decode tree = .ok x ∧ set parts x = next := by
  simp only [part, bind_eq_ok, pure_eq_ok]

@[simp] theorem waits_part (absent : get start = none) (there : ∀ parts x, get (set parts x) = some x)
    (broken : decode.RefusesBroken) : (Slot.part name get set decode).Waits start where
  unset := by simp [part, absent]
  sets read := by
    obtain ⟨x, -, rfl⟩ := part_eq_ok.mp read
    simp [part, there]
  broken parts next read := by
    obtain ⟨x, decoded, -⟩ := part_eq_ok.mp read
    exact broken x decoded

@[simp] theorem apart_part (names : name ≠ name') (keeps : ∀ parts x, get' (set parts x) = get' parts)
    (keeps' : ∀ parts x, get (set' parts x) = get parts)
    (swap : ∀ parts x y, set' (set parts x) y = set (set' parts y) x) :
    (Slot.part name get set decode).Apart (.part name' get' set' decode') where
  names := names
  keeps read := by
    obtain ⟨x, -, rfl⟩ := part_eq_ok.mp read
    simp [part, keeps]
  keeps' read := by
    obtain ⟨x, -, rfl⟩ := part_eq_ok.mp read
    simp [part, keeps']
  swap next := by
    simp only [bind_eq_ok, part_eq_ok]
    constructor
    · intro h
      obtain ⟨_, ⟨x, decoded, rfl⟩, y, decoded', rfl⟩ := h
      exact ⟨_, ⟨y, decoded', rfl⟩, x, decoded, (swap _ _ _).symm⟩
    · intro h
      obtain ⟨_, ⟨y, decoded', rfl⟩, x, decoded, rfl⟩ := h
      exact ⟨_, ⟨x, decoded, rfl⟩, y, decoded', swap _ _ _⟩

theorem reads_part {field : KnownMember} {finish : Layout → π → Except FormatError γ}
    (named : name = field.name)
    (default : ∀ value ∈ field.defaults, ∃ x, decode value = .ok x ∧
      ∀ parts, get parts = none → finish .object (set parts x) = finish .object parts)
    (inside : ∀ value value', field.inside value value' → decode.Alike value value') :
    (Slot.part name get set decode).Reads field finish where
  named := named
  default unset isDefault := by
    obtain ⟨x, decoded, same⟩ := default _ isDefault
    exact ⟨_, part_eq_ok.mpr ⟨x, decoded, rfl⟩, same _ (by simpa [part] using unset)⟩
  inside rewritten next := by
    simp only [part_eq_ok, inside _ _ rewritten _]

/-- A member with one default. -/
theorem reads_default {finish : Layout → π → Except FormatError γ} {value : Tree} {x : α}
    {inside : Tree → Tree → Prop} (decoded : decode value = .ok x)
    (same : ∀ parts, get parts = none → finish .object (set parts x) = finish .object parts)
    (alike : ∀ value value', inside value value' → decode.Alike value value') :
    (Slot.part name get set decode).Reads { name, defaults := [value], inside } finish :=
  reads_part rfl (List.forall_mem_singleton.mpr ⟨x, decoded, same⟩) alike

/-- A member without a default that is not rewritten inside. -/
@[simp] theorem reads_required {finish : Layout → π → Except FormatError γ} :
    (Slot.part name get set decode).Reads { name := name } finish :=
  reads_part rfl nofun nofun

end Slot

namespace Decoder

@[simp] theorem refusesBroken_string : string.RefusesBroken := nofun

@[simp] theorem refusesBroken_size : size.RefusesBroken := nofun

@[simp] theorem refusesBroken_list (decode : Decoder α) : (list decode).RefusesBroken := nofun

@[simp] theorem refusesBroken_map (decode : Decoder α) : (map decode).RefusesBroken := nofun

@[simp] theorem refusesBroken_optional {decode : Decoder α} (broken : decode.RefusesBroken) :
    (optional decode).RefusesBroken := by
  intro x read
  obtain ⟨y, decoded, -⟩ := map_eq_ok.mp read
  exact broken y decoded

end Decoder

/-- A reader of records with such members. -/
inductive Decoder.ReadsRecord (known : List KnownMember) : Decoder α → Prop
  | record {π : Type} {slots : List (Slot π)} {start : π}
    {finish : Layout → π → Except FormatError α} :
    RecordLaws slots known start finish → ReadsRecord known (record slots start finish)

namespace Decoder.ReadsRecord

variable {known : List KnownMember} {decode : Decoder α} {tree tree' : Tree}

theorem alike (reads : decode.ReadsRecord known) (rewrite : Rewrite known tree tree') :
    decode.Alike tree tree' := by
  cases reads with
  | record laws => exact laws.alike_of_rewrite rewrite

theorem ne_ok_of_marked (reads : decode.ReadsRecord known) (marked : tree.Marked) (x : α) :
    decode tree ≠ .ok x := by
  cases reads with
  | record laws => exact laws.ne_ok_of_marked marked x

end Decoder.ReadsRecord
end TensorGraph.Json
