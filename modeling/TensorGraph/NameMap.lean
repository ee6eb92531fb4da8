/-! Finite maps from names, kept as entries in ascending order of their names.
Two maps with the same entries are equal, and insertion replaces what stood under the name. -/
namespace TensorGraph

/-- Entries in strictly ascending order of names: by code points, hence by UTF-8 octets. -/
structure NameMap (α : Type) where
  entries : List (String × α)
  ascending : entries.Pairwise (fun a b => a.1 < b.1) := by simp
  deriving DecidableEq

namespace NameMap

variable {α : Type}

def empty : NameMap α := ⟨[], .nil⟩

instance : EmptyCollection (NameMap α) := ⟨empty⟩
instance : Inhabited (NameMap α) := ⟨empty⟩

@[ext] theorem ext {m n : NameMap α} (h : m.entries = n.entries) : m = n := by
  cases m; cases n; simp_all

def keys (m : NameMap α) : List String := m.entries.map (·.1)

def get? (m : NameMap α) (name : String) : Option α :=
  (m.entries.find? (·.1 == name)).map (·.2)

/-- Puts an entry at its place in an ascending list, in front of all greater names. -/
def place (name : String) (value : α) : List (String × α) → List (String × α)
  | [] => [(name, value)]
  | entry :: rest =>
    if name < entry.1 then (name, value) :: entry :: rest
    else if entry.1 < name then entry :: place name value rest
    else (name, value) :: rest

theorem mem_place {name : String} {value : α} {entry : String × α} {list : List (String × α)}
    (h : entry ∈ place name value list) : entry = (name, value) ∨ entry ∈ list := by
  induction list with
  | nil => simpa [place] using h
  | cons head rest ih => grind [place]

theorem pairwise_place (name : String) (value : α) {list : List (String × α)}
    (h : list.Pairwise (fun a b => a.1 < b.1)) :
    (place name value list).Pairwise (fun a b => a.1 < b.1) := by
  induction list with
  | nil => simp [place]
  | cons head rest ih =>
    obtain ⟨below, sorted⟩ := List.pairwise_cons.mp h
    rw [place]
    split
    · rename_i before
      refine List.pairwise_cons.mpr ⟨?_, h⟩
      rintro entry (_ | ⟨_, mem⟩)
      · exact before
      · exact String.lt_trans before (below entry mem)
    · split
      · rename_i after
        refine List.pairwise_cons.mpr ⟨fun entry mem => ?_, ih sorted⟩
        rcases mem_place mem with rfl | mem
        · exact after
        · exact below entry mem
      · rename_i notBefore notAfter
        have same : head.1 = name :=
          String.le_antisymm (String.not_lt.mp notBefore) (String.not_lt.mp notAfter)
        exact List.pairwise_cons.mpr ⟨fun entry mem => same ▸ below entry mem, sorted⟩

def insert (m : NameMap α) (name : String) (value : α) : NameMap α :=
  ⟨place name value m.entries, pairwise_place name value m.ascending⟩

/-- Later entries of the list win over earlier ones of the same name. -/
def ofList (list : List (String × α)) : NameMap α :=
  list.foldl (fun m entry => m.insert entry.1 entry.2) empty

theorem find?_place (name key : String) (value : α) (list : List (String × α))
    (h : list.Pairwise (fun a b => a.1 < b.1)) :
    (place name value list).find? (·.1 == key) =
      if name = key then some (name, value) else list.find? (·.1 == key) := by
  induction list with
  | nil => by_cases same : name = key <;> simp [place, same]
  | cons head rest ih =>
    obtain ⟨below, sorted⟩ := List.pairwise_cons.mp h
    rw [place]
    split
    · by_cases same : name = key <;> simp [same]
    · split
      · rename_i after
        have distinct := String.ne_of_lt after
        by_cases same : name = key
        · subst same
          simp [distinct, ih sorted]
        · by_cases here : head.1 = key <;> simp [here, same, ih sorted]
      · rename_i notBefore notAfter
        have here : head.1 = name :=
          String.le_antisymm (String.not_lt.mp notBefore) (String.not_lt.mp notAfter)
        by_cases same : name = key <;> simp [here, same]

theorem nodup_entries (m : NameMap α) : m.entries.Nodup :=
  m.ascending.imp (S := (· ≠ ·)) fun below same => String.lt_irrefl _ (same ▸ below)

@[simp] theorem get?_empty (name : String) : (empty : NameMap α).get? name = none := rfl

/-- Insertion answers for its own name and leaves every other name alone. -/
@[simp] theorem get?_insert (m : NameMap α) (name key : String) (value : α) :
    (m.insert name value).get? key = if name = key then some value else m.get? key := by
  simp only [get?, insert, find?_place name key value m.entries m.ascending]
  split <;> simp

theorem get?_eq_none_iff {m : NameMap α} {name : String} : m.get? name = none ↔ name ∉ m.keys := by
  simp only [get?, keys, Option.map_eq_none_iff, List.find?_eq_none, beq_iff_eq, List.mem_map,
    not_exists, not_and]

theorem find?_of_mem {list : List (String × α)} {entry : String × α}
    (sorted : list.Pairwise (fun a b => a.1 < b.1)) (mem : entry ∈ list) :
    list.find? (·.1 == entry.1) = some entry := by
  induction list with
  | nil => simp at mem
  | cons head rest ih =>
    obtain ⟨below, sorted⟩ := List.pairwise_cons.mp sorted
    rcases List.mem_cons.mp mem with rfl | later
    · simp
    · simp [String.ne_of_lt (below entry later), ih sorted later]

/-- Look-up finds exactly the entries. -/
theorem get?_eq_some_iff {m : NameMap α} {name : String} {value : α} :
    m.get? name = some value ↔ (name, value) ∈ m.entries := by
  constructor
  · intro h
    obtain ⟨entry, found, rfl⟩ := Option.map_eq_some_iff.mp h
    have same : entry.1 = name := by simpa using List.find?_some found
    exact same ▸ List.mem_of_find?_eq_some found
  · exact fun mem => by simp [get?, find?_of_mem m.ascending mem]

/-- Maps that answer alike are equal. -/
theorem eq_of_get? {m n : NameMap α} (h : ∀ name, m.get? name = n.get? name) : m = n := by
  have same : ∀ entry, entry ∈ m.entries ↔ entry ∈ n.entries := fun entry => by
    rw [← get?_eq_some_iff (m := m), ← get?_eq_some_iff (m := n), h]
  apply ext
  exact (List.perm_ext_iff_of_nodup (nodup_entries m) (nodup_entries n)).mpr same
    |>.eq_of_pairwise (fun a b _ _ one other => absurd one (String.lt_asymm other))
      m.ascending n.ascending

/-- Entries of distinct names that are put into a map are found there, and all other names as before. -/
theorem get?_foldl_insert {list : List (String × α)} (distinct : (list.map (·.1)).Nodup)
    {m : NameMap α} {name : String} {value : α} :
    (list.foldl (fun m entry => m.insert entry.1 entry.2) m).get? name = some value ↔
      (name, value) ∈ list ∨ name ∉ list.map (·.1) ∧ m.get? name = some value := by
  induction list generalizing m with
  | nil => simp
  | cons entry rest ih =>
    rw [List.map_cons, List.nodup_cons] at distinct
    rw [List.foldl_cons, ih distinct.2, get?_insert]
    by_cases here : entry.1 = name
    · have foreign : name ∉ rest.map (·.1) := here ▸ distinct.1
      have other : (name, value) ∉ rest := fun mem => foreign (List.mem_map_of_mem mem)
      simp [foreign, other, here, Prod.ext_iff, eq_comm]
    · simp [here, Prod.ext_iff, Ne.symm here]

theorem get?_ofList_eq_some_iff {list : List (String × α)} (distinct : (list.map (·.1)).Nodup)
    {name : String} {value : α} :
    (ofList list).get? name = some value ↔ (name, value) ∈ list := by
  rw [ofList, get?_foldl_insert distinct, get?_empty]
  simp

example : (ofList [("b", 1), ("a", 2), ("b", 3)]).entries = [("a", 2), ("b", 3)] := by
  decide +kernel

end NameMap
end TensorGraph
