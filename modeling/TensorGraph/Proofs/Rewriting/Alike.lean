import Mathlib.Data.List.Nodup
import Mathlib.Data.List.Perm.Basic
import Mathlib.Logic.Relation
import TensorGraph.Proofs.Records

/-! Trees that are read alike. A reader cannot tell them apart where it reads them as data: lists when one
of their items is exchanged for one that is read alike, and maps when their members change places. -/
namespace TensorGraph.Json

variable {α : Type}

/-- Rewriting in one item of an array. -/
inductive InItem (rewrite : Tree → Tree → Prop) : Tree → Tree → Prop
  | item {front rest : List Tree} {tree tree' : Tree} : rewrite tree tree' →
    InItem rewrite (.array (front ++ tree :: rest)) (.array (front ++ tree' :: rest))

/-- Another order of an object's members, whose names are distinct. -/
inductive Reordered : Tree → Tree → Prop
  | object {members members' : List Member} : members.Perm members' → (members.map (·.1)).Nodup →
    Reordered (.object members) (.object members')

namespace Decoder

/-- Two trees are read as the same data, where they are read as data at all. -/
def Alike (decode : Decoder α) (tree tree' : Tree) : Prop :=
  ∀ x, decode tree = .ok x ↔ decode tree' = .ok x

namespace Alike

variable {decode : Decoder α} {tree tree' tree'' : Tree}

theorem refl (decode : Decoder α) (tree : Tree) : decode.Alike tree tree := fun _ => Iff.rfl

theorem symm (alike : decode.Alike tree tree') : decode.Alike tree' tree := fun x => (alike x).symm

theorem trans (first : decode.Alike tree tree') (second : decode.Alike tree' tree'') :
    decode.Alike tree tree'' := fun x => (first x).trans (second x)

theorem eqvGen {rewrite : Tree → Tree → Prop}
    (each : ∀ tree tree', rewrite tree tree' → decode.Alike tree tree')
    (rewritten : Relation.EqvGen rewrite tree tree') : decode.Alike tree tree' := by
  induction rewritten with
  | rel tree tree' step => exact each tree tree' step
  | refl tree => exact refl decode tree
  | symm _ _ _ ih => exact ih.symm
  | trans _ _ _ _ _ first second => exact first.trans second

theorem list_inItem {rewrite : Tree → Tree → Prop}
    (each : ∀ tree tree', rewrite tree tree' → decode.Alike tree tree')
    (rewritten : InItem rewrite tree tree') : (list decode).Alike tree tree' := by
  obtain ⟨step⟩ := rewritten
  rename_i front rest item item'
  intro xs
  rw [list, list, mapM_eq_ok, mapM_eq_ok]
  induction front generalizing xs with
  | nil => simp only [List.nil_append, List.forall₂_cons_left_iff, each item item' step _]
  | cons first front ih => simp only [List.cons_append, List.forall₂_cons_left_iff, ih]

theorem members_eq_ok {members : List Member} {found result : NameMap α} :
    Decoder.members decode found members = .ok result ↔ ∃ entries : List (String × α),
      List.Forall₂ (fun member entry => member.1 = some entry.1 ∧ decode member.2 = .ok entry.2)
        members entries ∧
      entries.foldl (fun m entry => m.insert entry.1 entry.2) found = result := by
  induction members generalizing found with
  | nil => simp [Decoder.members]
  | cons member rest ih =>
    obtain ⟨key, tree⟩ := member
    simp only [List.forall₂_cons_left_iff]
    cases key with
    | none => simp [Decoder.members]
    | some key =>
      simp only [Decoder.members, bind_eq_ok, ih]
      constructor
      · intro h
        obtain ⟨x, decoded, entries, each, same⟩ := h
        exact ⟨(key, x) :: entries, ⟨(key, x), entries, ⟨rfl, decoded⟩, each, rfl⟩, same⟩
      · intro h
        obtain ⟨_, ⟨⟨name, x⟩, entries, ⟨named, decoded⟩, each, rfl⟩, same⟩ := h
        cases named
        exact ⟨x, decoded, entries, each, same⟩

/-- Members that are read in another order give the same map, when their names are distinct. -/
theorem members_perm {members members' : List Member} {result : NameMap α}
    (perm : members.Perm members') (distinct : (members.map (·.1)).Nodup)
    (read : Decoder.members decode ∅ members' = .ok result) :
    Decoder.members decode ∅ members = .ok result := by
  obtain ⟨entries', each', rfl⟩ := members_eq_ok.mp read
  obtain ⟨entries, each, perm'⟩ := List.perm_comp_forall₂ perm each'
  have named : members.map (·.1) = (entries.map (·.1)).map some := by
    rw [List.map_map, ← List.forall₂_eq_eq_eq, List.forall₂_map_left_iff, List.forall₂_map_right_iff]
    exact each.imp fun _ _ found => found.1
  rw [named] at distinct
  have nodup : (entries.map (·.1)).Nodup := List.Nodup.of_map some distinct
  have nodup' : (entries'.map (·.1)).Nodup := (perm'.map _).nodup_iff.mp nodup
  refine members_eq_ok.mpr ⟨entries, each, NameMap.eq_of_get? ?_⟩
  intro name
  apply Option.ext
  intro x
  exact (NameMap.get?_ofList_eq_some_iff nodup).trans
    (perm'.mem_iff.trans (NameMap.get?_ofList_eq_some_iff nodup').symm)

theorem map_reordered (reordered : Reordered tree tree') : (map decode).Alike tree tree' := by
  obtain ⟨perm, distinct⟩ := reordered
  intro result
  exact ⟨members_perm perm.symm ((perm.map _).nodup_iff.mp distinct), members_perm perm distinct⟩

end Alike
end Decoder

end TensorGraph.Json
