import Manuscript.Proofs.Json.Arranged
import Manuscript.Proofs.Keyed

/-!
# Sorted values

Sorting makes a table of each object. It is determined by what it finds for a key, which is the last
member with that key, and no key is left twice.
-/

namespace Manuscript.Json

theorem insertMember_eq_insertEntry (key : String) (value : Json) (members : List (String × Json)) :
    insertMember key value members = Keyed.insertEntry key value members := by
  induction members with
  | nil => rfl
  | cons m rest ih => rw [insertMember, Keyed.insertEntry, ih]

theorem sortedMembers_eq_entries (members : List (String × Json)) :
    sortedMembers members [] = (Keyed.ofList (members.map fun m => (m.1, m.2.sorted))).entries := by
  have hFrom : ∀ t : Keyed Json, sortedMembers members t.entries =
      (t.insertAll (members.map fun m => (m.1, m.2.sorted))).entries := by
    induction members with
    | nil => exact fun _ => rfl
    | cons m rest ih =>
      intro t
      rw [sortedMembers, insertMember_eq_insertEntry]
      exact ih (t.insert m.1 m.2.sorted)
  exact hFrom .empty

theorem lookup_sortedMembers (members : List (String × Json)) (key : String) :
    (sortedMembers members []).lookup key = (members.reverse.lookup key).map sorted := by
  rw [sortedMembers_eq_entries]
  change Keyed.find? _ key = _
  rw [Keyed.find?_ofList_reverse, ← List.map_reverse, lookup_map]

theorem pairwise_sortedMembers (members : List (String × Json)) :
    (sortedMembers members []).Pairwise (·.1 < ·.1) :=
  sortedMembers_eq_entries members ▸ Keyed.sorted _

/-- Members in order are those of a sorted object if they say the same of every key. -/
theorem sortedMembers_eq {members arranged : List (String × Json)}
    (hOrder : arranged.Pairwise (·.1 < ·.1))
    (hLookup : ∀ key, arranged.lookup key = (members.reverse.lookup key).map sorted) :
    sortedMembers members [] = arranged := by
  have hSame : (⟨_, pairwise_sortedMembers members⟩ : Keyed Json) = ⟨arranged, hOrder⟩ :=
    Keyed.ext_find? fun key => (lookup_sortedMembers members key).trans (hLookup key).symm
  exact congrArg Keyed.entries hSame

theorem nodup_sortedMembers (members : List (String × Json)) :
    ((sortedMembers members []).map Prod.fst).Nodup :=
  Keyed.nodup_keys ⟨_, pairwise_sortedMembers members⟩

theorem distinct_sorted (j : Json) : j.sorted.Distinct := by
  induction j using induct with
  | null => exact .null
  | bool b => exact .bool b
  | number n => exact .number n
  | string s => exact .string s
  | array items ih =>
    rw [sorted_array]
    exact .array (List.forall_mem_map.mpr ih)
  | object members ih =>
    refine .object (nodup_sortedMembers members) fun m hm => ?_
    have hFound := (Keyed.lookup_eq_some_iff_mem (nodup_sortedMembers members)).mpr hm
    rw [lookup_sortedMembers, Option.map_eq_some_iff] at hFound
    obtain ⟨value, hValue, hSorted⟩ := hFound
    exact hSorted ▸ ih _ (List.mem_reverse.mp (Keyed.mem_of_lookup hValue))

end Manuscript.Json
