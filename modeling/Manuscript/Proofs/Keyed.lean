import Manuscript.Keyed

/-!
# Tables by what they find

A table is determined by what it finds for each key. Putting entries into a table one after the other
is therefore known by one rule: what the entries say comes before what the table said, and of several
entries with one key the last one stands. Overriding one table by another is associative.
-/

namespace Manuscript.Keyed

variable {α : Type}

theorem lookup_cons_eq (e : String × α) (entries : List (String × α)) (key : String) :
    (e :: entries).lookup key = if key = e.1 then some e.2 else entries.lookup key := by
  rw [List.lookup_cons]
  by_cases h : key = e.1
  · simp [h]
  · rw [beq_eq_false_iff_ne.mpr h, if_neg h]

theorem lookup_insertEntry (key other : String) (x : α) (entries : List (String × α)) :
    (insertEntry key x entries).lookup other =
      if other = key then some x else entries.lookup other := by
  induction entries with
  | nil => rw [insertEntry, lookup_cons_eq]
  | cons e rest ih =>
    rw [insertEntry]
    split
    · rw [lookup_cons_eq]
    · split
      · rename_i heq
        rw [lookup_cons_eq, lookup_cons_eq, ← heq]
        split <;> rfl
      · rename_i hne
        rw [lookup_cons_eq, lookup_cons_eq, ih]
        by_cases h : other = key
        · rw [if_pos h, if_pos h, if_neg (h ▸ hne)]
        · rw [if_neg h, if_neg h]

@[simp]
theorem find?_empty (key : String) : (empty : Keyed α).find? key = none := rfl

@[simp]
theorem find?_insert (t : Keyed α) (key other : String) (x : α) :
    (t.insert key x).find? other = if other = key then some x else t.find? other :=
  lookup_insertEntry key other x t.entries

theorem nodup_keys (t : Keyed α) : (t.entries.map Prod.fst).Nodup :=
  List.pairwise_map.mpr (t.sorted.imp String.ne_of_lt)

theorem nodup_entries (t : Keyed α) : t.entries.Nodup :=
  t.sorted.imp fun h heq => String.ne_of_lt h (congrArg Prod.fst heq)

theorem lookup_eq_some_iff_mem {entries : List (String × α)} (h : (entries.map Prod.fst).Nodup)
    {key : String} {x : α} : entries.lookup key = some x ↔ (key, x) ∈ entries := by
  induction entries with
  | nil => simp
  | cons e rest ih =>
    rw [List.map_cons, List.nodup_cons] at h
    rw [lookup_cons_eq, List.mem_cons]
    by_cases hkey : key = e.1
    · have habsent : (key, x) ∉ rest := fun hmem => h.1 (List.mem_map.mpr ⟨_, hmem, hkey⟩)
      simp [hkey, Prod.ext_iff, hkey ▸ habsent, eq_comm]
    · simp [hkey, Prod.ext_iff, ih h.2]

theorem lookup_perm {entries other : List (String × α)} (h : entries.Perm other)
    (hKeys : (other.map Prod.fst).Nodup) (key : String) : entries.lookup key = other.lookup key := by
  have hEntries : (entries.map Prod.fst).Nodup := (h.map Prod.fst).nodup_iff.mpr hKeys
  refine Option.ext fun x => ?_
  rw [lookup_eq_some_iff_mem hEntries, lookup_eq_some_iff_mem hKeys, h.mem_iff]

theorem mem_of_lookup {entries : List (String × α)} {key : String} {x : α}
    (h : entries.lookup key = some x) : (key, x) ∈ entries := by
  obtain ⟨before, after, hEntries, -⟩ := List.lookup_eq_some_iff.mp h
  rw [hEntries]
  exact List.mem_append_right _ List.mem_cons_self

theorem mem_entries_iff (t : Keyed α) {key : String} {x : α} :
    (key, x) ∈ t.entries ↔ t.find? key = some x :=
  (lookup_eq_some_iff_mem t.nodup_keys).symm

theorem ext_find? {s t : Keyed α} (h : ∀ key, s.find? key = t.find? key) : s = t := by
  apply ext
  refine List.Perm.eq_of_pairwise (fun a b _ _ hab hba => ?_) s.sorted t.sorted
    ((List.perm_ext_iff_of_nodup s.nodup_entries t.nodup_entries).mpr fun e => ?_)
  · exact absurd (String.lt_trans hab hba) (String.lt_irrefl _)
  · rw [mem_entries_iff, mem_entries_iff, h]

/-! ## Many entries -/

def insertAll (t : Keyed α) (entries : List (String × α)) : Keyed α :=
  entries.foldl (fun t e => t.insert e.1 e.2) t

@[simp]
theorem insertAll_nil (t : Keyed α) : t.insertAll [] = t := rfl

@[simp]
theorem insertAll_cons (t : Keyed α) (e : String × α) (entries : List (String × α)) :
    t.insertAll (e :: entries) = (t.insert e.1 e.2).insertAll entries := rfl

theorem insertAll_append (t : Keyed α) (entries more : List (String × α)) :
    t.insertAll (entries ++ more) = (t.insertAll entries).insertAll more :=
  List.foldl_append

theorem ofList_eq_insertAll (entries : List (String × α)) :
    ofList entries = empty.insertAll entries := rfl

theorem ofList_append_singleton (entries : List (String × α)) (key : String) (x : α) :
    ofList (entries ++ [(key, x)]) = (ofList entries).insert key x := by
  rw [ofList_eq_insertAll, insertAll_append]
  rfl

/-- What entries that are put into a table say comes before what the table said. -/
theorem find?_insertAll (t : Keyed α) (entries : List (String × α)) (key : String) :
    (t.insertAll entries).find? key = ((ofList entries).find? key).or (t.find? key) := by
  induction entries generalizing t with
  | nil => rfl
  | cons e rest ih =>
    rw [insertAll_cons, ih, ofList_eq_insertAll (e :: rest), insertAll_cons, ih, Option.or_assoc,
      find?_insert, find?_insert]
    split <;> simp

/-- The last entry of a key stands. -/
theorem find?_ofList_reverse (entries : List (String × α)) (key : String) :
    (ofList entries).find? key = entries.reverse.lookup key := by
  induction entries with
  | nil => rfl
  | cons e rest ih =>
    rw [ofList_eq_insertAll, insertAll_cons, find?_insertAll, ih, List.reverse_cons,
      List.lookup_append, find?_insert, lookup_cons_eq]
    rfl

theorem find?_ofList {entries : List (String × α)} (h : (entries.map Prod.fst).Nodup)
    (key : String) : (ofList entries).find? key = entries.lookup key := by
  rw [find?_ofList_reverse, lookup_perm entries.reverse_perm h]

/-- The order of entries with different keys does not matter. -/
theorem ofList_perm {entries : List (String × α)} {t : Keyed α} (h : entries.Perm t.entries) :
    ofList entries = t := by
  have hKeys : (entries.map Prod.fst).Nodup := (h.map Prod.fst).nodup_iff.mpr t.nodup_keys
  refine ext_find? fun key => Option.ext fun x => ?_
  rw [find?_ofList hKeys, lookup_eq_some_iff_mem hKeys, h.mem_iff, mem_entries_iff]

theorem find?_ofList_eq_none_iff {entries : List (String × α)} {key : String} :
    (ofList entries).find? key = none ↔ ∀ e ∈ entries, e.1 ≠ key := by
  have hReverse : ∀ e : String × α, e ∈ entries.reverse ↔ e ∈ entries := fun _ => List.mem_reverse
  simp only [find?_ofList_reverse, List.lookup_eq_none_iff, hReverse, bne_iff_ne, ne_comm]

theorem find?_ofList_last {before after : List (String × α)} {e : String × α}
    (h : ∀ later ∈ after, later.1 ≠ e.1) :
    (ofList (before ++ e :: after)).find? e.1 = some e.2 := by
  rw [ofList_eq_insertAll, insertAll_append, insertAll_cons, find?_insertAll,
    find?_ofList_eq_none_iff.mpr h, find?_insert]
  simp

/-- The table in which what `t` says comes before what `s` says. -/
def override (s t : Keyed α) : Keyed α :=
  s.insertAll t.entries

@[simp]
theorem find?_override (s t : Keyed α) (key : String) :
    (s.override t).find? key = (t.find? key).or (s.find? key) := by
  rw [override, find?_insertAll, find?_ofList t.nodup_keys]
  rfl

@[simp]
theorem override_empty (t : Keyed α) : t.override empty = t := rfl

@[simp]
theorem empty_override (t : Keyed α) : empty.override t = t :=
  ext_find? fun key => by simp

theorem override_assoc (r s t : Keyed α) :
    (r.override s).override t = r.override (s.override t) :=
  ext_find? fun key => by simp [Option.or_assoc]

theorem ofList_override (entries more : List (String × α)) :
    (ofList entries).override (ofList more) = ofList (entries ++ more) :=
  ext_find? fun key => by
    rw [find?_override, ofList_eq_insertAll (entries ++ more), insertAll_append, find?_insertAll]
    rfl

theorem override_insert (s t : Keyed α) (key : String) (x : α) :
    s.override (t.insert key x) = (s.override t).insert key x :=
  ext_find? fun other => by
    by_cases h : other = key <;> simp [h]

end Manuscript.Keyed
