/-!
# Tables sorted by key

A table holds at most one value for each text and lists its entries in the order of the texts, which
is also the order of their UTF-8 forms. Two tables with the same entries are equal.
-/

namespace Manuscript

structure Keyed (α : Type) where
  entries : List (String × α)
  sorted : entries.Pairwise (·.1 < ·.1)

namespace Keyed

variable {α : Type}

theorem ext {s t : Keyed α} (h : s.entries = t.entries) : s = t := by
  cases s
  cases t
  simp_all

def empty : Keyed α := ⟨[], .nil⟩

/-- Put an entry into a sorted list, in the place of one with the same key. -/
def insertEntry (key : String) (x : α) : List (String × α) → List (String × α)
  | [] => [(key, x)]
  | e :: rest =>
    if key < e.1 then (key, x) :: e :: rest
    else if key = e.1 then (key, x) :: rest
    else e :: insertEntry key x rest

theorem mem_insertEntry {key : String} {x : α} {entries : List (String × α)} {e : String × α}
    (h : e ∈ insertEntry key x entries) : e = (key, x) ∨ e ∈ entries := by
  induction entries with
  | nil => simpa [insertEntry] using h
  | cons first rest ih =>
    simp only [insertEntry] at h
    split at h
    · simpa using h
    · split at h
      · simp only [List.mem_cons] at h ⊢
        exact h.imp_right .inr
      · simp only [List.mem_cons] at h ⊢
        rcases h with h | h
        · exact .inr (.inl h)
        · exact (ih h).imp_right .inr

theorem lt_of_not_lt_of_ne {a b : String} (h : ¬ a < b) (hne : a ≠ b) : b < a :=
  Classical.byContradiction fun hn => hne (String.le_antisymm (String.not_lt.1 hn) (String.not_lt.1 h))

theorem sorted_insertEntry {key : String} {x : α} {entries : List (String × α)}
    (h : entries.Pairwise (·.1 < ·.1)) : (insertEntry key x entries).Pairwise (·.1 < ·.1) := by
  induction entries with
  | nil => simp [insertEntry]
  | cons first rest ih =>
    rw [List.pairwise_cons] at h
    simp only [insertEntry]
    split
    · rename_i hlt
      refine .cons (fun e he => ?_) (.cons h.1 h.2)
      rcases List.mem_cons.1 he with rfl | he
      · exact hlt
      · exact String.lt_trans hlt (h.1 e he)
    · split
      · rename_i heq
        exact .cons (fun e he => heq ▸ h.1 e he) h.2
      · rename_i hlt hne
        refine .cons (fun e he => ?_) (ih h.2)
        rcases mem_insertEntry he with rfl | he
        · exact lt_of_not_lt_of_ne hlt hne
        · exact h.1 e he

/-- The table with an entry, in the place of one with the same key. -/
def insert (t : Keyed α) (key : String) (x : α) : Keyed α :=
  ⟨insertEntry key x t.entries, sorted_insertEntry t.sorted⟩

def find? (t : Keyed α) (key : String) : Option α :=
  t.entries.lookup key

def has (t : Keyed α) (key : String) : Bool :=
  (t.find? key).isSome

/-- The table of some entries, of which the last one for each key stands. -/
def ofList (entries : List (String × α)) : Keyed α :=
  entries.foldl (fun t e => t.insert e.1 e.2) empty

def size (t : Keyed α) : Nat :=
  t.entries.length

instance [BEq α] : BEq (Keyed α) :=
  ⟨fun s t => s.entries == t.entries⟩

end Keyed

end Manuscript
