import Mathlib.Data.List.Perm.Basic
import Manuscript.Proofs.Base64
import Manuscript.Proofs.Json.Records
import Manuscript.Proofs.Keyed

/-!
# Readers that restore what was written

A reader restores what was written wherever it does not nest too deep, in whatever order the members
of objects stand. Lists, tables and records of things that are restored are restored.
-/

namespace Manuscript.Json

variable {α β σ : Type} {g : Arrangement} {read : Reader α} {write : α → Json}

/-- Reading undoes writing, also when members come in another order, wherever what was written does
not nest too deep. -/
def Restores (g : Arrangement) (read : Reader α) (write : α → Json) : Prop :=
  ∀ origin x, origin.limit (g.apply (write x)).depth = .ok () →
    read origin (.ofJson (g.apply (write x))) = .ok x

namespace Restores

theorem of_undoes (h : ∀ origin, Undoes g origin read write) : Restores g read write :=
  fun origin x _ => h origin x

theorem of_limited (h : ∀ x origin, read origin (.ofJson (g.apply (write x))) =
    (origin.limit (g.apply (write x)).depth).map fun _ => x) : Restores g read write := by
  intro origin x hLimit
  rw [h, hLimit]
  rfl

theorem buffered (h : Restores g read write) : Undoes g .buffered read write :=
  fun x => h .buffered x rfl

theorem text : Restores g Reader.text .string :=
  of_undoes fun _ => Undoes.text

theorem flag : Restores g Reader.flag .bool :=
  of_undoes fun _ => Undoes.flag

theorem word32 : Restores g Reader.word32 (natural ·.toNat) :=
  of_undoes fun _ => Undoes.word32

theorem bytes : Restores g Reader.bytes fun bytes => .string (Base64.encode bytes) := by
  intro origin bytes _
  rw [g.string]
  simp only [Reader.bytes, Outline.ofJson, Reader.text, bind, Except.bind, Base64.decode_encode]

theorem choice {choices : List (String × α)} {name : α → String}
    (h : ∀ x, choices.lookup (name x) = some x) :
    Restores g (Reader.choice choices) fun x => .string (name x) := by
  intro origin x _
  rw [g.string]
  change Reader.choice choices origin (.string (.ok (name x))) = _
  rw [Reader.choice, Reader.named, h]

theorem optional (h : Restores g read write) (hNull : ∀ x, g.apply (write x) ≠ .null) :
    Restores g read.optional (.optional write) := by
  intro origin x hLimit
  cases x with
  | none =>
    rw [Json.optional, g.null]
    rfl
  | some x =>
    have hRead := h origin x hLimit
    have hSome := hNull x
    rw [Json.optional]
    cases hWritten : g.apply (write x) with
    | null => exact absurd hWritten hSome
    | _ =>
      rw [hWritten] at hRead
      change (read origin _).map some = _
      rw [hRead]
      rfl

theorem items (h : Restores g read write) {origin : Origin} (xs : List α)
    (hLimit : origin.limit (depthItems ((xs.map write).map g.apply)) = .ok ()) :
    Reader.items read origin (((xs.map write).map g.apply).map Outline.ofJson) = .ok xs := by
  induction xs with
  | nil => rfl
  | cons x rest ih =>
    rw [List.map_cons, List.map_cons, depthItems, Origin.limit_max_iff] at hLimit
    rw [List.map_cons, List.map_cons, List.map_cons, Reader.items, h origin x hLimit.1,
      ih hLimit.2]
    rfl

theorem list (h : Restores g read write) : Restores g read.list (Json.list write) := by
  intro origin xs hLimit
  rw [Json.list, g.array, depth] at hLimit
  obtain ⟨inside, hEnter, hInside⟩ := Origin.limit_succ_iff.mp hLimit
  rw [Json.list, g.array, Outline.ofJson_array, Reader.list, hEnter]
  change (Reader.items read inside _ >>= _) = _
  rw [h.items xs hInside]
  rfl

/-! ## Tables -/

theorem members (h : Restores g read write) {origin : Origin} (entries : List (String × α))
    (hLimit : ∀ e ∈ entries, origin.limit (g.apply (write e.2)).depth = .ok ()) :
    Reader.members read origin
      (entries.map fun e => (.ok e.1, .ofJson (g.apply (write e.2)))) = .ok entries := by
  induction entries with
  | nil => rfl
  | cons e rest ih =>
    rw [List.map_cons, Reader.members, ih fun e he => hLimit e (List.mem_cons_of_mem _ he),
      h origin e.2 (hLimit e List.mem_cons_self)]
    rfl

/-- Members in another order are entries in another order, and these make the same table. -/
theorem table (h : Restores g read write) :
    Restores g (fun origin x => (read.table origin x).map Keyed.ofList)
      fun t : Keyed α => .object (t.entries.map fun e => (e.1, write e.2)) := by
  intro origin t hLimit
  have hKeys : ((t.entries.map fun e => (e.1, write e.2)).map Prod.fst).Nodup := by
    rw [List.map_map]
    exact t.nodup_keys
  obtain ⟨arranged, hApply, hPerm⟩ := g.object _ hKeys
  simp only [List.map_map, Function.comp_def] at hPerm
  obtain ⟨entries, rfl, hEntries⟩ :=
    (congrFun₂ (List.eq_map_comp_perm _) arranged t.entries).mpr hPerm
  rw [hApply, depth] at hLimit
  obtain ⟨inside, hEnter, hInside⟩ := Origin.limit_succ_iff.mp hLimit
  have hMembers := h.members entries fun e he =>
    Origin.limit_members hInside _ (List.mem_map.mpr ⟨e, he, rfl⟩)
  have hRead : read.table origin (.ofJson (g.apply (.object (t.entries.map fun e =>
      (e.1, write e.2))))) = .ok entries := by
    rw [hApply, Outline.ofJson_object, Reader.table, hEnter, List.map_map]
    change (Reader.members read inside (entries.map fun e =>
      (.ok e.1, .ofJson (g.apply (write e.2)))) >>= _) = _
    rw [hMembers]
    rfl
  dsimp only
  rw [hRead]
  change Except.ok (Keyed.ofList entries) = _
  rw [Keyed.ofList_perm hEntries]

end Restores

/-! ## Records -/

/-- Members of which the given ones are a part, none too deep for the origin, as written in some
arrangement. -/
structure Offered (g : Arrangement) (origin : Origin) (payload : List (String × Json))
    (ms : List (String × Offer Unit)) : Prop where
  keys : (ms.map Prod.fst).Nodup
  skips : ∀ m ∈ ms, m.2.outline.skip = .ok ()
  mem : ∀ m ∈ payload, (m.1, .plain (.ofJson (g.apply m.2))) ∈ ms
  limit : ∀ m ∈ payload, origin.limit (g.apply m.2).depth = .ok ()

namespace Fields

variable {origin : Origin} {payload : List (String × Json)} {ms : List (String × Offer Unit)}
  {name : String}

theorem reads_given (h : Offered g origin payload ms) (hRead : Restores g read write) {x : α}
    (hMem : (name, write x) ∈ payload) : Reads (required name read) origin ms x :=
  reads_one h.keys h.skips (h.mem _ hMem) (hRead origin x (h.limit _ hMem))

theorem reads_nullable (h : Offered g origin payload ms) (hRead : Restores g read write)
    (hNull : ∀ x, g.apply (write x) ≠ .null) {x : Option α}
    (hMem : (name, .optional write x) ∈ payload) : Reads (nullable name read) origin ms x :=
  reads_one h.keys h.skips (h.mem _ hMem) (hRead.optional hNull origin x (h.limit _ hMem))

end Fields

theorem offered_arranged {origin : Origin} {payload arranged : List (String × Json)}
    (hKeys : (payload.map Prod.fst).Nodup)
    (hPerm : arranged.Perm (payload.map fun m => (m.1, g.apply m.2)))
    (hLimit : origin.limit (depthMembers arranged) = .ok ()) :
    Offered g origin payload (arranged.map fun m => (m.1, .plain (.ofJson m.2))) where
  keys := by
    have hSame := hPerm.map Prod.fst
    rw [List.map_map] at hSame ⊢
    exact hSame.nodup_iff.mpr hKeys
  skips m hm := by
    obtain ⟨_, _, rfl⟩ := List.mem_map.mp hm
    exact Outline.skip_ofJson _
  mem m hm :=
    List.mem_map.mpr ⟨_, hPerm.mem_iff.mpr (List.mem_map.mpr ⟨m, hm, rfl⟩), rfl⟩
  limit m hm :=
    Origin.limit_members hLimit _ (hPerm.mem_iff.mpr (List.mem_map.mpr ⟨m, hm, rfl⟩))

/-- A record is restored whose fields are read from the members that they were written to. -/
theorem Restores.record {f : Fields Unit σ β} {build : β → α} {title : String}
    {payload : α → List (String × Json)} (parts : α → β) (hParts : ∀ x, build (parts x) = x)
    (hKeys : ∀ x, ((payload x).map Prod.fst).Nodup)
    (hReads : ∀ x origin ms, Offered g origin (payload x) ms → f.Reads origin ms (parts x)) :
    Restores g ((f.map build).reader title) fun x => .object (payload x) := by
  intro origin x hLimit
  obtain ⟨arranged, hApply, hPerm⟩ := g.object _ (hKeys x)
  rw [hApply, depth] at hLimit
  obtain ⟨inside, hEnter, hInside⟩ := Origin.limit_succ_iff.mp hLimit
  have hOffered := offered_arranged (hKeys x) hPerm hInside
  have hRead := (hReads x inside _ hOffered).readInside title build
  rw [hParts, given, List.map_map] at hRead
  rw [hApply, Outline.ofJson_object, Fields.reader, Body.plain, List.map_map, hEnter]
  exact hRead

end Manuscript.Json
