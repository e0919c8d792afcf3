import Manuscript.Json.Reader
import Manuscript.Proofs.Except

/-!
# Values as outlines

The outline of a value has no faults, and an outline without faults is that of its value. It can be
skipped, and it is sound unless it comes from a text and nests too deep for it. The members of an
object may come in another order; what a reader of records makes of a value does not depend on it.
-/

namespace Manuscript.Json

theorem induct {P : Json → Prop} (null : P .null) (bool : ∀ b, P (.bool b))
    (number : ∀ n, P (.number n)) (string : ∀ s, P (.string s))
    (array : ∀ items, (∀ item ∈ items, P item) → P (.array items))
    (object : ∀ members, (∀ m ∈ members, P m.2) → P (.object members)) : ∀ j, P j
  | .null => null
  | .bool b => bool b
  | .number n => number n
  | .string s => string s
  | .array items =>
    array items fun item _ => induct null bool number string array object item
  | .object members =>
    object members fun m _ => induct null bool number string array object m.2
termination_by j => sizeOf j
decreasing_by
  · have := List.sizeOf_lt_of_mem ‹_›
    simp only [Json.array.sizeOf_spec]
    omega
  · rename_i hMem
    have hLess := List.sizeOf_lt_of_mem hMem
    obtain ⟨key, value⟩ := m
    simp only [Prod.mk.sizeOf_spec] at hLess
    simp only [Json.object.sizeOf_spec]
    omega

namespace Outline

theorem ofJson_array (items : List Json) :
    ofJson (.array items) = .array (items.map ofJson) .closed := by
  have hItems : ∀ items, ofJsonItems items = items.map ofJson := by
    intro items
    induction items with
    | nil => rfl
    | cons item rest ih => rw [ofJsonItems, ih, List.map_cons]
  rw [ofJson, hItems]

theorem ofJson_object (members : List (String × Json)) :
    ofJson (.object members) = .object (members.map fun m => (.ok m.1, ofJson m.2)) .closed := by
  have hMembers : ∀ members, ofJsonMembers members = members.map fun m => (.ok m.1, ofJson m.2) := by
    intro members
    induction members with
    | nil => rfl
    | cons m rest ih => rw [ofJsonMembers, ih, List.map_cons]
  rw [ofJson, hMembers]

theorem skip_ofJson (j : Json) : (ofJson j).skip = .ok () := by
  induction j using induct with
  | null | bool | number | string => rfl
  | array items ih =>
    have hItems : skipItems (items.map ofJson) = .ok () := by
      induction items with
      | nil => rfl
      | cons item rest ihRest =>
        rw [List.map_cons, skipItems, ih item List.mem_cons_self]
        exact ihRest fun item hItem => ih item (List.mem_cons_of_mem _ hItem)
    rw [ofJson_array, skip, hItems]
    rfl
  | object members ih =>
    have hMembers : skipMembers (members.map fun m => (.ok m.1, ofJson m.2)) = .ok () := by
      induction members with
      | nil => rfl
      | cons m rest ihRest =>
        rw [List.map_cons, skipMembers, ih m List.mem_cons_self]
        exact ihRest fun m hm => ih m (List.mem_cons_of_mem _ hm)
    rw [ofJson_object, skip, hMembers]
    rfl

end Outline

theorem Ending.closed_of_keptInArray {ending : Ending} (h : ending.keptInArray = .ok ()) :
    ending = .closed := by
  cases ending with
  | closed => rfl
  | unclosed | unseparated | afterComma | cutAfterComma | oddKey | brokenKey => cases h

theorem Ending.closed_of_keptInObject {ending : Ending} (h : ending.keptInObject = .ok ()) :
    ending = .closed := by
  cases ending with
  | closed => rfl
  | unclosed | unseparated | afterComma | cutAfterComma | oddKey | brokenKey => cases h

namespace Outline

mutual

/-- An outline without faults is the outline of its value. -/
theorem eq_ofJson : ∀ {x : Outline} {v : Json}, x.toJson = .ok v → x = ofJson v
  | .null, v, h => by
    obtain rfl := Except.ok.inj h
    rfl
  | .bool b, v, h => by
    obtain rfl := Except.ok.inj h
    rfl
  | .number (.ok n), v, h => by
    obtain rfl := Except.ok.inj h
    rfl
  | .string (.ok s), v, h => by
    obtain rfl := Except.ok.inj h
    rfl
  | .array items ending, v, h => by
    obtain ⟨values, hItems, h⟩ := bind_eq_ok_iff.mp h
    obtain ⟨_, hEnding, h⟩ := bind_eq_ok_iff.mp h
    obtain rfl := Except.ok.inj h
    rw [eq_ofJsonItems hItems, Ending.closed_of_keptInArray hEnding]
    rfl
  | .object members ending, v, h => by
    obtain ⟨values, hMembers, h⟩ := bind_eq_ok_iff.mp h
    obtain ⟨_, hEnding, h⟩ := bind_eq_ok_iff.mp h
    obtain rfl := Except.ok.inj h
    rw [eq_ofJsonMembers hMembers, Ending.closed_of_keptInObject hEnding]
    rfl

theorem eq_ofJsonItems : ∀ {xs : List Outline} {vs : List Json}, toJsonItems xs = .ok vs →
    xs = ofJsonItems vs
  | [], vs, h => by
    obtain rfl := Except.ok.inj h
    rfl
  | x :: rest, vs, h => by
    obtain ⟨v, hValue, h⟩ := bind_eq_ok_iff.mp h
    obtain ⟨others, hRest, h⟩ := bind_eq_ok_iff.mp h
    obtain rfl := Except.ok.inj h
    rw [eq_ofJson hValue, eq_ofJsonItems hRest]
    rfl

theorem eq_ofJsonMembers : ∀ {ms : List (Key × Outline)} {vs : List (String × Json)},
    toJsonMembers ms = .ok vs → ms = ofJsonMembers vs
  | [], vs, h => by
    obtain rfl := Except.ok.inj h
    rfl
  | (key, x) :: rest, vs, h => by
    obtain ⟨name, hKey, h⟩ := bind_eq_ok_iff.mp h
    obtain ⟨v, hValue, h⟩ := bind_eq_ok_iff.mp h
    obtain ⟨others, hRest, h⟩ := bind_eq_ok_iff.mp h
    obtain rfl := Except.ok.inj h
    rw [hKey, eq_ofJson hValue, eq_ofJsonMembers hRest]
    rfl

end

end Outline

/-- A text that is read as a value has the outline of that value and nothing behind it. -/
theorem ofGlyphs_of_ofText {text : List Text.Glyph} {v : Json} (h : ofText text = .ok v) :
    Outline.ofGlyphs text = (.ofJson v, []) := by
  rw [ofText] at h
  generalize Outline.ofGlyphs text = read at h ⊢
  obtain ⟨outline, rest⟩ := read
  obtain ⟨value, hValue, hRest⟩ := bind_eq_ok_iff.mp h
  cases rest with
  | nil =>
    obtain rfl := Except.ok.inj hRest
    rw [Outline.eq_ofJson hValue]
  | cons => cases hRest

/-! ## Depth -/

/-- What is said to a value of some depth: only a text has a limit. -/
def Origin.limit : Origin → Nat → Except Fault Unit
  | .text room, depth => if depth ≤ room then .ok () else .error Malformation.nestingTooDeep
  | _, _ => .ok ()

namespace Origin

theorem limit_zero (origin : Origin) : origin.limit 0 = .ok () := by
  cases origin <;> rfl

theorem limit_succ (origin : Origin) (depth : Nat) :
    origin.limit (depth + 1) = origin.enter >>= fun inside => inside.limit depth := by
  cases origin with
  | text room =>
    cases room with
    | zero => rfl
    | succ room =>
      rw [limit, enter]
      change _ = limit (.text room) depth
      rw [limit]
      simp
  | value | buffered => rfl

theorem limit_max (origin : Origin) (a b : Nat) :
    origin.limit (max a b) = origin.limit a >>= fun _ => origin.limit b := by
  cases origin with
  | text room =>
    rw [limit, limit, limit]
    by_cases hFirst : a ≤ room
    · rw [if_pos hFirst]
      by_cases hSecond : b ≤ room
      · rw [if_pos hSecond, if_pos (Nat.max_le.mpr ⟨hFirst, hSecond⟩)]
        rfl
      · rw [if_neg hSecond, if_neg fun h => hSecond (Nat.max_le.mp h).2]
        rfl
    · rw [if_neg hFirst, if_neg fun h => hFirst (Nat.max_le.mp h).1]
      rfl
  | value | buffered => rfl

theorem limit_max_iff {origin : Origin} {a b : Nat} :
    origin.limit (max a b) = .ok () ↔ origin.limit a = .ok () ∧ origin.limit b = .ok () := by
  rw [limit_max]
  cases origin.limit a with
  | error e => exact ⟨nofun, nofun⟩
  | ok => exact ⟨fun h => ⟨rfl, h⟩, fun h => h.2⟩

theorem limit_succ_iff {origin : Origin} {depth : Nat} :
    origin.limit (depth + 1) = .ok () ↔
      ∃ inside, origin.enter = .ok inside ∧ inside.limit depth = .ok () := by
  rw [limit_succ]
  cases origin.enter with
  | error e =>
    refine ⟨nofun, fun h => ?_⟩
    obtain ⟨_, h, _⟩ := h
    cases h
  | ok inside =>
    refine ⟨fun h => ⟨inside, rfl, h⟩, fun h => ?_⟩
    obtain ⟨_, hInside, h⟩ := h
    obtain rfl := Except.ok.inj hInside
    exact h

theorem limit_items {origin : Origin} {items : List Json}
    (h : origin.limit (depthItems items) = .ok ()) :
    ∀ item ∈ items, origin.limit item.depth = .ok () := by
  induction items with
  | nil => exact nofun
  | cons item rest ih =>
    rw [depthItems, limit_max_iff] at h
    exact List.forall_mem_cons.mpr ⟨h.1, ih h.2⟩

theorem limit_members {origin : Origin} {members : List (String × Json)}
    (h : origin.limit (depthMembers members) = .ok ()) :
    ∀ m ∈ members, origin.limit m.2.depth = .ok () := by
  induction members with
  | nil => exact nofun
  | cons m rest ih =>
    rw [depthMembers, limit_max_iff] at h
    exact List.forall_mem_cons.mpr ⟨h.1, ih h.2⟩

end Origin

namespace Outline

/-- A value is sound wherever it does not nest too deep. -/
theorem sound_ofJson (j : Json) : ∀ origin, (ofJson j).sound origin = origin.limit j.depth := by
  induction j using induct with
  | null | bool | number | string =>
    intro origin
    exact origin.limit_zero.symm
  | array items ih =>
    have hItems : ∀ origin, soundItems origin (items.map ofJson) =
        origin.limit (depthItems items) := by
      intro origin
      induction items with
      | nil => exact origin.limit_zero.symm
      | cons item rest ihRest =>
        rw [List.map_cons, soundItems, ih item List.mem_cons_self, depthItems, origin.limit_max,
          ihRest fun item hItem => ih item (List.mem_cons_of_mem _ hItem)]
    intro origin
    rw [ofJson_array, sound, depth, origin.limit_succ]
    cases origin.enter with
    | error e => rfl
    | ok inside =>
      change (soundItems inside _ >>= fun _ => _) = inside.limit _
      rw [hItems]
      cases inside.limit (depthItems items) <;> rfl
  | object members ih =>
    have hMembers : ∀ origin,
        soundMembers origin (members.map fun m => (.ok m.1, ofJson m.2)) =
          origin.limit (depthMembers members) := by
      intro origin
      induction members with
      | nil => exact origin.limit_zero.symm
      | cons m rest ihRest =>
        rw [List.map_cons, soundMembers, depthMembers, origin.limit_max,
          ← ih m List.mem_cons_self, ← ihRest fun m hm => ih m (List.mem_cons_of_mem _ hm)]
        rfl
    intro origin
    rw [ofJson_object, sound, depth, origin.limit_succ]
    cases origin.enter with
    | error e => rfl
    | ok inside =>
      change (soundMembers inside _ >>= fun _ => _) = inside.limit _
      rw [hMembers]
      cases inside.limit (depthMembers members) <;> rfl

end Outline

/-! ## Arrangements -/

/-- A way to write values again that may put the members of objects in another order. -/
structure Arrangement where
  apply : Json → Json
  null : apply .null = .null
  bool : ∀ b, apply (.bool b) = .bool b
  number : ∀ n, apply (.number n) = .number n
  string : ∀ s, apply (.string s) = .string s
  array : ∀ items, apply (.array items) = .array (items.map apply)
  object : ∀ members, (members.map Prod.fst).Nodup →
    ∃ arranged, apply (.object members) = .object arranged ∧
      arranged.Perm (members.map fun m => (m.1, apply m.2))

theorem insertMember_perm {key : String} {value : Json} {members : List (String × Json)}
    (h : key ∉ members.map Prod.fst) :
    (insertMember key value members).Perm ((key, value) :: members) := by
  induction members with
  | nil => exact .refl _
  | cons m rest ih =>
    rw [List.map_cons, List.mem_cons, not_or] at h
    obtain ⟨hHead, hRest⟩ := h
    rw [insertMember]
    split
    · exact .refl _
    · exact (List.Perm.cons m (ih hRest)).trans (List.Perm.swap _ _ _)

theorem sortedMembers_perm (members done : List (String × Json))
    (h : (members.map Prod.fst ++ done.map Prod.fst).Nodup) :
    (sortedMembers members done).Perm (members.map (fun m => (m.1, sorted m.2)) ++ done) := by
  induction members generalizing done with
  | nil => exact .refl _
  | cons m rest ih =>
    obtain ⟨key, value⟩ := m
    rw [List.map_cons, List.cons_append, List.nodup_cons] at h
    have hDone : key ∉ done.map Prod.fst := fun hMem => h.1 (List.mem_append_right _ hMem)
    have hInsert : (insertMember key (sorted value) done).Perm ((key, sorted value) :: done) :=
      insertMember_perm hDone
    have hKeys : (rest.map Prod.fst ++ (insertMember key (sorted value) done).map Prod.fst).Nodup := by
      have hSame := (hInsert.map Prod.fst).append_left (rest.map Prod.fst)
      rw [hSame.nodup_iff, List.map_cons, List.perm_middle.nodup_iff, List.nodup_cons]
      exact h
    rw [sortedMembers]
    exact (ih _ hKeys).trans ((hInsert.append_left _).trans List.perm_middle)

theorem sorted_array (items : List Json) : sorted (.array items) = .array (items.map sorted) := by
  have hItems : ∀ items, sortedItems items = items.map sorted := by
    intro items
    induction items with
    | nil => rfl
    | cons item rest ih => rw [sortedItems, ih, List.map_cons]
  rw [sorted, hItems]

namespace Arrangement

def same : Arrangement where
  apply j := j
  null := rfl
  bool _ := rfl
  number _ := rfl
  string _ := rfl
  array items := by rw [List.map_id']
  object members _ := ⟨members, rfl, by rw [List.map_id']⟩

def byKey : Arrangement where
  apply := sorted
  null := rfl
  bool _ := rfl
  number _ := rfl
  string _ := rfl
  array := sorted_array
  object members h := by
    refine ⟨sortedMembers members [], rfl, ?_⟩
    have hPerm := sortedMembers_perm members [] (by rwa [List.map_nil, List.append_nil])
    rwa [List.append_nil] at hPerm

variable (g : Arrangement)

theorem string_ne_null (s : String) : g.apply (.string s) ≠ .null := by
  rw [g.string]
  nofun

theorem bool_ne_null (b : Bool) : g.apply (.bool b) ≠ .null := by
  rw [g.bool]
  nofun

theorem natural_ne_null (n : Nat) : g.apply (.natural n) ≠ .null := by
  rw [natural, g.number]
  nofun

theorem array_ne_null (items : List Json) : g.apply (.array items) ≠ .null := by
  rw [g.array]
  nofun

theorem object_ne_null {members : List (String × Json)} (h : (members.map Prod.fst).Nodup) :
    g.apply (.object members) ≠ .null := by
  obtain ⟨arranged, hApply, -⟩ := g.object members h
  rw [hApply]
  nofun

end Arrangement

/-! ## Members of one name -/

/-- The member with something else under that name. -/
def exchange (key : String) (x : Json) (m : String × Json) : String × Json :=
  (m.1, if m.1 = key then x else m.2)

@[simp]
theorem exchange_fst (key : String) (x : Json) (m : String × Json) : (exchange key x m).1 = m.1 := rfl

theorem insertMember_exchange (key : String) (x : Json) (m : String × Json)
    (members : List (String × Json)) :
    insertMember m.1 (exchange key x m).2 (members.map (exchange key x)) =
      (insertMember m.1 m.2 members).map (exchange key x) := by
  induction members with
  | nil => rfl
  | cons first rest ih =>
    rw [List.map_cons, insertMember, insertMember, ih, exchange_fst]
    split
    · rfl
    · split <;> rfl

theorem sortedMembers_exchange {x : Json} (hSorted : x.sorted = x) (key : String)
    (members done : List (String × Json)) :
    sortedMembers (members.map (exchange key x)) (done.map (exchange key x)) =
      (sortedMembers members done).map (exchange key x) := by
  induction members generalizing done with
  | nil => rfl
  | cons m rest ih =>
    have hValue : (exchange key x m).2.sorted = (exchange key x (m.1, m.2.sorted)).2 := by
      rw [exchange, exchange]
      split
      · exact hSorted
      · rfl
    have hInsert := insertMember_exchange key x (m.1, m.2.sorted) done
    rw [List.map_cons, sortedMembers, sortedMembers, hValue, exchange_fst, hInsert, ih]

end Manuscript.Json
