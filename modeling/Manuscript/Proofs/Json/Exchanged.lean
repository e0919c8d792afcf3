import Manuscript.Proofs.Json.Sorted

/-!
# Records with another text in one field

A record that is read says what its first field is and what the other fields are, and the one does not
depend on the other: with another text in the first field, the record is read if that text is, and the
other fields are the same. This holds of objects and of arrays, of members in any order, and of tagged
records, wherever they come from.
-/

namespace Manuscript.Json

variable {ν σ τ α β γ : Type}

/-! ## Values -/

/-- The value with something else in one field: in all members of a name, or in a place. -/
def withField : Json → String → Nat → Json → Json
  | .object members, key, _, x => .object (members.map (exchange key x))
  | .array items, _, place, x => .array (items.set place x)
  | j, _, _, _ => j

theorem sorted_withField {x : Json} (hSorted : x.sorted = x) (j : Json) (key : String)
    (place : Nat) : (j.withField key place x).sorted = j.sorted.withField key place x := by
  cases j with
  | null | bool | number | string => rfl
  | array items =>
    rw [withField, sorted_array, sorted_array, List.map_set, hSorted]
    rfl
  | object members => exact congrArg Json.object (sortedMembers_exchange hSorted key members [])

/-- Texts do not nest, so what is as deep with one of them in a field is as deep with another one. -/
theorem depths_withField (j : Json) (key : String) (place : Nat) (s s' : String) :
    (j.withField key place (.string s)).parts.map depth =
      (j.withField key place (.string s')).parts.map depth := by
  cases j with
  | null | bool | number | string => rfl
  | array items =>
    change (items.set place _).map depth = (items.set place _).map depth
    rw [List.map_set, List.map_set]
    rfl
  | object members =>
    change ((members.map _).map Prod.snd).map depth = ((members.map _).map Prod.snd).map depth
    simp only [List.map_map]
    refine List.map_congr_left fun m _ => ?_
    change depth (if m.1 = key then _ else _) = depth (if m.1 = key then _ else _)
    split <;> rfl

/-! ## Results in parts -/

/-- A result is put together from what a text is read as and from others that do not depend on that
text. -/
def Composed (part : String → Except Fault α) (join : α × β → γ) (whole : String → γ → Prop) :
    Prop :=
  ∃ others : β → Prop, ∀ s z, whole s z ↔ ∃ x y, part s = .ok x ∧ others y ∧ join (x, y) = z

namespace Composed

variable {ι : Type} {part : String → Except Fault α} {join : α × β → γ}
  {whole : String → γ → Prop}

theorem of_none (h : ∀ s z, ¬ whole s z) : Composed part join whole := by
  refine ⟨fun _ => False, fun s z => ?_⟩
  simp [h s z]

theorem congr {whole' : String → γ → Prop} (h : Composed part join whole)
    (hSame : ∀ s z, whole' s z ↔ whole s z) : Composed part join whole' := by
  obtain ⟨others, hWhole⟩ := h
  exact ⟨others, fun s z => (hSame s z).trans (hWhole s z)⟩

theorem any {whole : ι → String → γ → Prop} (h : ∀ i, Composed part join (whole i)) :
    Composed part join fun s z => ∃ i, whole i s z := by
  choose others hWhole using h
  refine ⟨fun y => ∃ i, others i y, fun s z => ?_⟩
  constructor
  · rintro ⟨i, h⟩
    obtain ⟨x, y, hPart, hOthers, hJoin⟩ := (hWhole i s z).mp h
    exact ⟨x, y, hPart, ⟨i, hOthers⟩, hJoin⟩
  · rintro ⟨x, y, hPart, ⟨i, hOthers⟩, hJoin⟩
    exact ⟨i, (hWhole i s z).mpr ⟨x, y, hPart, hOthers, hJoin⟩⟩

theorem and {P : Prop} (h : P → Composed part join whole) :
    Composed part join fun s z => P ∧ whole s z := by
  by_cases hP : P
  · exact (h hP).congr fun _ _ => and_iff_right hP
  · exact .of_none fun _ _ hBoth => hP hBoth.1

end Composed

/-! ## Members -/

def offered (offer : Json → Offer ν) (members : List (String × Json)) : List (String × Offer ν) :=
  members.map fun m => (m.1, offer m.2)

theorem skips_offered {offer : Json → Offer ν} (h : ∀ j, (offer j).outline = .ofJson j)
    (members : List (String × Json)) : ∀ m ∈ offered offer members, m.2.outline.skip = .ok () :=
  List.forall_mem_map.mpr fun m _ => h m.2 ▸ Outline.skip_ofJson m.2

theorem filter_offered_own (offer : Json → Offer ν) (key : String) (x : Json)
    (members : List (String × Json)) :
    (offered offer (members.map (exchange key x))).filter (fun m => m.1 ∈ [key]) =
      List.replicate (members.filter fun m => m.1 ∈ [key]).length (key, offer x) := by
  rw [offered, List.map_map, List.filter_map]
  refine List.map_eq_replicate_iff.mpr fun m hm => ?_
  have hKey : m.1 = key := List.mem_singleton.mp (of_decide_eq_true (List.mem_filter.mp hm).2)
  change (m.1, offer (if m.1 = key then x else m.2)) = _
  rw [if_pos hKey, hKey]

theorem filter_offered_others (offer : Json → Offer ν) {key : String} {names : List String}
    (h : key ∉ names) (x : Json) (members : List (String × Json)) :
    (offered offer (members.map (exchange key x))).filter (fun m => m.1 ∈ names) =
      (offered offer members).filter fun m => m.1 ∈ names := by
  rw [offered, offered, List.map_map, List.filter_map, List.filter_map]
  refine List.map_congr_left fun m hm => ?_
  have hName : m.1 ∈ names := of_decide_eq_true (List.mem_filter.mp hm).2
  have hOther : m.1 ≠ key := fun hKey => h (hKey ▸ hName)
  change (m.1, offer (if m.1 = key then x else m.2)) = _
  rw [if_neg hOther]

namespace Fields

theorem visit_filter (f : Fields ν σ α) {ms : List (String × Offer ν)}
    (hSkips : ∀ m ∈ ms, m.2.outline.skip = .ok ()) (origin : Origin) (found : σ) :
    f.visit origin found (given ms) =
      f.visit origin found (given (ms.filter fun m => m.1 ∈ f.names)) := by
  induction ms generalizing found with
  | nil => rfl
  | cons m rest ih =>
    rw [List.forall_mem_cons] at hSkips
    by_cases hOwn : m.1 ∈ f.names
    · rw [List.filter_cons_of_pos (by simpa using hOwn), visit_own hOwn, visit_own hOwn]
      simp only [ih hSkips.2]
    · rw [List.filter_cons_of_neg (by simpa using hOwn), visit_other hOwn hSkips.1, ih hSkips.2]

/-- Fields are read from the members that have their names. -/
theorem reads_filter_iff {f : Fields ν σ α} {origin : Origin} {ms : List (String × Offer ν)}
    (hSkips : ∀ m ∈ ms, m.2.outline.skip = .ok ()) (x : α) :
    f.Reads origin ms x ↔ f.Reads origin (ms.filter fun m => m.1 ∈ f.names) x := by
  have hVisit := f.visit_filter hSkips origin f.start
  constructor
  · rintro ⟨hNames, -, found, hFound, hFinish⟩
    exact ⟨hNames, fun m hm => hSkips m (List.mem_of_mem_filter hm), found, hVisit ▸ hFound,
      hFinish⟩
  · rintro ⟨hNames, -, found, hFound, hFinish⟩
    exact ⟨hNames, hSkips, found, hVisit.trans hFound, hFinish⟩

theorem visit_required_first {name : String} (read : Reader α) (origin : Origin) (offer : Offer ν)
    (rest : List (String × Offer ν)) :
    (required name read).visit origin none (given ((name, offer) :: rest)) =
      read origin offer.outline >>= fun x =>
        (required name read).visit origin (some x) (given rest) := by
  rw [visit_own (List.mem_singleton.mpr rfl)]
  change (if (name == name && false) then _ else (read origin offer.outline).map some >>= _) = _
  rw [Bool.and_false]
  cases read origin offer.outline <;> rfl

theorem visit_required_again {name : String} (read : Reader α) (origin : Origin) (x : α)
    (offer : Offer ν) (rest : List (String × Offer ν)) :
    (required name read).visit origin (some x) (given ((name, offer) :: rest)) =
      .error (.repeatedMember name) := by
  rw [visit_own (List.mem_singleton.mpr rfl)]
  exact if_pos (by simp [required, one])

/-- A field is read from exactly one member. -/
theorem reads_replicate_iff {name : String} {read : Reader α} {origin : Origin} {offer : Offer ν}
    (hSkip : offer.outline.skip = .ok ()) (n : Nat) (x : α) :
    (required name read).Reads origin (List.replicate n (name, offer)) x ↔
      n = 1 ∧ read origin offer.outline = .ok x := by
  have hSkips : ∀ m ∈ List.replicate n (name, offer), m.2.outline.skip = .ok () := by
    intro m hm
    rw [List.eq_of_mem_replicate hm]
    exact hSkip
  match n with
  | 0 =>
    rw [required, reads_absent_iff hSkips (by simp)]
    simp [Absence.inObject?]
  | 1 =>
    rw [required, reads_one_iff (by simp) hSkips List.mem_cons_self]
    simp
  | n + 2 =>
    refine ⟨fun h => ?_, by omega⟩
    obtain ⟨found, hFound, -⟩ := h.visits
    change (required name read).visit origin none _ = _ at hFound
    rw [List.replicate_succ, visit_required_first, bind_eq_ok_iff] at hFound
    obtain ⟨y, -, hAgain⟩ := hFound
    rw [List.replicate_succ, visit_required_again] at hAgain
    cases hAgain

/-- With something else in one field, only that field changes. -/
theorem reads_exchange_iff {read : Reader α} {g : Fields ν τ β} {origin : Origin} {name : String}
    {offer : Json → Offer ν} (hOffer : ∀ j, (offer j).outline = .ofJson j)
    (hNames : ∀ found key, g.has found key = true → key ∈ g.names)
    (hKeys : (name :: g.names).Nodup) (j : Json) (members : List (String × Json)) (x : α) (y : β) :
    ((required name read).and g).Reads origin (offered offer (members.map (exchange name j)))
        (x, y) ↔
      read origin (.ofJson j) = .ok x ∧ (members.filter fun m => m.1 ∈ [name]).length = 1 ∧
        g.Reads origin (offered offer members) y := by
  have hSkips := skips_offered hOffer
  have hOwn : (required name read).Reads origin (offered offer (members.map (exchange name j))) x ↔
      (members.filter fun m => m.1 ∈ [name]).length = 1 ∧ read origin (.ofJson j) = .ok x := by
    rw [reads_filter_iff (hSkips _), ← hOffer,
      ← reads_replicate_iff (hOffer j ▸ Outline.skip_ofJson j), ← filter_offered_own]
    rfl
  have hOthers : g.Reads origin (offered offer (members.map (exchange name j))) y ↔
      g.Reads origin (offered offer members) y := by
    rw [reads_filter_iff (hSkips _), filter_offered_others offer (List.nodup_cons.mp hKeys).1,
      ← reads_filter_iff (hSkips _)]
  have hBoth : ((required name read).and g).Reads origin
      (offered offer (members.map (exchange name j))) (x, y) ↔
        (required name read).Reads origin (offered offer (members.map (exchange name j))) x ∧
          g.Reads origin (offered offer (members.map (exchange name j))) y :=
    reads_and_iff names_one hNames hKeys
  constructor
  · intro h
    obtain ⟨hFirst, hSecond⟩ := hBoth.mp h
    exact ⟨(hOwn.mp hFirst).2, (hOwn.mp hFirst).1, hOthers.mp hSecond⟩
  · rintro ⟨hRead, hOnce, hSecond⟩
    exact hBoth.mpr ⟨hOwn.mpr ⟨hOnce, hRead⟩, hOthers.mpr hSecond⟩

/-! ## Items -/

/-- What a record of so many fields is called where an array is read. -/
def arrayTitle (title : String) (fields : Nat) : String :=
  let plural := if fields = 1 then "element" else "elements"
  s!"{title} with {fields} {plural}"

theorem readInside_array (f : Fields ν σ α) (title : String) (origin : Origin)
    (items : List (Offer ν)) (ending : Ending) :
    f.readInside title origin (.array items ending) =
      f.take ⟨origin, arrayTitle title f.names.length, 0, items, ending⟩ >>= fun r =>
        (leftOver r.2).map fun _ => r.1 :=
  rfl

theorem readInside_array_iff {f : Fields ν σ α} {title : String} {origin : Origin}
    {items : List (Offer ν)} {ending : Ending} {x : α} :
    f.readInside title origin (.array items ending) = .ok x ↔
      ∃ line, f.take ⟨origin, arrayTitle title f.names.length, 0, items, ending⟩ = .ok (x, line) ∧
        leftOver line = .ok () := by
  rw [readInside_array, bind_eq_ok_iff]
  constructor
  · rintro ⟨⟨_, line⟩, hTake, hRest⟩
    obtain ⟨_, hLeft, rfl⟩ := map_eq_ok_iff.mp hRest
    exact ⟨line, hTake, hLeft⟩
  · rintro ⟨line, hTake, hLeft⟩
    exact ⟨(x, line), hTake, map_eq_ok_iff.mpr ⟨(), hLeft, rfl⟩⟩

theorem take_map_iff {f : Fields ν σ α} {h : α → β} {line rest : Line ν} {y : β} :
    (f.map h).take line = .ok (y, rest) ↔ ∃ x, f.take line = .ok (x, rest) ∧ h x = y := by
  change (f.take line).map _ = _ ↔ _
  rw [map_eq_ok_iff]
  constructor
  · rintro ⟨⟨x, _⟩, hTake, hSame⟩
    cases hSame
    exact ⟨x, hTake, rfl⟩
  · rintro ⟨x, hTake, rfl⟩
    exact ⟨(x, rest), hTake, rfl⟩

theorem take_and_iff {f : Fields ν σ α} {g : Fields ν τ β} {line rest : Line ν} {x : α} {y : β} :
    (f.and g).take line = .ok ((x, y), rest) ↔
      ∃ inside, f.take line = .ok (x, inside) ∧ g.take inside = .ok (y, rest) := by
  change (f.take line >>= fun r => g.take r.2 >>= fun r' => .ok ((r.1, r'.1), r'.2)) = _ ↔ _
  simp only [bind_eq_ok_iff]
  constructor
  · rintro ⟨⟨_, inside⟩, hFirst, ⟨_, _⟩, hSecond, hSame⟩
    cases hSame
    exact ⟨inside, hFirst, hSecond⟩
  · rintro ⟨inside, hFirst, hSecond⟩
    exact ⟨(x, inside), hFirst, (y, rest), hSecond, rfl⟩

theorem take_required_iff {name : String} {read : Reader α} {origin : Origin} {expected : String}
    {taken : Nat} {item : Offer ν} {items : List (Offer ν)} {ending : Ending} {x : α}
    {line : Line ν} :
    (required name read).take ⟨origin, expected, taken, item :: items, ending⟩ = .ok (x, line) ↔
      read origin item.outline = .ok x ∧ ⟨origin, expected, taken + 1, items, ending⟩ = line := by
  change (read origin item.outline).map _ = _ ↔ _
  rw [map_eq_ok_iff]
  constructor
  · rintro ⟨_, hRead, hSame⟩
    cases hSame
    exact ⟨hRead, rfl⟩
  · rintro ⟨hRead, rfl⟩
    exact ⟨x, hRead, rfl⟩

theorem readInside_map (h : α → γ) (f : Fields ν σ α) (title : String) (origin : Origin)
    (body : Body ν) :
    (f.map h).readInside title origin body = (f.readInside title origin body).map h := by
  cases body with
  | other x => rfl
  | object members ending =>
    rw [readInside, readInside, visit_map]
    change (f.visit origin f.start members >>= fun found => wellFormed ending.keptInObject >>=
      fun _ => (f.finish found).map h) = Except.map h (f.visit origin f.start members >>= _)
    cases f.visit origin f.start members with
    | error e => rfl
    | ok found => cases wellFormed ending.keptInObject <;> rfl
  | array items ending =>
    rw [readInside_array, readInside_array]
    let line : Line ν := ⟨origin, arrayTitle title f.names.length, 0, items, ending⟩
    change ((f.take line).map _ >>= _) = Except.map h (f.take line >>= _)
    cases f.take line with
    | error e => rfl
    | ok r =>
      change (leftOver r.2).map _ = ((leftOver r.2).map _).map h
      cases leftOver r.2 <;> rfl

end Fields

/-! ## Records -/

def bodyOf (offer : Json → Offer ν) : Json → Body ν
  | .object members => .object (given (offered offer members)) .closed
  | .array items => .array (items.map offer) .closed
  | j => .other (.ofJson j)

theorem Fields.reader_eq_ok_iff {f : Fields Unit σ α} {title : String} {origin : Origin} {j : Json}
    {x : α} :
    f.reader title origin (.ofJson j) = .ok x ↔
      ∃ inside, origin.enter = .ok inside ∧ f.readInside title inside (bodyOf plain j) = .ok x := by
  cases j with
  | null | bool | number | string => exact ⟨nofun, fun ⟨_, _, h⟩ => nomatch h⟩
  | array items =>
    rw [reader_plain_array]
    exact bind_eq_ok_iff
  | object members =>
    rw [reader_plain_object]
    exact bind_eq_ok_iff

section Records

variable {read : Reader α} {g : Fields ν τ β} {name : String} {part : String → Except Fault α}

theorem composed_readInside {origin : Origin} {offer : Json → Offer ν}
    (hOffer : ∀ j, (offer j).outline = .ofJson j)
    (hPart : ∀ s, read origin (.ofJson (.string s)) = part s)
    (hNames : ∀ found key, g.has found key = true → key ∈ g.names)
    (hKeys : (name :: g.names).Nodup) (title : String) (join : α × β → γ) (j : Json) :
    Composed part join fun s z =>
      (((Fields.required name read).and g).map join).readInside title origin
        (bodyOf offer (j.withField name 0 (.string s))) = .ok z := by
  have hAll : ∀ found key, (((Fields.required name read).and g).map join).has found key = true →
      key ∈ (((Fields.required name read).and g).map join).names :=
    Fields.names_and Fields.names_one hNames
  cases j with
  | null | bool | number | string => exact .of_none fun _ _ => nofun
  | object members =>
    refine ⟨fun y => (members.filter fun m => m.1 ∈ [name]).length = 1 ∧
      g.Reads origin (offered offer members) y, fun s z => ?_⟩
    change (Fields.map join _).readInside title origin
      (.object (given (offered offer (members.map (exchange name (.string s))))) .closed) = _ ↔ _
    rw [Fields.readInside_object_iff hAll (skips_offered hOffer _), Fields.reads_map_iff]
    simp only [Prod.exists, Fields.reads_exchange_iff hOffer hNames hKeys, hPart, and_assoc]
  | array items =>
    cases items with
    | nil => exact .of_none fun _ _ => nofun
    | cons first rest =>
      let line : Line ν :=
        ⟨origin, Fields.arrayTitle title (name :: g.names).length, 1, rest.map offer, .closed⟩
      refine ⟨fun y => ∃ last, g.take line = .ok (y, last) ∧ Fields.leftOver last = .ok (),
        fun s z => ?_⟩
      change (Fields.map join _).readInside title origin
        (.array (offer (.string s) :: rest.map offer) .closed) = _ ↔ _
      simp only [Fields.readInside_array_iff, Fields.take_map_iff, Prod.exists, Fields.take_and_iff,
        Fields.take_required_iff, hOffer, hPart]
      constructor
      · rintro ⟨last, ⟨x, y, ⟨_, ⟨hRead, rfl⟩, hTake⟩, hJoin⟩, hRest⟩
        exact ⟨x, y, hRead, ⟨last, hTake, hRest⟩, hJoin⟩
      · rintro ⟨x, y, hRead, ⟨last, hTake, hRest⟩, hJoin⟩
        exact ⟨last, ⟨x, y, ⟨line, ⟨hRead, rfl⟩, hTake⟩, hJoin⟩, hRest⟩

/-- Without records of its own kind inside. -/
theorem composed_reader (hPart : ∀ origin s, read origin (.ofJson (.string s)) = part s)
    {g : Fields Unit τ β} (hNames : ∀ found key, g.has found key = true → key ∈ g.names)
    (hKeys : (name :: g.names).Nodup) (title : String) (join : α × β → γ) (origin : Origin)
    (j : Json) :
    Composed part join fun s z =>
      (((Fields.required name read).and g).map join).reader title origin
        (.ofJson (j.withField name 0 (.string s))) = .ok z := by
  simp only [Fields.reader_eq_ok_iff]
  exact .any fun inside => .and fun _ =>
    composed_readInside (fun _ => rfl) (hPart inside) hNames hKeys title join j

end Records

/-! ## Tagged records -/

/-- What stands in the places of tags. -/
def tags : Json → List Json
  | .object members => (members.filter fun m => m.1 = "type").map Prod.snd
  | .array items => items.take 1
  | _ => []

def untagged : Json → Json
  | .object members => .object (members.filter fun m => m.1 ≠ "type")
  | .array items => .array items.tail
  | j => j

theorem tags_withField {key : String} (hKey : key ≠ "type") (j : Json) (place : Nat) (x : Json) :
    (j.withField key (place + 1) x).tags = j.tags := by
  cases j with
  | null | bool | number | string => rfl
  | array items => cases items <;> rfl
  | object members =>
    change ((members.map (exchange key x)).filter _).map Prod.snd = (members.filter _).map Prod.snd
    rw [List.filter_map, List.map_map]
    refine List.map_congr_left fun m hm => ?_
    have hTag : m.1 = "type" := of_decide_eq_true (List.mem_filter.mp hm).2
    exact if_neg fun hSame => hKey (hSame.symm.trans hTag)

theorem untagged_withField (j : Json) (key : String) (place : Nat) (x : Json) :
    (j.withField key (place + 1) x).untagged = j.untagged.withField key place x := by
  cases j with
  | null | bool | number | string => rfl
  | array items => cases items <;> rfl
  | object members =>
    change Json.object ((members.map (exchange key x)).filter _) = .object ((members.filter _).map _)
    rw [List.filter_map]
    rfl

namespace Tagged

variable {t : Tagged ν} {origin : Origin}

/-- The only tag, one that is met or one that was found before, names the variant. -/
def Names (t : Tagged ν) (origin : Origin) :
    Option (Variant ν) → List Json → Variant ν → Prop
  | some found, [], v => found = v
  | none, [tag], v => t.variant origin (.ofJson tag) = .ok v
  | _, _, _ => False

theorem variant_mem_of_names {tags : List Json} {v : Variant ν} (h : t.Names origin none tags v) :
    v ∈ t.variants := by
  match tags, h with
  | [_], h => exact variant_mem h

theorem names_cons_iff {tag : Json} {rest : List Json} {v : Variant ν} :
    t.Names origin none (tag :: rest) v ↔
      ∃ found, t.variant origin (.ofJson tag) = .ok found ∧ t.Names origin (some found) rest v := by
  cases rest with
  | nil => simp [Names]
  | cons tag' rest => simp [Names]

/-- Members are split if they have one tag and the others are not too deep. -/
theorem split_eq_ok_iff {found : Option (Variant ν)} {members : List (String × Json)}
    {v : Variant ν} {others : List (Key × Offer ν)} :
    t.split origin found (given (t.offers members)) = .ok (some v, others) ↔
      t.Names origin found (tags (.object members)) v ∧
        (∀ m ∈ members.filter fun m => m.1 ≠ "type", origin.limit m.2.depth = .ok ()) ∧
        given (t.offers (members.filter fun m => m.1 ≠ "type")) = others := by
  induction members generalizing found others with
  | nil =>
    change Except.ok (found, []) = .ok (some v, others) ↔ t.Names origin found [] v ∧ _ ∧ [] = others
    cases found with
    | none => exact ⟨nofun, fun h => h.1.elim⟩
    | some w => simp [Names]
  | cons m rest ih =>
    obtain ⟨key, value⟩ := m
    by_cases hTag : key = "type"
    · subst hTag
      have hTags : tags (.object (("type", value) :: rest)) = value :: tags (.object rest) := by
        simp [tags]
      rw [split_cons_tag, hTags, List.filter_cons_of_neg (by simp)]
      cases found with
      | some w => exact ⟨nofun, fun h => h.1.elim⟩
      | none =>
        rw [Option.isSome_none, if_neg Bool.false_ne_true, bind_eq_ok_iff, names_cons_iff]
        simp only [ih]
        constructor
        · rintro ⟨w, hVariant, hNames, hOthers⟩
          exact ⟨⟨w, hVariant, hNames⟩, hOthers⟩
        · rintro ⟨⟨w, hVariant, hNames⟩, hOthers⟩
          exact ⟨w, hVariant, hNames, hOthers⟩
    · have hTags : tags (.object ((key, value) :: rest)) = tags (.object rest) := by
        simp [tags, hTag]
      rw [split_cons_other t origin found rest hTag, hTags,
        List.filter_cons_of_pos (by simpa using hTag), List.forall_mem_cons, bind_eq_ok_iff]
      simp only [map_eq_ok_iff, Prod.mk.injEq]
      constructor
      · rintro ⟨_, hLimit, ⟨_, kept⟩, hRest, rfl, rfl⟩
        obtain ⟨hNames, hLimits, rfl⟩ := ih.mp hRest
        exact ⟨hNames, ⟨hLimit, hLimits⟩, rfl⟩
      · rintro ⟨hNames, ⟨hLimit, hLimits⟩, rfl⟩
        exact ⟨(), hLimit, (some v, _), ih.mpr ⟨hNames, hLimits, rfl⟩, rfl, rfl⟩

/-- A record is read if it has one tag and the variant which that names is read from the rest. -/
theorem reader_eq_ok_iff {j : Json} {x : ν} :
    t.reader origin (.ofJson j) = .ok x ↔
      ∃ inside v, origin.enter = .ok inside ∧ t.Names inside none j.tags v ∧
        (∀ part ∈ j.untagged.parts, inside.limit part.depth = .ok ()) ∧
        v.read (bodyOf t.offer j.untagged) = .ok x := by
  cases j with
  | null | bool | number | string => exact ⟨nofun, fun ⟨_, _, _, h, _⟩ => h.elim⟩
  | array items =>
    cases items with
    | nil =>
      rw [reader_array_nil]
      cases origin.enter with
      | error e => exact ⟨nofun, fun ⟨_, _, h, _⟩ => nomatch h⟩
      | ok inside => exact ⟨nofun, fun ⟨_, _, _, h, _⟩ => h.elim⟩
    | cons tag rest =>
      simp only [reader_array_cons, bind_eq_ok_iff]
      constructor
      · rintro ⟨inside, hEnter, v, hVariant, _, hBuffer, hRead⟩
        exact ⟨inside, v, hEnter, hVariant, bufferAll_eq_ok_iff.mp hBuffer, hRead⟩
      · rintro ⟨inside, v, hEnter, hVariant, hLimits, hRead⟩
        exact ⟨inside, hEnter, v, hVariant, (), bufferAll_eq_ok_iff.mpr hLimits, hRead⟩
  | object members =>
    simp only [reader_object, bind_eq_ok_iff]
    constructor
    · rintro ⟨inside, hEnter, ⟨_ | v, others⟩, hSplit, hRead⟩
      · cases hRead
      · obtain ⟨hNames, hLimits, rfl⟩ := split_eq_ok_iff.mp hSplit
        exact ⟨inside, v, hEnter, hNames, List.forall_mem_map.mpr hLimits, hRead⟩
    · rintro ⟨inside, v, hEnter, hNames, hLimits, hRead⟩
      have hSplit := split_eq_ok_iff.mpr ⟨hNames, List.forall_mem_map.mp hLimits, rfl⟩
      exact ⟨inside, hEnter, (some v, _), hSplit, hRead⟩

/-- The variants decide whether another text can stand in one of their fields. -/
theorem composed_tagged {part : String → Except Fault α} {join : α × β → γ} {picture : γ → ν}
    {key : String} (hKey : key ≠ "type")
    (hVariants : ∀ v ∈ t.variants, ∀ j : Json, Composed part join fun s z =>
      v.read (bodyOf t.offer (j.withField key 0 (.string s))) = .ok (picture z))
    (origin : Origin) (j : Json) :
    Composed part join fun s z =>
      t.reader origin (.ofJson (j.withField key 1 (.string s))) = .ok (picture z) := by
  have hParts : ∀ (inside : Origin) s,
      (∀ x ∈ (j.untagged.withField key 0 (.string s)).parts, inside.limit x.depth = .ok ()) ↔
        ∀ x ∈ (j.untagged.withField key 0 (.string "")).parts, inside.limit x.depth = .ok () := by
    intro inside s
    have hDepths := depths_withField j.untagged key 0 s ""
    rw [← List.forall_mem_map (P := fun d => inside.limit d = .ok ()), hDepths, List.forall_mem_map]
  simp only [reader_eq_ok_iff, tags_withField hKey, untagged_withField, hParts]
  exact .any fun inside => .any fun v => .and fun _ => .and fun hNames => .and fun _ =>
    hVariants v (variant_mem_of_names hNames) j.untagged

end Tagged

end Manuscript.Json
