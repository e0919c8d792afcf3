import Manuscript.Proofs.Json.Together

/-!
# Values in another arrangement

A value whose objects repeat no key is read alike in every arrangement: a reader that is orderless
succeeds on both together. Readers of numbers, texts and flags are orderless, and so is what is put
together from orderless readers, through tagged records of any depth.
-/

namespace Manuscript.Json

variable {ν α : Type}

/-- No object of the value repeats a key. -/
inductive Distinct : Json → Prop
  | null : Distinct .null
  | bool (b : Bool) : Distinct (.bool b)
  | number (n : Number) : Distinct (.number n)
  | string (s : String) : Distinct (.string s)
  | array {items : List Json} (h : ∀ item ∈ items, Distinct item) : Distinct (.array items)
  | object {members : List (String × Json)} (hKeys : (members.map Prod.fst).Nodup)
      (h : ∀ m ∈ members, Distinct m.2) : Distinct (.object members)

/-- Values of which nothing is read before the rest is there have no limit of depth. -/
theorem Origin.limit_of_enter {origin : Origin} (h : origin.enter = .ok origin) (depth : Nat) :
    origin.limit depth = .ok () := by
  cases origin with
  | text room =>
    cases room with
    | zero => cases h
    | succ room => simp [enter] at h
  | value | buffered => rfl

namespace Arrangement

variable (g : Arrangement)

theorem apply_atom {j : Json} (hArray : ∀ items, j ≠ .array items)
    (hObject : ∀ members, j ≠ .object members) : g.apply j = j := by
  cases j with
  | null => exact g.null
  | bool b => exact g.bool b
  | number n => exact g.number n
  | string s => exact g.string s
  | array items => exact absurd rfl (hArray items)
  | object members => exact absurd rfl (hObject members)

/-- Only objects, and arrays of them, look different in another arrangement. -/
theorem apply_cases {j : Json} (hj : j.Distinct) :
    g.apply j = j ∨ (∃ items, j = .array items ∧ ∀ item ∈ items, item.Distinct) ∨
      ∃ members arranged, j = .object members ∧ g.apply j = .object arranged := by
  cases hj with
  | null | bool | number | string => exact .inl (g.apply_atom nofun nofun)
  | array h => exact .inr (.inl ⟨_, rfl, h⟩)
  | object hKeys =>
    obtain ⟨arranged, hApply, -⟩ := g.object _ hKeys
    exact .inr (.inr ⟨_, arranged, rfl, hApply⟩)

end Arrangement

theorem lookup_map {β : Type} (f : α → β) (entries : List (String × α)) (key : String) :
    (entries.map fun e => (e.1, f e.2)).lookup key = (entries.lookup key).map f := by
  induction entries with
  | nil => rfl
  | cons e rest ih =>
    rw [List.map_cons, Keyed.lookup_cons_eq, Keyed.lookup_cons_eq, ih]
    split <;> rfl

/-! ## Readers -/

/-- The reader makes the same of a complete value in another arrangement. -/
def Orderless (g : Arrangement) (read : Reader α) : Prop :=
  ∀ origin, origin.enter = .ok origin → ∀ j, j.Distinct →
    Together Eq (read origin (.ofJson (g.apply j))) (read origin (.ofJson j))

namespace Orderless

variable {g : Arrangement} {read : Reader α}

theorem of_refused (hArray : ∀ origin items, ∃ e, read origin (.array items .closed) = .error e)
    (hObject : ∀ origin members, ∃ e, read origin (.object members .closed) = .error e) :
    Orderless g read := by
  intro origin _ j hj
  rcases g.apply_cases hj with hSame | ⟨items, rfl, -⟩ | ⟨members, arranged, rfl, hApply⟩
  · rw [hSame]
    exact .refl _
  · rw [g.array, Outline.ofJson_array, Outline.ofJson_array]
    obtain ⟨e, he⟩ := hArray origin ((items.map g.apply).map .ofJson)
    obtain ⟨e', he'⟩ := hArray origin (items.map .ofJson)
    rw [he, he']
    exact .error e e'
  · rw [hApply, Outline.ofJson_object, Outline.ofJson_object]
    obtain ⟨e, he⟩ := hObject origin (arranged.map fun m => (.ok m.1, .ofJson m.2))
    obtain ⟨e', he'⟩ := hObject origin (members.map fun m => (.ok m.1, .ofJson m.2))
    rw [he, he']
    exact .error e e'

theorem text : Orderless g Reader.text :=
  of_refused (fun _ _ => ⟨_, rfl⟩) fun _ _ => ⟨_, rfl⟩

theorem flag : Orderless g Reader.flag :=
  of_refused (fun _ _ => ⟨_, rfl⟩) fun _ _ => ⟨_, rfl⟩

theorem word8 : Orderless g Reader.word8 :=
  of_refused (fun _ _ => ⟨_, rfl⟩) fun _ _ => ⟨_, rfl⟩

theorem word32 : Orderless g Reader.word32 :=
  of_refused (fun _ _ => ⟨_, rfl⟩) fun _ _ => ⟨_, rfl⟩

theorem variant (t : Tagged ν) : Orderless g t.variant := by
  refine of_refused (fun origin _ => ?_) fun origin _ => ?_
  all_goals cases origin <;> exact ⟨_, rfl⟩

theorem optional (h : Orderless g read) : Orderless g read.optional := by
  have hSome : ∀ origin j, j ≠ Json.null →
      read.optional origin (.ofJson j) = (read origin (.ofJson j)).map some := by
    intro origin j hj
    cases j with
    | null => exact absurd rfl hj
    | bool | number | string | array | object => rfl
  intro origin hWhole j hj
  have hRead := (h origin hWhole j hj).map (f := some) (g := some) fun _ _ => congrArg some
  rcases g.apply_cases hj with hSame | ⟨items, rfl, -⟩ | ⟨members, arranged, rfl, hApply⟩
  · rw [hSame]
    exact .refl _
  · rwa [hSome origin (.array items) nofun, hSome origin _ (g.array_ne_null items)]
  · rw [hApply] at hRead ⊢
    rwa [hSome origin (.object arranged) nofun, hSome origin (.object members) nofun]

theorem items {origin : Origin} {xs : List Json}
    (h : ∀ x ∈ xs, Together Eq (read origin (.ofJson (g.apply x))) (read origin (.ofJson x))) :
    Together Eq (Reader.items read origin ((xs.map g.apply).map .ofJson))
      (Reader.items read origin (xs.map .ofJson)) := by
  induction xs with
  | nil => exact .ok rfl
  | cons x rest ih =>
    rw [List.map_cons, List.map_cons, List.map_cons, Reader.items, Reader.items]
    refine (h x List.mem_cons_self).bind ?_
    rintro y _ rfl
    exact (ih fun x hx => h x (List.mem_cons_of_mem _ hx)).bind fun _ _ hxs => .ok (hxs ▸ rfl)

theorem list (h : Orderless g read) : Orderless g read.list := by
  intro origin hWhole j hj
  rcases g.apply_cases hj with hSame | ⟨xs, rfl, hItems⟩ | ⟨members, arranged, rfl, hApply⟩
  · rw [hSame]
    exact .refl _
  · rw [g.array, Outline.ofJson_array, Outline.ofJson_array, Reader.list, Reader.list, hWhole]
    exact (items fun x hx => h origin hWhole x (hItems x hx)).bind fun _ _ hxs => .ok hxs
  · rw [hApply]
    exact .error _ _

end Orderless

/-! ## Records -/

variable {g : Arrangement}

theorem members_arranged {R : Offer ν → Offer ν → Prop} {offer : Json → Offer ν}
    (hSkip : ∀ j, (offer j).outline.skip = .ok ()) {members arranged : List (String × Json)}
    (hKeys : (members.map Prod.fst).Nodup)
    (hPerm : arranged.Perm (members.map fun m => (m.1, g.apply m.2)))
    (hOffers : ∀ m ∈ members, R (offer (g.apply m.2)) (offer m.2)) :
    Members R (arranged.map fun m => (m.1, offer m.2)) (members.map fun m => (m.1, offer m.2)) := by
  have hSkips : ∀ l : List (String × Json), ∀ m ∈ l.map fun m => (m.1, offer m.2),
      m.2.outline.skip = .ok () := by
    intro l m hm
    obtain ⟨_, _, rfl⟩ := List.mem_map.mp hm
    exact hSkip _
  have hApplied : ((members.map fun m => (m.1, g.apply m.2)).map Prod.fst).Nodup := by
    rwa [List.map_map]
  refine ⟨?_, ?_, hSkips _, hSkips _, fun key => ?_⟩
  · rw [List.map_map]
    exact (hPerm.map Prod.fst).nodup_iff.mpr hApplied
  · rwa [List.map_map]
  · rw [lookup_map, lookup_map, Keyed.lookup_perm hPerm hApplied, lookup_map]
    cases hFound : members.lookup key with
    | none => exact .none
    | some j => exact .some (hOffers _ ((Keyed.lookup_eq_some_iff_mem hKeys).mp hFound))

theorem items_arranged {R : Offer ν → Offer ν → Prop} {offer : Json → Offer ν} {items : List Json}
    (hOffers : ∀ item ∈ items, R (offer (g.apply item)) (offer item)) :
    List.Forall₂ R ((items.map g.apply).map offer) (items.map offer) := by
  rw [List.forall₂_map_right_iff, List.map_map, List.forall₂_map_left_iff, List.forall₂_same]
  exact hOffers

def plain (j : Json) : Offer Unit :=
  .plain (.ofJson j)

/-- The values inside an array or an object. -/
def parts : Json → List Json
  | .array items => items
  | .object members => members.map Prod.snd
  | _ => []

theorem Distinct.parts {j : Json} (h : j.Distinct) : ∀ part ∈ j.parts, part.Distinct := by
  cases h with
  | null | bool | number | string => exact nofun
  | array hItems => exact hItems
  | object _ hMembers => exact List.forall_mem_map.mpr hMembers

theorem limit_parts {origin inside : Origin} (hEnter : origin.enter = .ok inside) {j : Json}
    (h : origin.limit j.depth = .ok ()) : ∀ part ∈ j.parts, inside.limit part.depth = .ok () := by
  cases j with
  | null | bool | number | string => exact nofun
  | array items =>
    rw [depth, Origin.limit_succ, hEnter] at h
    exact Origin.limit_items h
  | object members =>
    rw [depth, Origin.limit_succ, hEnter] at h
    exact List.forall_mem_map.mpr (Origin.limit_members h)

theorem reader_plain_array {σ : Type} (f : Fields Unit σ α) (title : String) (origin : Origin)
    (items : List Json) :
    f.reader title origin (.ofJson (.array items)) =
      origin.enter >>= fun inside => f.readInside title inside (.array (items.map plain) .closed) := by
  rw [Outline.ofJson_array, Fields.reader, Body.plain, List.map_map]
  rfl

theorem reader_plain_object {σ : Type} (f : Fields Unit σ α) (title : String) (origin : Origin)
    (members : List (String × Json)) :
    f.reader title origin (.ofJson (.object members)) =
      origin.enter >>= fun inside =>
        f.readInside title inside
          (.object (given (members.map fun m => (m.1, plain m.2))) .closed) := by
  rw [Outline.ofJson_object, Fields.reader, Body.plain, List.map_map, given, List.map_map]
  rfl

/-- Records without records of their own kind are read together if their parts are. -/
theorem Fields.Steady.reader {σ : Type} {f : Fields Unit σ α} {R : Offer Unit → Offer Unit → Prop}
    {origin origin' inside inside' : Origin} (hf : f.Steady R inside inside') (title : String)
    (hEnter : origin.enter = .ok inside) (hEnter' : origin'.enter = .ok inside') {j : Json}
    (hj : j.Distinct)
    (hParts : ∀ part ∈ j.parts, R (plain (g.apply part)) (plain part)) :
    Together Eq (f.reader title origin (.ofJson (g.apply j)))
      (f.reader title origin' (.ofJson j)) := by
  cases hj with
  | null | bool | number | string =>
    rw [g.apply_atom (by nofun) (by nofun)]
    exact .error _ _
  | @array items =>
    have hItems : List.Forall₂ R ((items.map g.apply).map plain) (items.map plain) :=
      items_arranged hParts
    rw [g.array, reader_plain_array, reader_plain_array, hEnter, hEnter']
    exact hf.readInside title (.array hItems)
  | @object members hKeys =>
    obtain ⟨arranged, hApply, hPerm⟩ := g.object members hKeys
    have hMembers : Members R (arranged.map fun m => (m.1, plain m.2))
        (members.map fun m => (m.1, plain m.2)) :=
      members_arranged (fun _ => Outline.skip_ofJson _) hKeys hPerm
        fun m hm => hParts m.2 (List.mem_map_of_mem hm)
    rw [hApply, reader_plain_object, reader_plain_object, hEnter, hEnter']
    exact hf.readInside title (.object hMembers)

/-! ## Tagged records -/

namespace Tagged

variable {t : Tagged ν}

/-- The offers for a value in two arrangements. -/
structure Rearranged (t : Tagged ν) (g : Arrangement) (offer offer' : Offer ν) : Prop where
  value : ∃ j : Json, j.Distinct ∧ offer.outline = .ofJson (g.apply j) ∧ offer'.outline = .ofJson j
  nested : Together Eq offer.nested offer'.nested

theorem rearranged {j : Json} (hj : j.Distinct)
    (hNested : Together Eq ((Outline.ofJson (g.apply j)).nestedList t)
      ((Outline.ofJson j).nestedList t)) :
    Rearranged t g (t.offer (g.apply j)) (t.offer j) :=
  ⟨⟨j, hj, rfl, rfl⟩, hNested⟩

/-- A tag is a text or, inside a buffered value, a number. -/
theorem variant_eq_ok {origin : Origin} {x : Outline} {v : Variant ν}
    (h : t.variant origin x = .ok v) :
    (∃ kind, x = .string (.ok kind) ∧ t.variants.find? (·.tag == kind) = some v) ∨
      ∃ i, x = .number (.ok (.natural i)) ∧ t.variants[i]? = some v := by
  rw [variant.eq_def] at h
  split at h
  · rename_i kind
    cases hFind : t.variants.find? (·.tag == kind) with
    | none =>
      rw [hFind] at h
      cases h
    | some found =>
      rw [hFind] at h
      obtain rfl := Except.ok.inj h
      exact .inl ⟨kind, rfl, hFind⟩
  · rename_i i
    cases hFind : t.variants[i]? with
    | none =>
      rw [hFind] at h
      cases h
    | some found =>
      rw [hFind] at h
      obtain rfl := Except.ok.inj h
      exact .inr ⟨i, rfl, hFind⟩
  · cases h

theorem variant_mem {origin : Origin} {x : Outline} {v : Variant ν}
    (h : t.variant origin x = .ok v) : v ∈ t.variants := by
  rcases variant_eq_ok h with ⟨kind, -, hFind⟩ | ⟨i, -, hFind⟩
  · exact List.mem_of_find?_eq_some hFind
  · exact List.mem_of_getElem? hFind

theorem variant_together {origin : Origin} (hWhole : origin.enter = .ok origin) {tag : Json}
    (hTag : tag.Distinct) :
    Together (fun v v' => v = v' ∧ v ∈ t.variants) (t.variant origin (.ofJson (g.apply tag)))
      (t.variant origin (.ofJson tag)) :=
  (Orderless.variant t origin hWhole tag hTag).of_eq fun _ => variant_mem

theorem chosen_together {origin : Origin} (hWhole : origin.enter = .ok origin) {tag : Option Json}
    (hTag : ∀ j ∈ tag, j.Distinct) :
    Together (fun found found' => found = found' ∧ ∀ v ∈ found, v ∈ t.variants)
      (t.chosen origin (tag.map g.apply)) (t.chosen origin tag) := by
  cases tag with
  | none => exact .ok ⟨rfl, nofun⟩
  | some j =>
    refine (variant_together hWhole (hTag j rfl)).map ?_
    rintro v _ ⟨rfl, hMem⟩
    exact ⟨rfl, fun _ h => Option.some.inj h ▸ hMem⟩

/-- The variant reads alike what is offered in two arrangements. -/
def Lasting (t : Tagged ν) (g : Arrangement) (v : Variant ν) : Prop :=
  ∀ body body', Bodies (Rearranged t g) body body' → Together Eq (v.read body) (v.read body')

theorem reader_of_lookup {origin : Origin} (hWhole : origin.enter = .ok origin)
    {members : List (String × Json)} (hKeys : (members.map Prod.fst).Nodup) :
    t.reader origin (.ofJson (.object members)) =
      t.chosen origin (members.lookup "type") >>= fun found =>
        readAs found (given (t.offers (members.filter fun m => m.1 ≠ "type"))) := by
  rw [reader_object, hWhole]
  change (t.split origin none _ >>= _) = _
  rw [split_lookup t hKeys (origin.limit_of_enter hWhole _)]
  cases t.chosen origin (members.lookup "type") <;> rfl

/-- The tag and the other members are the same in both arrangements. -/
theorem reader_object_together (hVariants : ∀ v ∈ t.variants, Lasting t g v) {origin : Origin}
    (hWhole : origin.enter = .ok origin) {members : List (String × Json)}
    (hKeys : (members.map Prod.fst).Nodup) (hDistinct : ∀ m ∈ members, m.2.Distinct)
    (hOffers : ∀ m ∈ members, Rearranged t g (t.offer (g.apply m.2)) (t.offer m.2)) :
    Together Eq (t.reader origin (.ofJson (g.apply (.object members))))
      (t.reader origin (.ofJson (.object members))) := by
  obtain ⟨arranged, hApply, hPerm⟩ := g.object members hKeys
  have hApplied : ((members.map fun m => (m.1, g.apply m.2)).map Prod.fst).Nodup := by
    rwa [List.map_map]
  have hArranged : (arranged.map Prod.fst).Nodup := (hPerm.map Prod.fst).nodup_iff.mpr hApplied
  have hOthers : Members (Rearranged t g) (t.offers (arranged.filter fun m => m.1 ≠ "type"))
      (t.offers (members.filter fun m => m.1 ≠ "type")) := by
    have hFilter := hPerm.filter fun m => decide (m.1 ≠ "type")
    rw [List.filter_map] at hFilter
    exact members_arranged (fun _ => Outline.skip_ofJson _)
      (hKeys.sublist (List.filter_sublist.map Prod.fst)) hFilter
      fun m hm => hOffers m (List.mem_of_mem_filter hm)
  have hTag : ∀ j ∈ members.lookup "type", j.Distinct :=
    fun j hj => hDistinct _ ((Keyed.lookup_eq_some_iff_mem hKeys).mp hj)
  rw [hApply, reader_of_lookup hWhole hArranged, reader_of_lookup hWhole hKeys,
    Keyed.lookup_perm hPerm hApplied, lookup_map]
  refine (chosen_together hWhole hTag).bind ?_
  rintro found _ ⟨rfl, hFound⟩
  cases found with
  | none => exact .error _ _
  | some v => exact hVariants v (hFound v rfl) _ _ (.object hOthers)

theorem reader_array_together (hVariants : ∀ v ∈ t.variants, Lasting t g v) {origin : Origin}
    (hWhole : origin.enter = .ok origin) {items : List Json}
    (hDistinct : ∀ item ∈ items, item.Distinct)
    (hOffers : ∀ item ∈ items, Rearranged t g (t.offer (g.apply item)) (t.offer item)) :
    Together Eq (t.reader origin (.ofJson (g.apply (.array items))))
      (t.reader origin (.ofJson (.array items))) := by
  rw [g.array]
  cases items with
  | nil => exact .refl _
  | cons tag rest =>
    have hLimit := origin.limit_of_enter hWhole
    have hRest : List.Forall₂ (Rearranged t g) ((rest.map g.apply).map t.offer) (rest.map t.offer) :=
      items_arranged fun item hItem => hOffers item (List.mem_cons_of_mem _ hItem)
    rw [List.map_cons, reader_array_cons, reader_array_cons, hWhole]
    refine (variant_together hWhole (hDistinct tag List.mem_cons_self)).bind ?_
    rintro v _ ⟨rfl, hMem⟩
    rw [bufferAll_ofJson t _ (hLimit _), bufferAll_ofJson t _ (hLimit _)]
    exact hVariants v hMem _ _ (.array hRest)

theorem nestedItems_eq_items (items : List Json) :
    Outline.nestedItems t (items.map .ofJson) =
      Reader.items t.reader .buffered (items.map .ofJson) := by
  induction items with
  | nil => rfl
  | cons item rest ih =>
    rw [List.map_cons, Outline.nestedItems, Reader.items, nested_eq_reader, ih]

/-- Tagged records are orderless, at every depth, if their variants are. -/
theorem reader_orderless (hVariants : ∀ v ∈ t.variants, Lasting t g v) : Orderless g t.reader := by
  -- A part is offered with its reading as a list, so that goes through the induction as well.
  have hBoth : ∀ j : Json, j.Distinct →
      (∀ origin, origin.enter = .ok origin →
        Together Eq (t.reader origin (.ofJson (g.apply j))) (t.reader origin (.ofJson j))) ∧
      Together Eq ((Outline.ofJson (g.apply j)).nestedList t) ((Outline.ofJson j).nestedList t) := by
    intro j
    induction j using induct with
    | null | bool | number | string =>
      intro _
      rw [g.apply_atom (by nofun) (by nofun)]
      exact ⟨fun _ _ => .refl _, .refl _⟩
    | array items ih =>
      rintro (_ | _ | _ | _ | hItems)
      have hReaders : ∀ item ∈ items, Together Eq (t.reader .buffered (.ofJson (g.apply item)))
          (t.reader .buffered (.ofJson item)) :=
        fun item hItem => (ih item hItem (hItems item hItem)).1 .buffered rfl
      refine ⟨fun origin hWhole => reader_array_together hVariants hWhole hItems fun item hItem =>
        rearranged (hItems item hItem) (ih item hItem (hItems item hItem)).2, ?_⟩
      rw [g.array, Outline.ofJson_array, Outline.ofJson_array, Outline.nestedList,
        Outline.nestedList, nestedItems_eq_items, nestedItems_eq_items]
      exact Orderless.items hReaders
    | object members ih =>
      rintro (_ | _ | _ | _ | _ | ⟨hKeys, hMembers⟩)
      refine ⟨fun origin hWhole => reader_object_together hVariants hWhole hKeys hMembers
        fun m hm => rearranged (hMembers m hm) (ih m hm (hMembers m hm)).2, ?_⟩
      obtain ⟨arranged, hApply, -⟩ := g.object members hKeys
      rw [hApply]
      exact .error _ _
  exact fun origin hWhole j hj => (hBoth j hj).1 origin hWhole

end Tagged

/-! ## Fields of tagged records -/

section Fields

variable {t : Tagged ν} {read : Reader α}

theorem steady_read (h : Orderless g read) {offer offer' : Offer ν}
    (hOffers : Tagged.Rearranged t g offer offer') :
    Together Eq (read .buffered offer.outline) (read .buffered offer'.outline) := by
  obtain ⟨j, hj, hOutline, hOutline'⟩ := hOffers.value
  rw [hOutline, hOutline']
  exact h .buffered rfl j hj

theorem steady_required (name : String) (h : Orderless g read) :
    (Fields.required name read).Steady (Tagged.Rearranged t g) .buffered .buffered :=
  Fields.steady_one name _ fun _ _ => steady_read h

theorem steady_defaulted (name : String) (x : α) (h : Orderless g read) :
    (Fields.defaulted name x read).Steady (Tagged.Rearranged t g) .buffered .buffered :=
  Fields.steady_one name _ fun _ _ => steady_read h

theorem steady_optional (name : String) (h : Orderless g read) :
    (Fields.optional name read).Steady (Tagged.Rearranged t g) .buffered .buffered :=
  Fields.steady_one name _ fun _ _ => steady_read h.optional

theorem lasting_ofFields {σ : Type} {f : Fields ν σ α}
    (hf : f.Steady (Tagged.Rearranged t g) .buffered .buffered) (tag title : String)
    (build : α → ν) :
    Tagged.Lasting t g (Variant.ofFields tag title f build) :=
  fun _ _ h => (hf.map build).readInside title h

theorem steady_nestedOrNone (name : String) :
    (Fields.nestedOrNone name).Steady (Tagged.Rearranged t g) .buffered .buffered :=
  Fields.steady_one name _ fun _ _ => Tagged.Rearranged.nested

end Fields

end Manuscript.Json
