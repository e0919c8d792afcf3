import Manuscript.Proofs.Json.Records

/-!
# Records at different depths

A tagged record is buffered when something of its kind encloses it, and read as it comes when nothing
does. Both ways come to the same, faults included, as long as the tag is not given by a number, which
only a buffered record allows: there it stands for the tag of the variant with that number.
-/

namespace Manuscript.Json

variable {ν : Type}

/-- What stands in the place of the tag. -/
def tag? : Json → Option Json
  | .object members => members.lookup "type"
  | .array items => items.head?
  | _ => none

def retag (tag : Json) (m : String × Json) : String × Json :=
  (m.1, if m.1 = "type" then tag else m.2)

/-- The value with another tag. -/
def withTag : Json → Json → Json
  | .object members, tag => .object (members.map (retag tag))
  | .array (_ :: items), tag => .array (tag :: items)
  | j, _ => j

theorem sorted_withTag {tag : Json} (hTag : tag.sorted = tag) (j : Json) :
    (j.withTag tag).sorted = j.sorted.withTag tag := by
  cases j with
  | null | bool | number | string => rfl
  | array items =>
    cases items with
    | nil => rfl
    | cons first rest =>
      rw [withTag, sorted_array, sorted_array, List.map_cons, List.map_cons, hTag]
      rfl
  | object members => exact congrArg Json.object (sortedMembers_exchange hTag "type" members [])

theorem tag?_withTag {tag first : Json} {j : Json} (h : j.tag? = some first) :
    (j.withTag tag).tag? = some tag := by
  cases j with
  | null | bool | number | string => cases h
  | array items =>
    obtain ⟨rest, rfl⟩ := List.head?_eq_some_iff.mp h
    rfl
  | object members =>
    change (members.map (retag tag)).lookup "type" = some tag
    change members.lookup "type" = some first at h
    induction members with
    | nil => cases h
    | cons m rest ih =>
      rw [List.map_cons, retag, List.lookup_cons]
      rw [List.lookup_cons] at h
      by_cases hKey : m.1 = "type"
      · simp [hKey]
      · rw [beq_eq_false_iff_ne.mpr (Ne.symm hKey)] at h ⊢
        exact ih h

def Origin.isBuffered : Origin → Bool
  | .buffered => true
  | .text _ | .value => false

theorem Origin.isBuffered_enter {origin inside : Origin} (h : origin.enter = .ok inside) :
    inside.isBuffered = origin.isBuffered := by
  cases origin with
  | text room =>
    cases room with
    | zero => cases h
    | succ room =>
      obtain rfl := Except.ok.inj h
      rfl
  | value | buffered =>
    obtain rfl := Except.ok.inj h
    rfl

namespace Tagged

variable {t : Tagged ν} {origin other : Origin}

/-- Two places between which a tag makes no difference. -/
def SameTag (origin other : Origin) (tag : Option Json) : Prop :=
  origin.isBuffered = other.isBuffered ∨ ∀ n, tag ≠ some (.natural n)

theorem variant_congr {tag : Json} (h : SameTag origin other (some tag)) :
    t.variant origin (.ofJson tag) = t.variant other (.ofJson tag) := by
  rcases h with hSame | hTag
  · cases tag with
    | number n => cases n <;> cases origin <;> cases other <;> first | rfl | cases hSame
    | string s => rfl
    | null | bool | array | object => rfl
  · cases tag with
    | number n =>
      cases n with
      | natural n => exact absurd rfl (hTag n)
      | negative n => rfl
      | real x => rfl
    | string s => rfl
    | null | bool | array | object => rfl

theorem split_congr {members : List (String × Json)} {found : Option (Variant ν)}
    (hFirst : origin.limit (depthMembers members) = .ok ())
    (hSecond : other.limit (depthMembers members) = .ok ())
    (hTag : found = none → SameTag origin other (members.lookup "type")) :
    t.split origin found (given (t.offers members)) =
      t.split other found (given (t.offers members)) := by
  induction members generalizing found with
  | nil => rfl
  | cons m rest ih =>
    obtain ⟨key, value⟩ := m
    rw [depthMembers, Origin.limit_max_iff] at hFirst hSecond
    by_cases hKey : key = "type"
    · subst hKey
      rw [split_cons_tag, split_cons_tag]
      cases found with
      | some v => rfl
      | none =>
        rw [List.lookup_cons_self] at hTag
        rw [variant_congr (hTag rfl)]
        change (t.variant other (.ofJson value) >>= _) = (t.variant other (.ofJson value) >>= _)
        refine congrArg _ (funext fun v => ih hFirst.2 hSecond.2 fun hNone => ?_)
        cases hNone
    · have hLookup : ((key, value) :: rest).lookup "type" = rest.lookup "type" := by
        rw [List.lookup_cons, beq_eq_false_iff_ne.mpr (Ne.symm hKey)]
      rw [hLookup] at hTag
      rw [split_cons_other t origin found rest hKey, split_cons_other t other found rest hKey,
        hFirst.1, hSecond.1, ih hFirst.2 hSecond.2 hTag]

/-- Where a record stands decides nothing but whether its tag may be a number. -/
theorem reader_congr {j : Json} (hFirst : origin.limit j.depth = .ok ())
    (hSecond : other.limit j.depth = .ok ()) (hTag : SameTag origin other j.tag?) :
    t.reader origin (.ofJson j) = t.reader other (.ofJson j) := by
  cases j with
  | null | bool | number | string => rfl
  | array items =>
    obtain ⟨inside, hEnter, hInside⟩ := Origin.limit_succ_iff.mp hFirst
    obtain ⟨inside', hEnter', hInside'⟩ := Origin.limit_succ_iff.mp hSecond
    cases items with
    | nil =>
      rw [reader_array_nil, reader_array_nil, hEnter, hEnter']
      rfl
    | cons tag rest =>
      rw [depthItems, Origin.limit_max_iff] at hInside hInside'
      have hSame : SameTag inside inside' (some tag) := by
        rwa [SameTag, Origin.isBuffered_enter hEnter, Origin.isBuffered_enter hEnter']
      rw [reader_array_cons, reader_array_cons, hEnter, hEnter']
      change (t.variant inside (.ofJson tag) >>= _) = (t.variant inside' (.ofJson tag) >>= _)
      rw [variant_congr hSame, bufferAll_ofJson t rest hInside.2,
        bufferAll_ofJson t rest hInside'.2]
  | object members =>
    obtain ⟨inside, hEnter, hInside⟩ := Origin.limit_succ_iff.mp hFirst
    obtain ⟨inside', hEnter', hInside'⟩ := Origin.limit_succ_iff.mp hSecond
    have hSame : SameTag inside inside' (members.lookup "type") := by
      rwa [SameTag, Origin.isBuffered_enter hEnter, Origin.isBuffered_enter hEnter']
    rw [reader_object, reader_object, hEnter, hEnter']
    change (t.split inside none _ >>= _) = (t.split inside' none _ >>= _)
    rw [split_congr hInside hInside' fun _ => hSame]

theorem split_of_refused_tag {members : List (String × Json)} {tag : Json} {e : Fault}
    (hLimit : origin.limit (depthMembers members) = .ok ())
    (hTag : members.lookup "type" = some tag) (hRefused : t.variant origin (.ofJson tag) = .error e) :
    t.split origin none (given (t.offers members)) = .error e := by
  induction members with
  | nil => cases hTag
  | cons m rest ih =>
    obtain ⟨key, value⟩ := m
    rw [depthMembers, Origin.limit_max_iff] at hLimit
    by_cases hKey : key = "type"
    · subst hKey
      rw [List.lookup_cons_self] at hTag
      obtain rfl := Option.some.inj hTag
      rw [split_cons_tag, hRefused]
      rfl
    · rw [List.lookup_cons, beq_eq_false_iff_ne.mpr (Ne.symm hKey)] at hTag
      rw [split_cons_other t origin none rest hKey, hLimit.1, ih hLimit.2 hTag]
      rfl

theorem reader_of_refused_tag {j tag : Json} {e : Fault} (hLimit : origin.limit j.depth = .ok ())
    (hTag : j.tag? = some tag)
    (hRefused : ∀ inside, inside.isBuffered = origin.isBuffered →
      t.variant inside (.ofJson tag) = .error e) :
    t.reader origin (.ofJson j) = .error e := by
  cases j with
  | null | bool | number | string => cases hTag
  | array items =>
    obtain ⟨inside, hEnter, hInside⟩ := Origin.limit_succ_iff.mp hLimit
    obtain ⟨rest, rfl⟩ := List.head?_eq_some_iff.mp hTag
    rw [reader_array_cons, hEnter]
    change (t.variant inside (.ofJson tag) >>= _) = _
    rw [hRefused inside (Origin.isBuffered_enter hEnter)]
    rfl
  | object members =>
    obtain ⟨inside, hEnter, hInside⟩ := Origin.limit_succ_iff.mp hLimit
    rw [reader_object, hEnter]
    change (t.split inside none _ >>= _) = _
    rw [split_of_refused_tag hInside hTag (hRefused inside (Origin.isBuffered_enter hEnter))]
    rfl

/-! ## Tags by number -/

variable {i : Nat} {v : Variant ν}

theorem variant_number (hVariant : t.variants[i]? = some v)
    (hName : t.variants.find? (·.tag == v.tag) = some v) :
    t.variant .buffered (.ofJson (.string v.tag)) = t.variant .buffered (.ofJson (.natural i)) := by
  change t.variant .buffered (.string (.ok v.tag)) =
    t.variant .buffered (.number (.ok (.natural i)))
  rw [variant, variant, hName, hVariant]

theorem split_withTag {members : List (String × Json)} {found : Option (Variant ν)} {first tag : Json}
    (hTag : found = none → members.lookup "type" = some first)
    (hSame : t.variant .buffered (.ofJson tag) = t.variant .buffered (.ofJson first)) :
    t.split .buffered found (given (t.offers (members.map (retag tag)))) =
      t.split .buffered found (given (t.offers members)) := by
  induction members generalizing found with
  | nil => rfl
  | cons m rest ih =>
    obtain ⟨key, value⟩ := m
    rw [List.map_cons, retag]
    by_cases hKey : key = "type"
    · subst hKey
      rw [if_pos rfl, split_cons_tag, split_cons_tag]
      cases found with
      | some v => rfl
      | none =>
        obtain rfl : value = first := Option.some.inj (List.lookup_cons_self.symm.trans (hTag rfl))
        rw [hSame]
        change (t.variant .buffered (.ofJson value) >>= _) =
          (t.variant .buffered (.ofJson value) >>= _)
        exact congrArg _ (funext fun v => ih nofun)
    · have hLookup : ((key, value) :: rest).lookup "type" = rest.lookup "type" := by
        rw [List.lookup_cons, beq_eq_false_iff_ne.mpr (Ne.symm hKey)]
      rw [hLookup] at hTag
      rw [if_neg hKey, split_cons_other t .buffered found _ hKey,
        split_cons_other t .buffered found rest hKey, ih hTag]

/-- The number of a variant stands for its tag inside a buffered value. -/
theorem reader_withTag {j : Json} (hTag : j.tag? = some (.natural i))
    (hVariant : t.variants[i]? = some v) (hName : t.variants.find? (·.tag == v.tag) = some v) :
    t.reader .buffered (.ofJson (j.withTag (.string v.tag))) = t.reader .buffered (.ofJson j) := by
  have hSame := variant_number hVariant hName
  cases j with
  | null | bool | number | string => cases hTag
  | array items =>
    obtain ⟨rest, rfl⟩ := List.head?_eq_some_iff.mp hTag
    rw [withTag, reader_array_cons, reader_array_cons]
    change (t.variant .buffered (.ofJson (.string v.tag)) >>= _) =
      (t.variant .buffered (.ofJson (.natural i)) >>= _)
    rw [hSame]
  | object members =>
    rw [withTag, reader_object, reader_object]
    change (t.split .buffered none _ >>= _) = (t.split .buffered none _ >>= _)
    rw [split_withTag (fun _ => hTag) hSame]

end Tagged

end Manuscript.Json
