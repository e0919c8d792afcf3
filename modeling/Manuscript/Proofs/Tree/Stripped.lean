import Mathlib.Data.List.Forall2
import Manuscript.Proofs.Json.Heeded
import Manuscript.Proofs.Tree.Contract
import Manuscript.Tree.Json

/-!
# Values without the members that do not count

A value comes to the same tree, or to the same fault, when it is stripped. Each variant heeds the
members of its kind and no others, so a node is read alike without them; its children are read alike by
induction, wherever they are read from.
-/

namespace Manuscript

open Json (Absence Aligned Fields Offer Origin Outline Reader Reduced Tagged Variant)

namespace Node

/-! ## What the variants heed -/

/-- Offers that are the same to a member of a node: children only count for what they are read as. -/
structure Interchangeable (name : String) (offer offer' : Offer Node) : Prop where
  nested : offer.nested = offer'.nested
  outline : name ≠ "children" → offer.outline = offer'.outline

abbrev Heeds {σ α : Type} (f : Fields Node σ α) : Prop :=
  f.Heeds Interchangeable .buffered

theorem heeds_read {α : Type} {name : String} (h : name ≠ "children") (absence : Absence α)
    (read : Reader α) :
    Heeds (Fields.one name absence fun origin offer => read origin offer.outline) :=
  Fields.heeds_one absence fun _ _ hOffer => congrArg (read .buffered) (hOffer.outline h)

theorem heeds_children : Heeds (Fields.nestedOrNone "children") :=
  Fields.heeds_one _ fun _ _ hOffer => hOffer.nested

theorem heeds_textOrNone {name : String} (h : name ≠ "children") : Heeds (textOrNone name) :=
  heeds_read h (.anywhere none) Reader.text.optional

theorem heeds_flagOrNone {name : String} (h : name ≠ "children") : Heeds (flagOrNone name) :=
  heeds_read h (.anywhere none) Reader.flag.optional

theorem heeds_parent (tag : String) (node : List Node → Node) :
    (parent tag node).Heeds Interchangeable ["children"] :=
  Json.heeds_ofFields heeds_children _ _ _

theorem heeds_literal (tag : String) (node : String → Node) :
    (literal tag node).Heeds Interchangeable ["value"] :=
  Json.heeds_ofFields (heeds_read (by decide) _ _) _ _ _

theorem heeds_blank (tag : String) (node : Node) : (blank tag node).Heeds Interchangeable [] :=
  Json.heeds_ofFields Fields.heeds_empty _ _ _

theorem variants_heed :
    List.Forall₂ (fun entry v => v.tag = entry.1 ∧ v.Heeds Interchangeable entry.2)
      contract variants := by
  have hValue : Heeds (Fields.defaulted "value" "" Reader.text) := heeds_read (by decide) _ _
  have hIdentifier : Heeds (Fields.defaulted "identifier" "" Reader.text) :=
    heeds_read (by decide) _ _
  have hLabel : Heeds (textOrNone "label") := heeds_textOrNone (by decide)
  simp only [contract, variants, List.forall₂_cons]
  refine ⟨⟨rfl, heeds_parent _ _⟩, ⟨rfl, ?heading⟩, ⟨rfl, heeds_blank _ _⟩,
    ⟨rfl, heeds_parent _ _⟩, ⟨rfl, ?list⟩, ⟨rfl, ?listItem⟩, ⟨rfl, ?table⟩,
    ⟨rfl, heeds_parent _ _⟩, ⟨rfl, heeds_parent _ _⟩, ⟨rfl, heeds_literal _ _⟩, ⟨rfl, ?code⟩,
    ⟨rfl, heeds_literal _ _⟩, ⟨rfl, heeds_literal _ _⟩, ⟨rfl, ?definition⟩,
    ⟨rfl, ?footnoteDefinition⟩, ⟨rfl, ?math⟩, ⟨rfl, heeds_literal _ _⟩, ⟨rfl, heeds_parent _ _⟩,
    ⟨rfl, heeds_parent _ _⟩, ⟨rfl, heeds_parent _ _⟩, ⟨rfl, heeds_literal _ _⟩,
    ⟨rfl, heeds_blank _ _⟩, ⟨rfl, ?link⟩, ⟨rfl, ?image⟩, ⟨rfl, ?linkReference⟩,
    ⟨rfl, ?imageReference⟩, ⟨rfl, ?footnoteReference⟩, ⟨rfl, heeds_literal _ _⟩, .nil⟩
  case heading => exact Json.heeds_ofFields ((heeds_read (by decide) _ _).and heeds_children) _ _ _
  case list =>
    exact Json.heeds_ofFields ((heeds_flagOrNone (by decide)).and ((heeds_read (by decide) _ _).and
      ((heeds_flagOrNone (by decide)).and heeds_children))) _ _ _
  case listItem =>
    exact Json.heeds_ofFields ((heeds_flagOrNone (by decide)).and
      ((heeds_flagOrNone (by decide)).and heeds_children)) _ _ _
  case table => exact Json.heeds_ofFields ((heeds_read (by decide) _ _).and heeds_children) _ _ _
  case code =>
    exact Json.heeds_ofFields ((heeds_textOrNone (by decide)).and
      ((heeds_textOrNone (by decide)).and hValue)) _ _ _
  case definition =>
    exact Json.heeds_ofFields (hIdentifier.and (hLabel.and ((heeds_read (by decide) _ _).and
      (heeds_textOrNone (by decide))))) _ _ _
  case footnoteDefinition =>
    exact Json.heeds_ofFields ((heeds_read (by decide) _ _).and (hLabel.and heeds_children)) _ _ _
  case math => exact Json.heeds_ofFields ((heeds_textOrNone (by decide)).and hValue) _ _ _
  case link =>
    exact Json.heeds_ofFields ((heeds_read (by decide) _ _).and
      ((heeds_textOrNone (by decide)).and heeds_children)) _ _ _
  case image =>
    exact Json.heeds_ofFields ((heeds_read (by decide) _ _).and
      ((heeds_textOrNone (by decide)).and (heeds_textOrNone (by decide)))) _ _ _
  case linkReference =>
    exact Json.heeds_ofFields (hIdentifier.and (hLabel.and
      ((heeds_textOrNone (by decide)).and heeds_children))) _ _ _
  case imageReference =>
    exact Json.heeds_ofFields (hIdentifier.and (hLabel.and
      ((heeds_textOrNone (by decide)).and (heeds_textOrNone (by decide))))) _ _ _
  case footnoteReference =>
    exact Json.heeds_ofFields ((heeds_read (by decide) _ _).and hLabel) _ _ _

/-- A table beside a list of variants has what it says of a tag where the list has the variant. -/
theorem exists_lookup_of_find? {P : List String → Variant Node → Prop}
    {table : List (String × List String)} {vs : List (Variant Node)}
    (hTable : List.Forall₂ (fun entry v => v.tag = entry.1 ∧ P entry.2 v) table vs) {kind : String}
    {v : Variant Node} (h : vs.find? (·.tag == kind) = some v) :
    ∃ names, table.lookup kind = some names ∧ P names v := by
  induction hTable with
  | nil => cases h
  | @cons entry first table vs hFirst _ ih =>
    rw [List.find?_cons] at h
    rw [Keyed.lookup_cons_eq]
    by_cases hKind : kind = entry.1
    · rw [hFirst.1, hKind, beq_self_eq_true] at h
      obtain rfl := Option.some.inj h
      exact ⟨entry.2, if_pos hKind, hFirst.2⟩
    · rw [hFirst.1, beq_eq_false_iff_ne.mpr (Ne.symm hKind)] at h
      rw [if_neg hKind]
      exact ih h

theorem exists_getElem?_of_forall₂ {α β : Type} {P : α → β → Prop} {xs : List α} {ys : List β}
    (h : List.Forall₂ P xs ys) {i : Nat} {y : β} (hy : ys[i]? = some y) :
    ∃ x, xs[i]? = some x ∧ P x y := by
  induction h generalizing i with
  | nil => cases hy
  | cons hFirst _ ih =>
    cases i with
    | zero =>
      obtain rfl := Option.some.inj hy
      exact ⟨_, rfl, hFirst⟩
    | succ i => exact ih hy

/-- The variant that a tag names heeds the members that count beside that tag. -/
theorem heeds_of_variant {origin : Origin} {tag : Json} {v : Variant Node}
    (h : records.variant origin (.ofJson tag) = .ok v) :
    v.Heeds Interchangeable (membersOf (some tag)) := by
  rcases Tagged.variant_eq_ok h with ⟨kind, hKind, hFind⟩ | ⟨i, hNumber, hFind⟩
  · have hTag : tag = .string kind := by
      cases tag with
      | string s =>
        obtain rfl := Except.ok.inj (Outline.string.inj hKind)
        rfl
      | null | bool | number | array | object => cases hKind
    obtain ⟨names, hNames, hHeeds⟩ := exists_lookup_of_find? variants_heed hFind
    rw [hTag, membersOf, hNames]
    exact hHeeds
  · have hTag : tag = .natural i := by
      cases tag with
      | number n =>
        obtain rfl := Except.ok.inj (Outline.number.inj hNumber)
        rfl
      | null | bool | string | array | object => cases hNumber
    obtain ⟨entry, hEntry, -, hHeeds⟩ := exists_getElem?_of_forall₂ variants_heed hFind
    rw [hTag, Json.natural, membersOf, hEntry]
    exact hHeeds

theorem heeds_of_chosen {origin : Origin} {tag : Option Json} {v : Variant Node}
    (h : records.chosen origin tag = .ok (some v)) :
    v.Heeds Interchangeable (membersOf tag) := by
  cases tag with
  | none => cases Except.ok.inj h
  | some tag =>
    obtain ⟨found, hVariant, hFound⟩ := map_eq_ok_iff.mp h
    obtain rfl := Option.some.inj hFound
    exact heeds_of_variant hVariant

/-! ## Reading what is stripped -/

section

variable {ν : Type} {R : String → Offer ν → Offer ν → Prop} {offer : Json → Offer ν}

theorem reduced_stripMembers (names : List String) {members : List (String × Json)}
    (hSkip : ∀ j, (offer j).outline.skip = .ok ())
    (h : ∀ m ∈ members, R m.1 (offer m.2) (offer (stripMember m.1 m.2))) :
    Reduced R names (members.map fun m => (m.1, offer m.2))
      ((stripMembers names members).map fun m => (m.1, offer m.2)) := by
  induction members with
  | nil => exact .nil
  | cons m rest ih =>
    have hRest := ih fun m hm => h m (List.mem_cons_of_mem _ hm)
    rw [stripMembers]
    by_cases hName : m.1 ∈ names
    · rw [if_pos hName]
      exact .keep hName (h m List.mem_cons_self) hRest
    · rw [if_neg hName]
      exact .drop hName (hSkip m.2) hRest

theorem aligned_stripItems (names : List String) {items : List Json}
    (h : ∀ item ∈ items, ∀ name, R name (offer item) (offer (stripMember name item))) :
    Aligned R names (items.map offer) ((stripItems names items).map offer) := by
  induction items generalizing names with
  | nil => exact .spent names
  | cons item rest ih =>
    cases names with
    | nil => exact .behind _
    | cons name names =>
      exact .item (h item List.mem_cons_self name)
        (ih names fun item hItem => h item (List.mem_cons_of_mem _ hItem))

end

theorem nodup_stripMembers (names : List String) {members : List (String × Json)}
    (h : (members.map Prod.fst).Nodup) : ((stripMembers names members).map Prod.fst).Nodup := by
  rw [stripMembers_eq, List.map_map]
  exact h.sublist (List.filter_sublist.map Prod.fst)

/-- The tag is no member that is read later. -/
theorem filter_stripMembers (names : List String) (members : List (String × Json)) :
    (stripMembers ("type" :: names) members).filter (fun m => m.1 ≠ "type") =
      stripMembers names (members.filter fun m => m.1 ≠ "type") := by
  induction members with
  | nil => rfl
  | cons m rest ih =>
    rw [stripMembers]
    by_cases hTag : m.1 = "type"
    · rw [if_pos (hTag ▸ List.mem_cons_self), List.filter_cons_of_neg (by simp [hTag]),
        List.filter_cons_of_neg (by simp [hTag]), ih]
    · have hName : m.1 ∈ "type" :: names ↔ m.1 ∈ names := by simp [hTag]
      rw [List.filter_cons_of_pos (by simp [hTag]), stripMembers, ← ih]
      by_cases hOwn : m.1 ∈ names
      · rw [if_pos (hName.mpr hOwn), if_pos hOwn, List.filter_cons_of_pos (by simp [hTag])]
      · rw [if_neg (hName.not.mpr hOwn), if_neg hOwn]

theorem items_strip {origin : Origin} {items : List Json}
    (h : ∀ item ∈ items, reader origin (.ofJson item) = reader origin (.ofJson (strip item))) :
    Reader.items reader origin (items.map .ofJson) =
      Reader.items reader origin ((stripAll items).map .ofJson) := by
  induction items with
  | nil => rfl
  | cons item rest ih =>
    rw [stripAll, List.map_cons, List.map_cons, Reader.items, Reader.items,
      h item List.mem_cons_self, ih fun item hItem => h item (List.mem_cons_of_mem _ hItem)]

theorem reader_strip_object {origin : Origin} (hWhole : origin.enter = .ok origin)
    {members : List (String × Json)} (hKeys : (members.map Prod.fst).Nodup)
    (h : ∀ m ∈ members, ∀ name, Interchangeable name (records.offer m.2)
      (records.offer (stripMember name m.2))) :
    reader origin (.ofJson (.object members)) =
      reader origin (.ofJson (strip (.object members))) := by
  have hTag : members.reverse.lookup "type" = members.lookup "type" :=
    Keyed.lookup_perm (List.reverse_perm members) hKeys "type"
  have hSame : (stripMembers ("type" :: membersOf (members.lookup "type")) members).lookup "type" =
      members.lookup "type" := by
    have hMember : stripMember "type" = id := funext (stripMember_of_ne (by decide))
    rw [lookup_stripMembers, if_pos List.mem_cons_self, hMember, Option.map_id_fun, id]
  rw [strip, hTag]
  change records.reader _ _ = records.reader _ _
  rw [Tagged.reader_of_lookup hWhole hKeys,
    Tagged.reader_of_lookup hWhole (nodup_stripMembers _ hKeys), hSame, filter_stripMembers]
  cases hChosen : records.chosen origin (members.lookup "type") with
  | error e => rfl
  | ok found =>
    cases found with
    | none => rfl
    | some v =>
      refine heeds_of_chosen hChosen _ _ (.object (reduced_stripMembers _
        (fun _ => Outline.skip_ofJson _) fun m hm => h m (List.mem_of_mem_filter hm) m.1))

theorem reader_strip_array {origin : Origin} (hWhole : origin.enter = .ok origin)
    {items : List Json}
    (h : ∀ item ∈ items, ∀ name, Interchangeable name (records.offer item)
      (records.offer (stripMember name item))) :
    reader origin (.ofJson (.array items)) = reader origin (.ofJson (strip (.array items))) := by
  cases items with
  | nil => rfl
  | cons tag rest =>
    have hLimit := origin.limit_of_enter hWhole
    rw [strip]
    change records.reader _ _ = records.reader _ _
    rw [Tagged.reader_array_cons, Tagged.reader_array_cons, hWhole]
    change (records.variant origin (.ofJson tag) >>= _) =
      (records.variant origin (.ofJson tag) >>= _)
    cases hVariant : records.variant origin (.ofJson tag) with
    | error e => rfl
    | ok v =>
      change (Tagged.bufferAll origin _ >>= _) = (Tagged.bufferAll origin _ >>= _)
      rw [Tagged.bufferAll_ofJson _ _ (hLimit _), Tagged.bufferAll_ofJson _ _ (hLimit _)]
      exact heeds_of_variant hVariant _ _ (.array (aligned_stripItems _
        fun item hItem => h item (List.mem_cons_of_mem _ hItem)))

theorem reader_strip_both {j : Json} (hj : j.Distinct) :
    (∀ origin, origin.enter = .ok origin →
      reader origin (.ofJson j) = reader origin (.ofJson (strip j))) ∧
      ∀ name, Interchangeable name (records.offer j) (records.offer (stripMember name j)) := by
  induction j using Json.induct with
  | null | bool | number | string => exact ⟨fun _ _ => rfl, fun _ => ⟨rfl, fun _ => rfl⟩⟩
  | array items ih =>
    obtain _ | _ | _ | _ | hItems := hj
    refine ⟨fun origin hWhole => reader_strip_array hWhole
      fun item hItem => (ih item hItem (hItems item hItem)).2, fun name => ?_⟩
    by_cases hName : name = "children"
    · subst hName
      refine ⟨?_, fun h => absurd rfl h⟩
      have hRead := items_strip fun item hItem => (ih item hItem (hItems item hItem)).1 .buffered rfl
      rw [stripMember, if_pos rfl]
      change (Outline.ofJson (.array items)).nestedList records =
        (Outline.ofJson (.array (stripAll items))).nestedList records
      rw [Outline.ofJson_array, Outline.ofJson_array, Outline.nestedList, Outline.nestedList,
        Tagged.nestedItems_eq_items, Tagged.nestedItems_eq_items]
      exact hRead
    · rw [stripMember_of_ne hName]
      exact ⟨rfl, fun _ => rfl⟩
  | object members ih =>
    obtain _ | _ | _ | _ | _ | ⟨hKeys, hMembers⟩ := hj
    exact ⟨fun origin hWhole => reader_strip_object hWhole hKeys
      fun m hm => (ih m hm (hMembers m hm)).2, fun _ => ⟨rfl, fun _ => rfl⟩⟩

end Node

namespace Tree

/-- Offers that are the same to the root. -/
def SameList (_name : String) (offer offer' : Offer Unit) : Prop :=
  Node.reader.list .value offer.outline = Node.reader.list .value offer'.outline

theorem sameList_stripMember {j : Json} (hj : j.Distinct) (name : String) :
    SameList name (Json.plain j) (Json.plain (Node.stripMember name j)) := by
  by_cases hName : name = "children"
  · subst hName
    cases hj with
    | null | bool | number | string | object => rfl
    | @array items hItems =>
      have hRead := Node.items_strip
        fun item hItem => (Node.reader_strip_both (hItems item hItem)).1 .value rfl
      rw [Node.stripMember, if_pos rfl]
      change Node.reader.list .value (.ofJson (.array items)) =
        Node.reader.list .value (.ofJson (.array (Node.stripAll items)))
      rw [Outline.ofJson_array, Outline.ofJson_array, Reader.list, Reader.list]
      change (Reader.items Node.reader .value _ >>= _) = (Reader.items Node.reader .value _ >>= _)
      rw [hRead]
  · rw [Node.stripMember_of_ne hName]
    rfl

theorem reader_strip {v : Json} (hv : v.Distinct) :
    reader .value (.ofJson v) = reader .value (.ofJson (strip v)) := by
  have hHeeds : ((Fields.defaulted "children" [] Node.reader.list).map Tree.mk).Heeds
      SameList .value := (Fields.heeds_one _ fun _ _ h => h).map _
  cases hv with
  | null | bool | number | string => rfl
  | @array items hItems =>
    rw [strip, reader, Json.reader_plain_array, Json.reader_plain_array]
    exact hHeeds.readInside "struct Root" (.array (Node.aligned_stripItems _
      fun item hItem name => sameList_stripMember (hItems item hItem) name))
  | @object members hKeys hMembers =>
    rw [strip, reader, Json.reader_plain_object, Json.reader_plain_object]
    exact hHeeds.readInside "struct Root" (.object (Node.reduced_stripMembers _
      (fun _ => Outline.skip_ofJson _) fun m hm => sameList_stripMember (hMembers m hm) m.1))

/-- A value comes to the same tree, or to the same fault, without the members that do not count. -/
theorem stripped_value_reads_alike (v : Json) : ofValue (strip v) = ofValue v := by
  change reader .value (.ofJson (strip v).sorted) = reader .value (.ofJson v.sorted)
  rw [sorted_strip]
  exact (reader_strip (Json.distinct_sorted v)).symm

example : ofValue (.object [("type", .null), ("children", .array [.object [("position", .null),
    ("type", .string "text"), ("value", .string "x"), ("children", .null)]])]) =
    .ok ⟨[.text "x"]⟩ := by cbv

end Tree

end Manuscript
