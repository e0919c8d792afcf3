import Manuscript.Proofs.Json.Arranged
import Manuscript.Proofs.Json.Origins
import Manuscript.Tree.Json

/-!
# Trees in texts and in values

A text and the value that it spells come to the same tree, or to none. The order of the members and
the white space of a text are therefore of no account.
-/

namespace Manuscript

open Json (Arrangement Fields Orderless Origin Outline Reader Tagged Variant)

namespace Node

open Json (lasting_ofFields steady_defaulted steady_nestedOrNone steady_optional steady_required)
open Json.Fields (steady_empty)

variable {g : Arrangement}

abbrev Steady (g : Arrangement) {σ α : Type} (f : Fields Node σ α) : Prop :=
  f.Steady (Tagged.Rearranged records g) .buffered .buffered

theorem steady_children : Steady g (Fields.nestedOrNone "children") :=
  steady_nestedOrNone "children"

theorem steady_textOrNone (name : String) : Steady g (textOrNone name) :=
  steady_optional name .text

theorem steady_flagOrNone (name : String) : Steady g (flagOrNone name) :=
  steady_optional name .flag

theorem lasting_parent (tag : String) (node : List Node → Node) :
    Tagged.Lasting records g (parent tag node) :=
  lasting_ofFields steady_children _ _ _

theorem lasting_literal (tag : String) (node : String → Node) :
    Tagged.Lasting records g (literal tag node) :=
  lasting_ofFields (steady_defaulted "value" "" .text) _ _ _

theorem lasting_blank (tag : String) (node : Node) : Tagged.Lasting records g (blank tag node) :=
  lasting_ofFields steady_empty _ _ _

theorem variants_lasting : ∀ v ∈ records.variants, Tagged.Lasting records g v := by
  have hUrl : Steady g (Fields.required "url" Reader.text) := steady_required "url" .text
  have hValue : Steady g (Fields.defaulted "value" "" Reader.text) :=
    steady_defaulted "value" "" .text
  have hIdentifier : Steady g (Fields.defaulted "identifier" "" Reader.text) :=
    steady_defaulted "identifier" "" .text
  have hLabel : Steady g (textOrNone "label") := steady_textOrNone "label"
  change ∀ v ∈ variants, _
  simp only [variants, List.forall_mem_cons]
  refine ⟨lasting_parent _ _, ?heading, lasting_blank _ _, lasting_parent _ _, ?list, ?listItem,
    ?table, lasting_parent _ _, lasting_parent _ _, lasting_literal _ _, ?code, lasting_literal _ _,
    lasting_literal _ _, ?definition, ?footnoteDefinition, ?math, lasting_literal _ _,
    lasting_parent _ _, lasting_parent _ _, lasting_parent _ _, lasting_literal _ _,
    lasting_blank _ _, ?link, ?image, ?linkReference, ?imageReference, ?footnoteReference,
    lasting_literal _ _, nofun⟩
  all_goals refine lasting_ofFields ?_ _ _ _
  case heading => exact (steady_required "depth" .word8).and steady_children (by decide)
  case list =>
    exact (steady_flagOrNone "ordered").and ((steady_optional "start" .word32).and
      ((steady_flagOrNone "spread").and steady_children (by decide)) (by decide)) (by decide)
  case listItem =>
    exact (steady_flagOrNone "checked").and
      ((steady_flagOrNone "spread").and steady_children (by decide)) (by decide)
  case table =>
    exact (steady_optional "align" Orderless.text.optional.list).and steady_children (by decide)
  case code =>
    exact (steady_textOrNone "lang").and ((steady_textOrNone "meta").and hValue (by decide))
      (by decide)
  case definition =>
    exact hIdentifier.and (hLabel.and ((steady_defaulted "url" "" .text).and
      (steady_textOrNone "title") (by decide)) (by decide)) (by decide)
  case footnoteDefinition =>
    exact (steady_required "identifier" .text).and (hLabel.and steady_children (by decide))
      (by decide)
  case math => exact (steady_textOrNone "meta").and hValue (by decide)
  case link =>
    exact hUrl.and ((steady_textOrNone "title").and steady_children (by decide)) (by decide)
  case image =>
    exact hUrl.and ((steady_textOrNone "title").and (steady_textOrNone "alt") (by decide))
      (by decide)
  case linkReference =>
    exact hIdentifier.and (hLabel.and ((steady_textOrNone "referenceType").and steady_children
      (by decide)) (by decide)) (by decide)
  case imageReference =>
    exact hIdentifier.and (hLabel.and ((steady_textOrNone "referenceType").and
      (steady_textOrNone "alt") (by decide)) (by decide)) (by decide)
  case footnoteReference => exact (steady_required "identifier" .text).and hLabel (by decide)

theorem reader_orderless (g : Arrangement) : Orderless g reader :=
  Tagged.reader_orderless variants_lasting

theorem items_congr {origin other : Origin} (hSame : origin.isBuffered = other.isBuffered)
    {items : List Json} (hFirst : ∀ item ∈ items, origin.limit item.depth = .ok ())
    (hSecond : ∀ item ∈ items, other.limit item.depth = .ok ()) :
    Reader.items reader origin (items.map .ofJson) =
      Reader.items reader other (items.map .ofJson) := by
  induction items with
  | nil => rfl
  | cons item rest ih =>
    rw [List.forall_mem_cons] at hFirst hSecond
    have hItem : reader origin (.ofJson item) = reader other (.ofJson item) :=
      Tagged.reader_congr hFirst.1 hSecond.1 (.inl hSame)
    rw [List.map_cons, Reader.items, Reader.items, hItem, ih hFirst.2 hSecond.2]

theorem list_congr {origin other : Origin} {j : Json} (hFirst : origin.limit j.depth = .ok ())
    (hSecond : other.limit j.depth = .ok ()) (hSame : origin.isBuffered = other.isBuffered) :
    reader.list origin (.ofJson j) = reader.list other (.ofJson j) := by
  cases j with
  | null | bool | number | string | object => rfl
  | array items =>
    obtain ⟨inside, hEnter, hInside⟩ := Origin.limit_succ_iff.mp hFirst
    obtain ⟨inside', hEnter', hInside'⟩ := Origin.limit_succ_iff.mp hSecond
    rw [← Origin.isBuffered_enter hEnter, ← Origin.isBuffered_enter hEnter'] at hSame
    rw [Outline.ofJson_array, Reader.list, Reader.list, hEnter, hEnter']
    change (Reader.items reader inside _ >>= _) = (Reader.items reader inside' _ >>= _)
    rw [items_congr hSame (Origin.limit_items hInside) (Origin.limit_items hInside')]

end Node

namespace Tree

theorem reader_together (g : Arrangement) {origin inside : Origin}
    (hEnter : origin.enter = .ok inside) (hOrigin : origin.isBuffered = false) {v : Json}
    (hKeys : v.Distinct) (hLimit : origin.limit v.depth = .ok ()) :
    Together Eq (reader .value (.ofJson (g.apply v))) (reader origin (.ofJson v)) := by
  have hInside : inside.isBuffered = false := (Origin.isBuffered_enter hEnter).trans hOrigin
  have hField : (Fields.defaulted "children" [] Node.reader.list).Steady
      (fun offer offer' => ∃ j : Json, j.Distinct ∧ inside.limit j.depth = .ok () ∧
        offer = Json.plain (g.apply j) ∧ offer' = Json.plain j) .value inside := by
    refine Fields.steady_one "children" _ ?_
    rintro _ _ ⟨j, hj, hLimit, rfl, rfl⟩
    have hSame : Node.reader.list inside (.ofJson j) = Node.reader.list .value (.ofJson j) :=
      Node.list_congr hLimit rfl hInside
    change Together Eq (Node.reader.list .value (.ofJson (g.apply j)))
      (Node.reader.list inside (.ofJson j))
    rw [hSame]
    exact (Node.reader_orderless g).list .value rfl j hj
  refine (hField.map Tree.mk).reader "struct Root" rfl hEnter hKeys fun part hPart => ?_
  exact ⟨part, hKeys.parts part hPart, Json.limit_parts hEnter hLimit part hPart, rfl, rfl⟩

theorem ofText_iff {text : String} {v : Json}
    (hText : Json.ofText (Text.Glyph.ofString text) = .ok v) (hKeys : v.Distinct)
    (hDepth : v.depth ≤ 127) (tree : Tree) : ofText text = .ok tree ↔ ofValue v = .ok tree := by
  have hLimit : (Origin.text 127).limit v.depth = .ok () := if_pos hDepth
  have hRead : ofText text = reader (.text 127) (.ofJson v) := by
    rw [ofText, Reader.ofText, Json.ofGlyphs_of_ofText hText]
    change (reader (.text 127) (.ofJson v) >>= fun x => .ok x) = _
    cases reader (.text 127) (.ofJson v) <;> rfl
  rw [hRead]
  exact ((reader_together .byKey rfl rfl hKeys hLimit).ok_iff tree).symm

/-- A text comes to the same tree as the value that it spells, and so do all texts that spell the same
value but for the order of members. -/
theorem texts_and_values_agree {text : String} {v : Json}
    (hText : Json.ofText (Text.Glyph.ofString text) = .ok v) (hKeys : v.Distinct)
    (hDepth : v.depth ≤ 127) :
    (∀ tree, ofText text = .ok tree ↔ ofValue v = .ok tree) ∧
      ∀ other w, Json.ofText (Text.Glyph.ofString other) = .ok w → w.Distinct → w.depth ≤ 127 →
        w.sorted = v.sorted → ∀ tree, ofText other = .ok tree ↔ ofText text = .ok tree := by
  refine ⟨ofText_iff hText hKeys hDepth, fun other w hOther hOtherKeys hOtherDepth hSame tree => ?_⟩
  have hValues : ofValue w = ofValue v := congrArg (fun j => reader .value (.ofJson j)) hSame
  rw [ofText_iff hOther hOtherKeys hOtherDepth, ofText_iff hText hKeys hDepth, hValues]

/-- A tree with one text, in a text with spaces. -/
def spaced : String :=
  "\x7b \"children\": [ \x7b\"value\": \"x\", \"type\": \"text\"\x7d ] \x7d\n"

def spelled : Json :=
  .object [("children", .array [.object [("value", .string "x"), ("type", .string "text")]])]

theorem spaced_text_agrees :
    (Json.ofText (Text.Glyph.ofString spaced) = .ok spelled ∧ spelled.Distinct ∧
      spelled.depth ≤ 127) ∧ ofText spaced = .ok ⟨[.text "x"]⟩ := by
  have hText : Json.ofText (Text.Glyph.ofString spaced) = .ok spelled := by cbv
  have hNode : (Json.object [("value", .string "x"), ("type", .string "text")]).Distinct := by
    refine .object (by decide) fun m hm => ?_
    rcases List.mem_pair.mp hm with rfl | rfl <;> exact .string _
  have hKeys : spelled.Distinct := by
    refine .object (by decide) (List.forall_mem_singleton.mpr (.array ?_))
    exact List.forall_mem_singleton.mpr hNode
  have hDepth : spelled.depth ≤ 127 := by decide
  have hValue : ofValue spelled = .ok ⟨[.text "x"]⟩ := by cbv
  exact ⟨⟨hText, hKeys, hDepth⟩, ((texts_and_values_agree hText hKeys hDepth).1 _).mpr hValue⟩

end Tree

end Manuscript
