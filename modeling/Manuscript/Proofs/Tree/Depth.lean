import Manuscript.Proofs.Json.Origins
import Manuscript.Tree.Json

/-!
# Nodes at different depths

A node inside other nodes is read from a buffer and a node at the top as it comes. What encloses it
therefore makes no difference to a node whose tag is given by name, and a tag that names no kind of
node is refused at every depth. A number in the place of the tag is refused at the top, and inside it
stands for the tag of the kind with that number.
-/

namespace Manuscript

open Json (Fault Origin Outline Tagged Variant)

namespace Node

/-- The kinds of nodes that have children and nothing else. -/
inductive Enclosing
  | paragraph
  | blockquote
  | tableRow
  | tableCell
  | emphasis
  | strong
  | delete

namespace Enclosing

def node : Enclosing → List Node → Node
  | .paragraph => .paragraph
  | .blockquote => .blockquote
  | .tableRow => .tableRow
  | .tableCell => .tableCell
  | .emphasis => .emphasis
  | .strong => .strong
  | .delete => .delete

def tag (k : Enclosing) : String :=
  (k.node []).kind

theorem find_tag (k : Enclosing) : variants.find? (·.tag == k.tag) = some (parent k.tag k.node) := by
  cases k <;> rfl

end Enclosing

/-- A value as the only child of nodes of the given kinds, the outermost first. -/
def enclosed (kinds : List Enclosing) (v : Json) : Json :=
  kinds.foldr (fun k inner => tagged k.tag [("children", .array [inner])]) v

def enclose (kinds : List Enclosing) (n : Node) : Node :=
  kinds.foldr (fun k inner => k.node [inner]) n

theorem sorted_tagged_children (tag : String) (inner : Json) :
    (tagged tag [("children", .array [inner])]).sorted =
      .object [("children", .array [inner.sorted]), ("type", .string tag)] := by
  have hOrder : "children" < "type" := by decide
  change Json.object
    (Json.insertMember "children" (.array [inner.sorted]) [("type", .string tag)]) = _
  rw [Json.insertMember, if_pos hOrder]

theorem tag_enclosed (k : Enclosing) (kinds : List Enclosing) (v : Json) :
    (enclosed (k :: kinds) v).sorted.tag? = some (.string k.tag) := by
  rw [enclosed, List.foldr_cons, sorted_tagged_children]
  rfl

theorem read_parent (tag : String) (node : List Node → Node) (w : Json) :
    (parent tag node).read
        (.object (Json.given (records.offers [("children", .array [w])])) .closed) =
      (reader .buffered (.ofJson w)).map fun n => node [n] := by
  have hNested : (Outline.ofJson (.array [w])).nestedList records =
      (reader .buffered (.ofJson w)).map fun n => [n] := by
    rw [Outline.ofJson_array, Outline.nestedList, List.map_cons, Outline.nestedItems,
      Tagged.nested_eq_reader, reader]
    cases records.reader .buffered (.ofJson w) <;> rfl
  change (((Outline.ofJson (.array [w])).nestedList records).map some >>= fun found => _) >>= _ = _
  rw [hNested]
  cases reader .buffered (.ofJson w) <;> rfl

/-- The children of a node are read from a buffer. -/
theorem reader_enclosing (k : Enclosing) (w : Json) :
    reader .value (.ofJson (.object [("children", .array [w]), ("type", .string k.tag)])) =
      (reader .buffered (.ofJson w)).map fun n => k.node [n] := by
  have hSplit : records.split .value none
      (Json.given (records.offers [("children", .array [w]), ("type", .string k.tag)])) =
        .ok (some (parent k.tag k.node),
          Json.given (records.offers [("children", .array [w])])) :=
    Tagged.split_tag records .value (by simp) (by simp) k.find_tag
  rw [reader, Tagged.reader_object]
  change (records.split .value none _ >>= _) = _
  rw [hSplit]
  exact read_parent k.tag k.node w

theorem reader_enclosed_cons (k : Enclosing) (kinds : List Enclosing) (v : Json) :
    reader .value (.ofJson (enclosed (k :: kinds) v).sorted) =
      (reader .buffered (.ofJson v.sorted)).map (enclose (k :: kinds)) := by
  induction kinds generalizing k with
  | nil =>
    rw [enclosed, List.foldr_cons, sorted_tagged_children, reader_enclosing]
    rfl
  | cons inner kinds ih =>
    -- What is enclosed has a name for its tag, so the buffer that it is read from does not show.
    have hBuffered : reader .buffered (.ofJson (enclosed (inner :: kinds) v).sorted) =
        reader .value (.ofJson (enclosed (inner :: kinds) v).sorted) := by
      refine Tagged.reader_congr rfl rfl (.inr fun i => ?_)
      rw [tag_enclosed]
      nofun
    rw [enclosed, List.foldr_cons, sorted_tagged_children, reader_enclosing]
    change (reader .buffered (.ofJson (enclosed (inner :: kinds) v).sorted)).map _ = _
    rw [hBuffered, ih]
    cases reader .buffered (.ofJson v.sorted) <;> rfl

theorem find_variant {i : Nat} {v : Variant Node} (h : variants[i]? = some v) :
    variants.find? (·.tag == v.tag) = some v := by
  have hTags : (variants.map Variant.tag).Nodup := by decide
  obtain ⟨hLess, rfl⟩ := List.getElem?_eq_some_iff.mp h
  rw [List.find?_eq_some_iff_getElem]
  refine ⟨beq_self_eq_true _, i, hLess, rfl, fun j hj => ?_⟩
  rw [Bool.not_eq_true', beq_eq_false_iff_ne]
  exact List.pairwise_iff_getElem.mp (List.pairwise_map.mp hTags) j i _ hLess hj

theorem variant_of_unknown {tag : String} (h : tag ∉ variants.map Variant.tag) (origin : Origin) :
    records.variant origin (.ofJson (.string tag)) =
      .error (.unknownVariant tag (variants.map Variant.tag)) := by
  have hFind : variants.find? (·.tag == tag) = none := by
    rw [List.find?_eq_none]
    intro v hv hTag
    exact h (List.mem_map.mpr ⟨v, hv, beq_iff_eq.mp hTag⟩)
  change records.variant origin (.string (.ok tag)) = _
  rw [Tagged.variant, records, hFind]

end Node

namespace Tree

/-- The tree with a value as its only node. -/
def holding (v : Json) : Json :=
  .object [("children", .array [v])]

def enclose (kinds : List Node.Enclosing) (tree : Tree) : Tree :=
  ⟨tree.children.map (Node.enclose kinds)⟩

theorem ofValue_holding (v : Json) :
    ofValue (holding v) = (Node.reader .value (.ofJson v.sorted)).map fun n => ⟨[n]⟩ := by
  change ((Node.reader.list .value (.ofJson (.array [v.sorted]))).map some >>= _) >>= _ = _
  rw [Outline.ofJson_array]
  change ((((Node.reader .value (.ofJson v.sorted) >>= _) >>= _).map some) >>= _) >>= _ = _
  cases Node.reader .value (.ofJson v.sorted) <;> rfl

theorem ofValue_enclosed_cons (k : Node.Enclosing) (kinds : List Node.Enclosing) (v : Json) :
    ofValue (holding (Node.enclosed (k :: kinds) v)) =
      (Node.reader .buffered (.ofJson v.sorted)).map fun n => ⟨[Node.enclose (k :: kinds) n]⟩ := by
  rw [ofValue_holding, Node.reader_enclosed_cons]
  cases Node.reader .buffered (.ofJson v.sorted) <;> rfl

theorem ofValue_enclosed {v : Json} (hTag : ∀ i, v.sorted.tag? ≠ some (.natural i))
    (kinds : List Node.Enclosing) :
    ofValue (holding (Node.enclosed kinds v)) = (ofValue (holding v)).map (enclose kinds) := by
  cases kinds with
  | nil =>
    rw [Node.enclosed, List.foldr_nil, ofValue_holding]
    cases Node.reader .value (.ofJson v.sorted) <;> rfl
  | cons k kinds =>
    have hSame : Node.reader .buffered (.ofJson v.sorted) = Node.reader .value (.ofJson v.sorted) :=
      Tagged.reader_congr rfl rfl (.inr hTag)
    rw [ofValue_enclosed_cons, ofValue_holding, hSame]
    cases Node.reader .value (.ofJson v.sorted) <;> rfl

/-- What a value in the place of a node comes to at the top and inside other nodes. Only a number in
the place of the tag makes a difference. -/
theorem reading_at_any_depth (v : Json) :
    ((∀ i, v.sorted.tag? ≠ some (.natural i)) → ∀ kinds,
        ofValue (holding (Node.enclosed kinds v)) = (ofValue (holding v)).map (enclose kinds)) ∧
      (∀ tag, v.sorted.tag? = some (.string tag) → tag ∉ Node.variants.map Variant.tag → ∀ kinds,
        ofValue (holding (Node.enclosed kinds v)) =
          .error (.unknownVariant tag (Node.variants.map Variant.tag))) ∧
      ∀ i, v.sorted.tag? = some (.natural i) →
        ofValue (holding v) = .error (.wrongType (.integer i) "variant identifier") ∧
          ∀ k kinds, ofValue (holding (Node.enclosed (k :: kinds) v)) =
            match Node.variants[i]? with
            | some variant =>
              (ofValue (holding (v.withTag (.string variant.tag)))).map (enclose (k :: kinds))
            | none => .error (.wrongValue (.integer i) "variant index 0 <= i < 28") := by
  refine ⟨fun hTag kinds => ofValue_enclosed hTag kinds, fun tag hTag hUnknown kinds => ?_,
    fun i hTag => ⟨?_, fun k kinds => ?_⟩⟩
  · have hName : ∀ i, v.sorted.tag? ≠ some (.natural i) := by
      intro i hNumber
      cases hTag.symm.trans hNumber
    have hTop : Node.reader .value (.ofJson v.sorted) = _ :=
      Tagged.reader_of_refused_tag rfl hTag fun inside _ => Node.variant_of_unknown hUnknown inside
    rw [ofValue_enclosed hName, ofValue_holding, hTop]
    rfl
  · have hTop : Node.reader .value (.ofJson v.sorted) =
        .error (.wrongType (.integer i) "variant identifier") := by
      refine Tagged.reader_of_refused_tag rfl hTag fun inside hInside => ?_
      cases inside with
      | buffered => cases hInside
      | text | value => rfl
    rw [ofValue_holding, hTop]
    rfl
  · rw [ofValue_enclosed_cons]
    cases hVariant : Node.variants[i]? with
    | none =>
      have hInside : Node.reader .buffered (.ofJson v.sorted) =
          .error (.wrongValue (.integer i) "variant index 0 <= i < 28") := by
        refine Tagged.reader_of_refused_tag rfl hTag fun inside hInside => ?_
        cases inside with
        | buffered =>
          change Node.records.variant .buffered (.number (.ok (.natural i))) = _
          rw [Tagged.variant, Node.records, hVariant]
          rfl
        | text | value => cases hInside
      rw [hInside]
      rfl
    | some variant =>
      have hNumber : Node.reader .buffered (.ofJson (v.sorted.withTag (.string variant.tag))) =
          Node.reader .buffered (.ofJson v.sorted) :=
        Tagged.reader_withTag hTag hVariant (Node.find_variant hVariant)
      have hSorted : (v.withTag (.string variant.tag)).sorted =
          v.sorted.withTag (.string variant.tag) := Json.sorted_withTag rfl v
      have hName : ∀ i, (v.withTag (.string variant.tag)).sorted.tag? ≠ some (.natural i) := by
        rw [hSorted, Json.tag?_withTag hTag]
        intro j hName
        cases hName
      rw [← hNumber, ← hSorted, ← ofValue_enclosed_cons]
      exact ofValue_enclosed hName (k :: kinds)

/-- A text of which the tag is given by its number. -/
def numbered : Json :=
  .object [("type", .natural 16), ("value", .string "x")]

theorem sorted_numbered : numbered.sorted = numbered := by
  have hOrder : ¬ "value" < "type" := by decide
  change Json.object (Json.insertMember "value" (.string "x") [("type", .natural 16)]) = _
  rw [Json.insertMember, if_neg hOrder, if_neg (by decide)]
  rfl

theorem numbered_text_read_inside :
    ofValue (holding numbered) = .error (.wrongType (.integer 16) "variant identifier") ∧
      ofValue (holding (Node.enclosed [.paragraph] numbered)) =
        .ok ⟨[.paragraph [.text "x"]]⟩ := by
  have hTag : numbered.sorted.tag? = some (.natural 16) := by
    rw [sorted_numbered]
    rfl
  obtain ⟨hTop, hInside⟩ := (reading_at_any_depth numbered).2.2 16 hTag
  refine ⟨hTop, (hInside .paragraph []).trans ?_⟩
  rfl

theorem not_every_node_read_alike :
    ¬ ∀ v k, (ofValue (holding v)).isOk = (ofValue (holding (Node.enclosed [k] v))).isOk := by
  intro h
  have hSame := h numbered .paragraph
  rw [ofValue_enclosed_cons, ofValue_holding, sorted_numbered] at hSame
  cases hSame

end Tree

end Manuscript
