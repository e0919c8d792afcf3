import Manuscript.Proofs.Json.Compact
import Manuscript.Proofs.Json.Records
import Manuscript.Proofs.Tree.Sites
import Manuscript.Tree.Json

/-!
# Trees read back from JSON

Reading a tree undoes writing it.
-/

namespace Manuscript

open Json (Arrangement Fields Origin Outline Reader Supplies Tagged Undoes Variant given)

namespace Node

/-- The nodes are read from what they are written to. -/
def ReadInside (g : Arrangement) (nodes : List Node) : Prop :=
  (Outline.ofJson (g.apply (.array (toJsonAll nodes)))).nestedList records = .ok nodes

section Fields

variable {g : Arrangement} {payload : List (String × Json)} {ms : List (String × Json.Offer Node)}
  {origin : Origin} {name : String}

theorem reads_textOrNone (h : Supplies records g payload ms) {s : Option String}
    (hMem : (name, optionalText s) ∈ payload) : (textOrNone name).Reads origin ms s :=
  Fields.reads_optional h Undoes.text g.string_ne_null hMem

theorem reads_flagOrNone (h : Supplies records g payload ms) {b : Option Bool}
    (hMem : (name, Json.optional .bool b) ∈ payload) : (flagOrNone name).Reads origin ms b :=
  Fields.reads_optional h Undoes.flag g.bool_ne_null hMem

theorem reads_children (h : Supplies records g payload ms) {cs : List Node}
    (hInside : ReadInside g cs) (hMem : ("children", .array (toJsonAll cs)) ∈ payload) :
    (Fields.nestedOrNone "children").Reads origin ms cs :=
  Fields.reads_nestedOrNone h hInside hMem

end Fields

/-- The node is read from what it is written to, unless that nests too deep. -/
def ReadsBack (g : Arrangement) (n : Node) : Prop :=
  ∀ origin, reader origin (.ofJson (g.apply n.toJson)) =
    (origin.limit (g.apply n.toJson).depth).map fun _ => n

theorem readsBack_tagged {g : Arrangement} {n : Node} {tag : String} {v : Json.Variant Node}
    {payload : List (String × Json)} (hJson : n.toJson = tagged tag payload)
    (hKeys : ((("type", Json.string tag) :: payload).map Prod.fst).Nodup)
    (hVariant : variants.find? (·.tag == tag) = some v)
    (hRead : ∀ ms, Supplies records g payload ms → v.read (.object (given ms) .closed) = .ok n) :
    ReadsBack g n := by
  intro origin
  rw [hJson]
  exact Tagged.reader_tagged hKeys hVariant hRead origin

theorem readsBack_parent {g : Arrangement} {n : Node} {tag : String} {node : List Node → Node}
    {cs : List Node} (hNode : n = node cs)
    (hJson : n.toJson = tagged tag [("children", .array (toJsonAll cs))])
    (hVariant : variants.find? (·.tag == tag) = some (parent tag node))
    (hInside : ReadInside g cs) : ReadsBack g n := by
  refine readsBack_tagged hJson (by simp) hVariant fun ms h => ?_
  rw [hNode]
  exact Variant.read_ofFields (reads_children h hInside (by simp)) _ _ _

theorem readsBack_literal {g : Arrangement} {n : Node} {tag value : String} {node : String → Node}
    (hNode : n = node value) (hJson : n.toJson = tagged tag [("value", .string value)])
    (hVariant : variants.find? (·.tag == tag) = some (literal tag node)) : ReadsBack g n := by
  refine readsBack_tagged hJson (by simp) hVariant fun ms h => ?_
  rw [hNode]
  exact Variant.read_ofFields (Fields.reads_defaulted h Undoes.text "" (by simp)) _ _ _

theorem readsBack_blank {g : Arrangement} {n : Node} {tag : String}
    (hJson : n.toJson = tagged tag [])
    (hVariant : variants.find? (·.tag == tag) = some (blank tag n)) : ReadsBack g n :=
  readsBack_tagged hJson (by simp) hVariant fun _ h =>
    Variant.read_ofFields (Fields.reads_empty h.skips .buffered) _ _ _

theorem readsBack_of_inside {g : Arrangement} (n : Node) (hInside : ReadInside g n.children) :
    ReadsBack g n := by
  cases n with
  | paragraph | blockquote | tableRow | tableCell | emphasis | strong | delete =>
    exact readsBack_parent rfl rfl rfl hInside
  | html | yaml | toml | text | inlineCode | inlineMath => exact readsBack_literal rfl rfl rfl
  | thematicBreak | lineBreak => exact readsBack_blank rfl rfl
  | heading depth cs =>
    refine readsBack_tagged rfl (by simp) rfl fun ms h => ?_
    have hDepth : (Fields.required "depth" Reader.word8).Reads .buffered ms depth :=
      Fields.reads_required h Undoes.word8 (by simp)
    have hChildren : (Fields.nestedOrNone "children").Reads .buffered ms cs :=
      reads_children h hInside (by simp)
    exact Variant.read_ofFields (hDepth.and hChildren (by decide)) _ _ _
  | list ordered start spread cs =>
    refine readsBack_tagged rfl (by simp) rfl fun ms h => ?_
    have hOrdered : (flagOrNone "ordered").Reads .buffered ms ordered :=
      reads_flagOrNone h (by simp)
    have hStart : (Fields.optional "start" Reader.word32).Reads .buffered ms start :=
      Fields.reads_optional h Undoes.word32 (fun _ => g.natural_ne_null _) (by simp)
    have hSpread : (flagOrNone "spread").Reads .buffered ms spread := reads_flagOrNone h (by simp)
    have hChildren : (Fields.nestedOrNone "children").Reads .buffered ms cs :=
      reads_children h hInside (by simp)
    exact Variant.read_ofFields
      (hOrdered.and (hStart.and (hSpread.and hChildren (by decide)) (by decide)) (by decide)) _ _ _
  | listItem checked spread cs =>
    refine readsBack_tagged rfl (by simp) rfl fun ms h => ?_
    have hChecked : (flagOrNone "checked").Reads .buffered ms checked :=
      reads_flagOrNone h (by simp)
    have hSpread : (flagOrNone "spread").Reads .buffered ms spread := reads_flagOrNone h (by simp)
    have hChildren : (Fields.nestedOrNone "children").Reads .buffered ms cs :=
      reads_children h hInside (by simp)
    exact Variant.read_ofFields
      (hChecked.and (hSpread.and hChildren (by decide)) (by decide)) _ _ _
  | table align cs =>
    refine readsBack_tagged rfl (by simp) rfl fun ms h => ?_
    have hColumns : Undoes g .buffered Reader.text.optional.list (Json.list optionalText) :=
      (Undoes.text.optional g.string_ne_null).list
    have hAlign : (Fields.optional "align" Reader.text.optional.list).Reads .buffered ms align :=
      Fields.reads_optional h hColumns (fun _ => g.array_ne_null _) (by simp)
    have hChildren : (Fields.nestedOrNone "children").Reads .buffered ms cs :=
      reads_children h hInside (by simp)
    exact Variant.read_ofFields (hAlign.and hChildren (by decide)) _ _ _
  | code lang info value =>
    refine readsBack_tagged rfl (by simp) rfl fun ms h => ?_
    have hLang : (textOrNone "lang").Reads .buffered ms lang := reads_textOrNone h (by simp)
    have hInfo : (textOrNone "meta").Reads .buffered ms info := reads_textOrNone h (by simp)
    have hValue : (Fields.defaulted "value" "" Reader.text).Reads .buffered ms value :=
      Fields.reads_defaulted h Undoes.text "" (by simp)
    exact Variant.read_ofFields (hLang.and (hInfo.and hValue (by decide)) (by decide)) _ _ _
  | definition identifier label url title =>
    refine readsBack_tagged rfl (by simp) rfl fun ms h => ?_
    have hIdentifier :
        (Fields.defaulted "identifier" "" Reader.text).Reads .buffered ms identifier :=
      Fields.reads_defaulted h Undoes.text "" (by simp)
    have hLabel : (textOrNone "label").Reads .buffered ms label := reads_textOrNone h (by simp)
    have hUrl : (Fields.defaulted "url" "" Reader.text).Reads .buffered ms url :=
      Fields.reads_defaulted h Undoes.text "" (by simp)
    have hTitle : (textOrNone "title").Reads .buffered ms title := reads_textOrNone h (by simp)
    exact Variant.read_ofFields
      (hIdentifier.and (hLabel.and (hUrl.and hTitle (by decide)) (by decide)) (by decide)) _ _ _
  | footnoteDefinition identifier label cs =>
    refine readsBack_tagged rfl (by simp) rfl fun ms h => ?_
    have hIdentifier : (Fields.required "identifier" Reader.text).Reads .buffered ms identifier :=
      Fields.reads_required h Undoes.text (by simp)
    have hLabel : (textOrNone "label").Reads .buffered ms label := reads_textOrNone h (by simp)
    have hChildren : (Fields.nestedOrNone "children").Reads .buffered ms cs :=
      reads_children h hInside (by simp)
    exact Variant.read_ofFields
      (hIdentifier.and (hLabel.and hChildren (by decide)) (by decide)) _ _ _
  | math info value =>
    refine readsBack_tagged rfl (by simp) rfl fun ms h => ?_
    have hInfo : (textOrNone "meta").Reads .buffered ms info := reads_textOrNone h (by simp)
    have hValue : (Fields.defaulted "value" "" Reader.text).Reads .buffered ms value :=
      Fields.reads_defaulted h Undoes.text "" (by simp)
    exact Variant.read_ofFields (hInfo.and hValue (by decide)) _ _ _
  | link url title cs =>
    refine readsBack_tagged rfl (by simp) rfl fun ms h => ?_
    have hUrl : (Fields.required "url" Reader.text).Reads .buffered ms url :=
      Fields.reads_required h Undoes.text (by simp)
    have hTitle : (textOrNone "title").Reads .buffered ms title := reads_textOrNone h (by simp)
    have hChildren : (Fields.nestedOrNone "children").Reads .buffered ms cs :=
      reads_children h hInside (by simp)
    exact Variant.read_ofFields (hUrl.and (hTitle.and hChildren (by decide)) (by decide)) _ _ _
  | image url title alt =>
    refine readsBack_tagged rfl (by simp) rfl fun ms h => ?_
    have hUrl : (Fields.required "url" Reader.text).Reads .buffered ms url :=
      Fields.reads_required h Undoes.text (by simp)
    have hTitle : (textOrNone "title").Reads .buffered ms title := reads_textOrNone h (by simp)
    have hAlt : (textOrNone "alt").Reads .buffered ms alt := reads_textOrNone h (by simp)
    exact Variant.read_ofFields (hUrl.and (hTitle.and hAlt (by decide)) (by decide)) _ _ _
  | linkReference identifier label referenceType cs =>
    refine readsBack_tagged rfl (by simp) rfl fun ms h => ?_
    have hIdentifier :
        (Fields.defaulted "identifier" "" Reader.text).Reads .buffered ms identifier :=
      Fields.reads_defaulted h Undoes.text "" (by simp)
    have hLabel : (textOrNone "label").Reads .buffered ms label := reads_textOrNone h (by simp)
    have hType : (textOrNone "referenceType").Reads .buffered ms referenceType :=
      reads_textOrNone h (by simp)
    have hChildren : (Fields.nestedOrNone "children").Reads .buffered ms cs :=
      reads_children h hInside (by simp)
    exact Variant.read_ofFields
      (hIdentifier.and (hLabel.and (hType.and hChildren (by decide)) (by decide)) (by decide)) _ _ _
  | imageReference identifier label referenceType alt =>
    refine readsBack_tagged rfl (by simp) rfl fun ms h => ?_
    have hIdentifier :
        (Fields.defaulted "identifier" "" Reader.text).Reads .buffered ms identifier :=
      Fields.reads_defaulted h Undoes.text "" (by simp)
    have hLabel : (textOrNone "label").Reads .buffered ms label := reads_textOrNone h (by simp)
    have hType : (textOrNone "referenceType").Reads .buffered ms referenceType :=
      reads_textOrNone h (by simp)
    have hAlt : (textOrNone "alt").Reads .buffered ms alt := reads_textOrNone h (by simp)
    exact Variant.read_ofFields
      (hIdentifier.and (hLabel.and (hType.and hAlt (by decide)) (by decide)) (by decide)) _ _ _
  | footnoteReference identifier label =>
    refine readsBack_tagged rfl (by simp) rfl fun ms h => ?_
    have hIdentifier : (Fields.required "identifier" Reader.text).Reads .buffered ms identifier :=
      Fields.reads_required h Undoes.text (by simp)
    have hLabel : (textOrNone "label").Reads .buffered ms label := reads_textOrNone h (by simp)
    exact Variant.read_ofFields (hIdentifier.and hLabel (by decide)) _ _ _

theorem readsBack (g : Arrangement) :
    (∀ n, ReadsBack g n) ∧ ∀ nodes, ReadInside g nodes := by
  have hItems : ∀ nodes, ReadInside g nodes ↔
      Outline.nestedItems records (((toJsonAll nodes).map g.apply).map Outline.ofJson) =
        .ok nodes := by
    intro nodes
    rw [ReadInside, g.array, Outline.ofJson_array, Outline.nestedList]
  refine Node.inductInside readsBack_of_inside ((hItems []).mpr rfl) fun n rest hNode hRest => ?_
  -- A node inside another one is read from a buffer, where nothing is too deep.
  have hFirst : (Outline.ofJson (g.apply n.toJson)).nested records = .ok n := by
    rw [Tagged.nested_eq_reader]
    exact hNode .buffered
  rw [hItems] at hRest ⊢
  rw [toJsonAll, List.map_cons, List.map_cons, Outline.nestedItems, hFirst, hRest]
  rfl

theorem items_limited (g : Arrangement) (nodes : List Node) (origin : Origin) :
    Reader.items reader origin (((toJsonAll nodes).map g.apply).map Outline.ofJson) =
      (origin.limit (Json.depthItems ((toJsonAll nodes).map g.apply))).map fun _ => nodes := by
  induction nodes with
  | nil =>
    rw [toJsonAll, List.map_nil, Json.depthItems, origin.limit_zero]
    rfl
  | cons n rest ih =>
    have hFirst := (readsBack g).1 n origin
    rw [toJsonAll, List.map_cons, List.map_cons, Reader.items, Json.depthItems, origin.limit_max,
      hFirst, ih]
    cases origin.limit (g.apply n.toJson).depth with
    | error e => rfl
    | ok => cases origin.limit (Json.depthItems ((toJsonAll rest).map g.apply)) <;> rfl

theorem list_limited (g : Arrangement) (nodes : List Node) (origin : Origin) :
    reader.list origin (.ofJson (g.apply (.array (toJsonAll nodes)))) =
      (origin.limit (g.apply (.array (toJsonAll nodes))).depth).map fun _ => nodes := by
  rw [g.array, Outline.ofJson_array, Reader.list, Json.depth, origin.limit_succ]
  cases origin.enter with
  | error e => rfl
  | ok inside =>
    change (Reader.items reader inside _ >>= _) = (inside.limit _).map _
    rw [items_limited]
    cases inside.limit (Json.depthItems ((toJsonAll nodes).map g.apply)) <;> rfl

theorem whole_optionalText (s : Option String) : Json.Whole (optionalText s) :=
  .optional .string s

theorem whole_tagged (tag : String) {payload : List (String × Json)}
    (h : ∀ m ∈ payload, Json.Whole m.2) : Json.Whole (tagged tag payload) :=
  .object (List.forall_mem_cons.mpr ⟨.string tag, h⟩)

theorem whole_toJson :
    (∀ n : Node, n.toJson.Whole) ∧ ∀ nodes, ∀ item ∈ toJsonAll nodes, Json.Whole item := by
  have hFlag : ∀ b, Json.Whole (.optional .bool b) := Json.Whole.optional .bool
  have hStart : ∀ n : Option UInt32, Json.Whole (.optional (Json.natural ·.toNat) n) :=
    Json.Whole.optional .word32
  have hAlign : ∀ align, Json.Whole (.optional (Json.list optionalText) align) :=
    Json.Whole.optional (.list whole_optionalText)
  refine Node.inductInside (fun n hInside => ?_) (fun _ h => nomatch h) fun n rest hNode hRest => ?_
  · have hChildren : (Json.array (toJsonAll n.children)).Whole := .array hInside
    cases n
    all_goals
      refine whole_tagged _ ?_
      simp [whole_optionalText, hFlag, hStart, hAlign, Json.Whole.word8, Json.Whole.string]
    -- What is left of the kinds of nodes that have children is what they are written to.
    all_goals exact hChildren
  · rw [toJsonAll]
    exact List.forall_mem_cons.mpr ⟨hNode, hRest⟩

end Node

namespace Tree

theorem reader_ofJson (g : Arrangement) (tree : Tree) (origin : Origin) :
    reader origin (.ofJson (g.apply tree.toJson)) =
      (origin.limit (g.apply tree.toJson).depth).map fun _ => tree := by
  obtain ⟨arranged, hApply, hPerm⟩ :=
    g.object [("children", .array (Node.toJsonAll tree.children))] (List.pairwise_singleton _ _)
  obtain rfl := List.perm_singleton.mp hPerm
  rw [toJson, hApply, Outline.ofJson_object, Json.depth, origin.limit_succ, Json.depthMembers,
    Json.depthMembers, Nat.max_zero]
  change (origin.enter >>= _) = Except.map _ (origin.enter >>= _)
  cases origin.enter with
  | error e => rfl
  | ok inside =>
    have hList := Node.list_limited g tree.children inside
    generalize hChildren : g.apply (.array (Node.toJsonAll tree.children)) = children at hList
    simp only [hChildren]
    change ((((Node.reader.list inside (.ofJson children)).map some) >>= _) >>= _) = _
    rw [hList]
    change _ = (inside.limit children.depth).map _
    cases inside.limit children.depth <;> rfl

theorem whole_toJson (tree : Tree) : tree.toJson.Whole :=
  .object (List.forall_mem_cons.mpr ⟨.array (Node.whole_toJson.2 tree.children), nofun⟩)

theorem ofText_compact (tree : Tree) :
    ofText tree.toJson.compact =
      ((Origin.text Json.maxDepth).limit tree.toJson.depth).map fun _ => tree := by
  have hRead : reader (.text Json.maxDepth) (.ofJson tree.toJson) =
      ((Origin.text Json.maxDepth).limit tree.toJson.depth).map fun _ => tree :=
    reader_ofJson .same tree _
  rw [ofText, Reader.ofText, Outline.ofGlyphs_compact tree.whole_toJson]
  change (reader (.text Json.maxDepth) (.ofJson tree.toJson) >>= _) = _
  rw [hRead]
  cases (Origin.text Json.maxDepth).limit tree.toJson.depth <;> rfl

/-- Reading a tree undoes writing it, as a value and as a compact text. Only a text with more brackets
inside each other than a reader follows is refused, and for that reason. -/
theorem reading_undoes_writing (tree : Tree) :
    ofValue tree.toJson = .ok tree ∧
      (tree.toJson.depth ≤ 127 → ofText tree.toJson.compact = .ok tree) ∧
      (127 < tree.toJson.depth →
        ofText tree.toJson.compact = .error (.malformed .nestingTooDeep)) := by
  refine ⟨reader_ofJson .byKey tree .value, fun h => ?_, fun h => ?_⟩
  · rw [ofText_compact, Origin.limit, Json.maxDepth, if_pos h]
    rfl
  · rw [ofText_compact, Origin.limit, Json.maxDepth, if_neg (Nat.not_le.mpr h)]
    rfl

end Tree

end Manuscript
