import Manuscript.Proofs.Json.Sorted

/-!
# The members that count

Each kind of node has its members, and a value is stripped of all others at every depth. Which members
count depends on the tag of the same object, which may stand anywhere in it and need not be a tag at
all. Stripping does not depend on the order of members: it can be done before sorting or after it.
-/

namespace Manuscript

namespace Node

/-- The members of each kind of node, in the order in which an array lists them. -/
def contract : List (String × List String) := [
  ("paragraph", ["children"]),
  ("heading", ["depth", "children"]),
  ("thematicBreak", []),
  ("blockquote", ["children"]),
  ("list", ["ordered", "start", "spread", "children"]),
  ("listItem", ["checked", "spread", "children"]),
  ("table", ["align", "children"]),
  ("tableRow", ["children"]),
  ("tableCell", ["children"]),
  ("html", ["value"]),
  ("code", ["lang", "meta", "value"]),
  ("yaml", ["value"]),
  ("toml", ["value"]),
  ("definition", ["identifier", "label", "url", "title"]),
  ("footnoteDefinition", ["identifier", "label", "children"]),
  ("math", ["meta", "value"]),
  ("text", ["value"]),
  ("emphasis", ["children"]),
  ("strong", ["children"]),
  ("delete", ["children"]),
  ("inlineCode", ["value"]),
  ("break", []),
  ("link", ["url", "title", "children"]),
  ("image", ["url", "title", "alt"]),
  ("linkReference", ["identifier", "label", "referenceType", "children"]),
  ("imageReference", ["identifier", "label", "referenceType", "alt"]),
  ("footnoteReference", ["identifier", "label"]),
  ("inlineMath", ["value"])]

/-- The members that count beside a tag, which may give the kind of the node by its number. Without
a kind none counts. -/
def membersOf : Option Json → List String
  | some (.string kind) => (contract.lookup kind).getD []
  | some (.number (.natural i)) => (contract[i]?.map Prod.snd).getD []
  | _ => []

mutual

/-- A node without the members that do not count, at every depth. Of several members with one name
the last one decides. -/
def strip : Json → Json
  | .object members =>
    .object (stripMembers ("type" :: membersOf (members.reverse.lookup "type")) members)
  | .array [] => .array []
  | .array (tag :: items) => .array (tag :: stripItems (membersOf (some tag)) items)
  | j => j

def stripMembers (names : List String) : List (String × Json) → List (String × Json)
  | [] => []
  | (key, value) :: rest =>
    if key ∈ names then (key, stripMember key value) :: stripMembers names rest
    else stripMembers names rest

/-- Items belong to the members in their places. -/
def stripItems (names : List String) : List Json → List Json
  | [] => []
  | item :: rest =>
    match names with
    | [] => item :: rest
    | name :: names => stripMember name item :: stripItems names rest

/-- Only children are nodes. -/
def stripMember (name : String) : Json → Json
  | .array items => if name = "children" then .array (stripAll items) else .array items
  | j => j

def stripAll : List Json → List Json
  | [] => []
  | item :: rest => strip item :: stripAll rest

end

/-! ## Stripping and sorting -/

theorem stripMember_of_ne {name : String} (h : name ≠ "children") (j : Json) :
    stripMember name j = j := by
  cases j with
  | null | bool | number | string | object => rfl
  | array items => rw [stripMember, if_neg h]

theorem stripAll_eq_map (items : List Json) : stripAll items = items.map strip := by
  induction items with
  | nil => rfl
  | cons item rest ih => rw [stripAll, ih, List.map_cons]

theorem stripMembers_eq (names : List String) (members : List (String × Json)) :
    stripMembers names members =
      (members.filter fun m => m.1 ∈ names).map fun m => (m.1, stripMember m.1 m.2) := by
  induction members with
  | nil => rfl
  | cons m rest ih =>
    rw [stripMembers, ih]
    by_cases hName : m.1 ∈ names
    · rw [if_pos hName, List.filter_cons_of_pos (by simpa using hName), List.map_cons]
    · rw [if_neg hName, List.filter_cons_of_neg (by simpa using hName)]

theorem lookup_stripMembers (names : List String) (members : List (String × Json)) (key : String) :
    (stripMembers names members).lookup key =
      if key ∈ names then (members.lookup key).map (stripMember key) else none := by
  induction members with
  | nil => simp [stripMembers]
  | cons m rest ih =>
    rw [stripMembers, Keyed.lookup_cons_eq]
    by_cases hKey : key = m.1
    · subst hKey
      by_cases hName : m.1 ∈ names
      · rw [if_pos hName, Keyed.lookup_cons_eq, if_pos rfl, if_pos hName, if_pos rfl]
        rfl
      · rw [if_neg hName, ih, if_neg hName, if_neg hName]
    · rw [if_neg hKey, ← ih]
      by_cases hName : m.1 ∈ names
      · rw [if_pos hName, Keyed.lookup_cons_eq, if_neg hKey]
      · rw [if_neg hName]

theorem stripMembers_reverse (names : List String) (members : List (String × Json)) :
    stripMembers names members.reverse = (stripMembers names members).reverse := by
  rw [stripMembers_eq, stripMembers_eq, List.filter_reverse, List.map_reverse]

theorem pairwise_stripMembers (names : List String) {members : List (String × Json)}
    (h : members.Pairwise (·.1 < ·.1)) : (stripMembers names members).Pairwise (·.1 < ·.1) := by
  rw [stripMembers_eq]
  exact List.pairwise_map.mpr (h.filter _)

theorem membersOf_sorted (tag : Option Json) : membersOf (tag.map Json.sorted) = membersOf tag := by
  cases tag with
  | none => rfl
  | some j => cases j <;> rfl

theorem sortedMembers_stripMembers (names : List String) {members : List (String × Json)}
    (h : ∀ m ∈ members, ∀ name, (stripMember name m.2).sorted = stripMember name m.2.sorted) :
    Json.sortedMembers (stripMembers names members) [] =
      stripMembers names (Json.sortedMembers members []) := by
  refine Json.sortedMembers_eq
    (pairwise_stripMembers names (Json.pairwise_sortedMembers members)) fun key => ?_
  rw [lookup_stripMembers, Json.lookup_sortedMembers, ← stripMembers_reverse, lookup_stripMembers]
  split
  · cases hFound : members.reverse.lookup key with
    | none => rfl
    | some value =>
      have hMem : (key, value) ∈ members := List.mem_reverse.mp (Keyed.mem_of_lookup hFound)
      exact congrArg some (h _ hMem key).symm
  · rfl

theorem sortedItems_stripItems (names : List String) {items : List Json}
    (h : ∀ item ∈ items, ∀ name, (stripMember name item).sorted = stripMember name item.sorted) :
    (stripItems names items).map Json.sorted = stripItems names (items.map Json.sorted) := by
  induction items generalizing names with
  | nil => rfl
  | cons item rest ih =>
    cases names with
    | nil => rfl
    | cons name names =>
      rw [stripItems, List.map_cons, List.map_cons, stripItems, h item List.mem_cons_self,
        ih names fun item hItem => h item (List.mem_cons_of_mem _ hItem)]

theorem sorted_strip_both (j : Json) :
    (strip j).sorted = strip j.sorted ∧
      ∀ name, (stripMember name j).sorted = stripMember name j.sorted := by
  induction j using Json.induct with
  | null | bool | number | string => exact ⟨rfl, fun _ => rfl⟩
  | array items ih =>
    constructor
    · cases items with
      | nil => rfl
      | cons tag rest =>
        have hRest := sortedItems_stripItems (membersOf (some tag))
          fun item hItem => (ih item (List.mem_cons_of_mem _ hItem)).2
        have hTag : membersOf (some tag.sorted) = membersOf (some tag) :=
          membersOf_sorted (some tag)
        rw [strip, Json.sorted_array, Json.sorted_array, List.map_cons, List.map_cons, strip, hTag,
          hRest]
    · intro name
      rw [Json.sorted_array, stripMember, stripMember]
      split
      · rw [Json.sorted_array, stripAll_eq_map, stripAll_eq_map, List.map_map, List.map_map]
        exact congrArg Json.array (List.map_congr_left fun item hItem => (ih item hItem).1)
      · exact Json.sorted_array items
  | object members ih =>
    have hMembers := fun names => sortedMembers_stripMembers names fun m hm => (ih m hm).2
    have hTag : (Json.sortedMembers members []).reverse.lookup "type" =
        (members.reverse.lookup "type").map Json.sorted := by
      rw [Keyed.lookup_perm (List.reverse_perm _) (Json.nodup_sortedMembers members),
        Json.lookup_sortedMembers]
    refine ⟨?_, fun _ => rfl⟩
    rw [strip, Json.sorted, Json.sorted, strip, hMembers, hTag, membersOf_sorted]

end Node

namespace Tree

/-- A tree without the members that do not count. -/
def strip : Json → Json
  | .object members => .object (Node.stripMembers ["children"] members)
  | .array items => .array (Node.stripItems ["children"] items)
  | j => j

theorem sorted_strip (v : Json) : (strip v).sorted = strip v.sorted := by
  have hMember := fun j => (Node.sorted_strip_both j).2
  cases v with
  | null | bool | number | string => rfl
  | array items =>
    rw [strip, Json.sorted_array, Json.sorted_array, strip,
      Node.sortedItems_stripItems _ fun item _ => hMember item]
  | object members =>
    rw [strip, Json.sorted, Json.sorted, strip,
      Node.sortedMembers_stripMembers _ fun m _ => hMember m.2]

end Tree

end Manuscript
