import Manuscript.Proofs.Tree.Sites

/-!
# Positions in a tree

The position of a node lists, from the outermost node to the innermost, the number of the node to go
into. In the order of positions a node comes before the nodes inside it and these come before the
nodes behind it, so the lexicographic order of positions is the order of the document. The images of
a tree are read off its positions: one for every position at which an image stands, in their order.
-/

namespace Manuscript

inductive Holds : Node → List Node → Prop
  | paragraph (cs) : Holds (.paragraph cs) cs
  | heading (depth cs) : Holds (.heading depth cs) cs
  | blockquote (cs) : Holds (.blockquote cs) cs
  | list (ordered start spread cs) : Holds (.list ordered start spread cs) cs
  | listItem (checked spread cs) : Holds (.listItem checked spread cs) cs
  | table (align cs) : Holds (.table align cs) cs
  | tableRow (cs) : Holds (.tableRow cs) cs
  | tableCell (cs) : Holds (.tableCell cs) cs
  | footnoteDefinition (identifier label cs) : Holds (.footnoteDefinition identifier label cs) cs
  | emphasis (cs) : Holds (.emphasis cs) cs
  | strong (cs) : Holds (.strong cs) cs
  | delete (cs) : Holds (.delete cs) cs
  | link (url title cs) : Holds (.link url title cs) cs
  | linkReference (identifier label referenceType cs) :
      Holds (.linkReference identifier label referenceType cs) cs

/-- A node stands at a position among some nodes. -/
inductive StandsAt : List Node → List Nat → Node → Prop
  | here {nodes i n} (hNode : nodes[i]? = some n) : StandsAt nodes [i] n
  | inside {nodes i n inner path m} (hNode : nodes[i]? = some n) (hHolds : Holds n inner)
      (hInner : StandsAt inner path m) : StandsAt nodes (i :: path) m

theorem Holds.eq_children {n : Node} {cs : List Node} (h : Holds n cs) : cs = n.children := by
  cases h <;> rfl

theorem holds_children {n : Node} (h : n.children ≠ []) : Holds n n.children := by
  cases n <;> first | constructor | exact absurd rfl h

theorem not_standsAt_nil {path : List Nat} {m : Node} : ¬ StandsAt [] path m := by
  rintro (⟨hNode⟩ | ⟨hNode, _, _⟩) <;> simp at hNode

theorem standsAt_cons_zero {n m : Node} {rest : List Node} {path : List Nat} :
    StandsAt (n :: rest) (0 :: path) m ↔
      (path = [] ∧ m = n) ∨ StandsAt n.children path m := by
  constructor
  · rintro (⟨hNode⟩ | ⟨hNode, hHolds, hInner⟩)
    · exact .inl ⟨rfl, by simpa using hNode.symm⟩
    · obtain rfl : n = _ := by simpa using hNode
      exact .inr (hHolds.eq_children ▸ hInner)
  · rintro (⟨rfl, rfl⟩ | hInner)
    · exact .here rfl
    · refine .inside rfl (holds_children fun hNil => ?_) hInner
      exact not_standsAt_nil (hNil ▸ hInner)

theorem standsAt_cons_succ {n m : Node} {rest : List Node} {i : Nat} {path : List Nat} :
    StandsAt (n :: rest) ((i + 1) :: path) m ↔ StandsAt rest (i :: path) m := by
  constructor
  · rintro (⟨hNode⟩ | ⟨hNode, hHolds, hInner⟩)
    · exact .here (by simpa using hNode)
    · exact .inside (by simpa using hNode) hHolds hInner
  · rintro (⟨hNode⟩ | ⟨hNode, hHolds, hInner⟩)
    · exact .here (by simpa using hNode)
    · exact .inside (by simpa using hNode) hHolds hInner

namespace Node

mutual

/-- A node and everything inside it, each with the way from the node. -/
def located (n : Node) : List (List Nat × Node) :=
  ([], n) :: locatedFrom 0 n.children
termination_by 2 * sizeOf n + 1
decreasing_by
  have := n.sizeOf_children
  omega

/-- Nodes next to each other and everything inside them, each with its position, if the first node
has the number `i`. -/
def locatedFrom (i : Nat) (nodes : List Node) : List (List Nat × Node) :=
  match nodes with
  | [] => []
  | n :: rest => (located n).map (fun e => (i :: e.1, e.2)) ++ locatedFrom (i + 1) rest
termination_by 2 * sizeOf nodes

end

theorem map_snd_locatedFrom :
    (∀ n depth, (located n).map Prod.snd = (preorder depth n).map Prod.snd) ∧
      ∀ nodes i depth, (locatedFrom i nodes).map Prod.snd =
        (preorderAll depth nodes).map Prod.snd := by
  refine inductInside (fun n ih depth => ?_) (fun i depth => ?_)
    (fun n rest ihNode ihRest i depth => ?_)
  · rw [located, preorder, List.map_cons, List.map_cons, ih 0 (depth + 1)]
  · rw [locatedFrom, preorderAll]
    rfl
  · rw [locatedFrom, preorderAll, List.map_append, List.map_append, List.map_map,
      ← ihNode depth, ← ihRest (i + 1) depth]
    rfl

theorem mem_locatedFrom_iff :
    (∀ (n : Node) path m, (path, m) ∈ located n ↔
        (path = [] ∧ m = n) ∨ StandsAt n.children path m) ∧
      ∀ (nodes : List Node) i path m, (path, m) ∈ locatedFrom i nodes ↔
        ∃ k tail, path = (i + k) :: tail ∧ StandsAt nodes (k :: tail) m := by
  refine inductInside (fun n ih path m => ?_) (fun i path m => ?_)
    (fun n rest ihNode ihRest i path m => ?_)
  · rw [located, List.mem_cons, ih, Prod.mk.injEq]
    refine or_congr_right ⟨?_, fun h => ?_⟩
    · rintro ⟨k, tail, rfl, h⟩
      rwa [Nat.zero_add]
    · cases path with
      | nil => cases h
      | cons k tail => exact ⟨k, tail, by rw [Nat.zero_add], h⟩
  · rw [locatedFrom]
    simp [not_standsAt_nil]
  · rw [locatedFrom, List.mem_append, List.mem_map, ihRest]
    constructor
    · rintro (⟨⟨tail, m'⟩, hmem, heq⟩ | ⟨k, tail, rfl, h⟩)
      · obtain ⟨rfl, rfl⟩ := Prod.mk.inj heq
        exact ⟨0, tail, rfl, standsAt_cons_zero.mpr ((ihNode tail m').mp hmem)⟩
      · exact ⟨k + 1, tail, by rw [Nat.add_assoc, Nat.add_comm 1], standsAt_cons_succ.mpr h⟩
    · rintro ⟨k, tail, rfl, h⟩
      cases k with
      | zero => exact .inl ⟨(tail, m), (ihNode tail m).mpr (standsAt_cons_zero.mp h), rfl⟩
      | succ k =>
        exact .inr ⟨k, tail, by rw [Nat.add_assoc, Nat.add_comm 1], standsAt_cons_succ.mp h⟩

theorem pairwise_locatedFrom :
    (∀ n, ((located n).map Prod.fst).Pairwise (· < ·)) ∧
      ∀ nodes i, ((locatedFrom i nodes).map Prod.fst).Pairwise (· < ·) := by
  refine inductInside (fun n ih => ?_) (fun i => ?_) (fun n rest ihNode ihRest i => ?_)
  · rw [located, List.map_cons, List.pairwise_cons]
    refine ⟨fun path hpath => ?_, ih 0⟩
    obtain ⟨⟨path, m⟩, hmem, rfl⟩ := List.mem_map.mp hpath
    obtain ⟨k, tail, rfl, _⟩ := (mem_locatedFrom_iff.2 _ _ _ _).mp hmem
    exact List.nil_lt_cons _ _
  · rw [locatedFrom]
    exact .nil
  · rw [locatedFrom, List.map_append, List.pairwise_append, List.map_map]
    refine ⟨?_, ihRest (i + 1), fun a ha b hb => ?_⟩
    · have hCons := ihNode
      rw [List.pairwise_map] at hCons ⊢
      exact hCons.imp fun h => List.cons_lt_cons_iff.mpr (.inr ⟨rfl, h⟩)
    · obtain ⟨e, _, rfl⟩ := List.mem_map.mp ha
      obtain ⟨⟨path, m⟩, hmem, rfl⟩ := List.mem_map.mp hb
      obtain ⟨k, tail, rfl, _⟩ := (mem_locatedFrom_iff.2 _ _ _ _).mp hmem
      exact List.cons_lt_cons_iff.mpr (.inl (by omega))

def imagePositions (nodes : List Node) : List (List Nat × String) :=
  (locatedFrom 0 nodes).filterMap fun e => e.2.imageUrl?.map (e.1, ·)

theorem imageUrl?_eq_some_iff {n : Node} {url : String} :
    n.imageUrl? = some url ↔ ∃ title alt, n = .image url title alt := by
  cases n <;> simp [imageUrl?]

theorem mem_imagePositions_iff {nodes : List Node} {path : List Nat} {url : String} :
    (path, url) ∈ imagePositions nodes ↔
      ∃ title alt, StandsAt nodes path (.image url title alt) := by
  simp only [imagePositions, List.mem_filterMap, Option.map_eq_some_iff, imageUrl?_eq_some_iff]
  constructor
  · rintro ⟨⟨path', m⟩, hmem, url', ⟨title, alt, rfl⟩, heq⟩
    obtain ⟨rfl, rfl⟩ := Prod.mk.inj heq
    obtain ⟨k, tail, rfl, h⟩ := (mem_locatedFrom_iff.2 _ _ _ _).mp hmem
    exact ⟨title, alt, by rwa [Nat.zero_add]⟩
  · rintro ⟨title, alt, h⟩
    refine ⟨(path, .image url title alt), ?_, url, ⟨title, alt, rfl⟩, rfl⟩
    rw [mem_locatedFrom_iff.2]
    cases path with
    | nil => cases h
    | cons k tail => exact ⟨k, tail, by rw [Nat.zero_add], h⟩

theorem pairwise_imagePositions (nodes : List Node) :
    ((imagePositions nodes).map Prod.fst).Pairwise (· < ·) := by
  have h := (pairwise_locatedFrom.2 nodes 0)
  rw [List.pairwise_map] at h ⊢
  refine h.filterMap _ fun e e' hlt f hf f' hf' => ?_
  obtain ⟨_, _, rfl⟩ := Option.map_eq_some_iff.mp hf
  obtain ⟨_, _, rfl⟩ := Option.map_eq_some_iff.mp hf'
  exact hlt

theorem map_snd_imagePositions (nodes : List Node) :
    (imagePositions nodes).map Prod.snd = imageUrls nodes := by
  have hUrls := congrArg (List.filterMap imageUrl?) (map_snd_locatedFrom.2 nodes 0 0)
  have hForget : (fun e : List Nat × Node => (e.2.imageUrl?.map (e.1, ·)).map Prod.snd) =
      imageUrl? ∘ Prod.snd := by
    funext e
    cases h : imageUrl? e.2 <;> simp [h]
  rw [List.filterMap_map, List.filterMap_map] at hUrls
  rw [imagePositions, List.map_filterMap, hForget]
  exact hUrls

end Node

end Manuscript
