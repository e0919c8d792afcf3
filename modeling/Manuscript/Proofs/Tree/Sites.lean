import Manuscript.Tree.Basic

/-!
# Sites in a tree

A walk over a tree meets every node together with the nodes around it, in the order of the document,
and decides from that whether it goes in. The images of a tree are those that the walk meets that
goes in everywhere; a walk that goes in more often meets the same sites and more.
-/

namespace Manuscript

mutual

theorem Node.inductOne {P : Node → Prop} {Q : List Node → Prop}
    (node : ∀ n : Node, Q n.children → P n) (nil : Q [])
    (cons : ∀ n rest, P n → Q rest → Q (n :: rest)) (n : Node) : P n :=
  node n (inductAll node nil cons n.children)
termination_by 2 * sizeOf n + 1
decreasing_by
  have := n.sizeOf_children
  omega

theorem Node.inductAll {P : Node → Prop} {Q : List Node → Prop}
    (node : ∀ n : Node, Q n.children → P n) (nil : Q [])
    (cons : ∀ n rest, P n → Q rest → Q (n :: rest)) : (nodes : List Node) → Q nodes
  | [] => nil
  | n :: rest => cons n rest (inductOne node nil cons n) (inductAll node nil cons rest)
termination_by nodes => 2 * sizeOf nodes

end

/-- Induction from the nodes inside a node to the node. -/
theorem Node.inductInside {P : Node → Prop} {Q : List Node → Prop}
    (node : ∀ n : Node, Q n.children → P n) (nil : Q [])
    (cons : ∀ n rest, P n → Q rest → Q (n :: rest)) : (∀ n, P n) ∧ ∀ nodes, Q nodes :=
  ⟨inductOne node nil cons, inductAll node nil cons⟩

/-- A node and the nodes around it, the innermost first. -/
structure Site where
  above : List Node
  node : Node

namespace Site

mutual

/-- The sites that a walk meets in a node: its own first, then those inside if it goes in. -/
def ofNode (enters : Site → Bool) (above : List Node) (n : Node) : List Site :=
  ⟨above, n⟩ :: if enters ⟨above, n⟩ then ofNodes enters (n :: above) n.children else []
termination_by 2 * sizeOf n + 1
decreasing_by
  have := n.sizeOf_children
  omega

def ofNodes (enters : Site → Bool) (above : List Node) (nodes : List Node) : List Site :=
  match nodes with
  | [] => []
  | n :: rest => ofNode enters above n ++ ofNodes enters above rest
termination_by 2 * sizeOf nodes

end

@[simp]
theorem ofNodes_nil (enters : Site → Bool) (above : List Node) : ofNodes enters above [] = [] := by
  rw [ofNodes]

@[simp]
theorem ofNodes_cons (enters : Site → Bool) (above : List Node) (n : Node) (rest : List Node) :
    ofNodes enters above (n :: rest) = ofNode enters above n ++ ofNodes enters above rest := by
  rw [ofNodes]

theorem flatMap_ofNode {α : Type} (f : Site → List α) (enters : Site → Bool) (above : List Node)
    (n : Node) :
    (ofNode enters above n).flatMap f =
      f ⟨above, n⟩ ++
        if enters ⟨above, n⟩ then (ofNodes enters (n :: above) n.children).flatMap f else [] := by
  rw [ofNode, List.flatMap_cons]
  split <;> rfl

theorem flatMap_ofNode_of_enters {α : Type} {f : Site → List α} {enters : Site → Bool}
    {above : List Node} {n : Node} (hOwn : f ⟨above, n⟩ = []) (hEnters : enters ⟨above, n⟩ = true) :
    (ofNode enters above n).flatMap f = (ofNodes enters (n :: above) n.children).flatMap f := by
  rw [flatMap_ofNode, hOwn, if_pos hEnters, List.nil_append]

theorem flatMap_ofNode_of_leaf {α : Type} {f : Site → List α} {enters : Site → Bool}
    {above : List Node} {n : Node} (hLeaf : enters ⟨above, n⟩ = false ∨ n.children = []) :
    (ofNode enters above n).flatMap f = f ⟨above, n⟩ := by
  rw [flatMap_ofNode]
  rcases hLeaf with hHides | hNil
  · rw [if_neg (by rw [hHides]; decide), List.append_nil]
  · rw [hNil, ofNodes_nil, List.flatMap_nil, ite_self, List.append_nil]

/-- A walk that goes in wherever another one does meets all sites that the other one meets. -/
theorem ofNodes_sublist {few more : Site → Bool} (h : ∀ p, few p = true → more p = true) :
    (∀ n above, (ofNode few above n).Sublist (ofNode more above n)) ∧
      ∀ nodes above, (ofNodes few above nodes).Sublist (ofNodes more above nodes) := by
  refine Node.inductInside (fun n ih above => ?_) (fun above => ?_)
    (fun n rest ihNode ihRest above => ?_)
  · rw [ofNode, ofNode]
    apply List.Sublist.cons_cons
    split
    · rename_i hfew
      rw [if_pos (h _ hfew)]
      exact ih (n :: above)
    · exact List.nil_sublist _
  · simp
  · rw [ofNodes_cons, ofNodes_cons]
    exact (ihNode above).append (ihRest above)

/-- A walk that decides like another one wherever that one comes meets the same sites. -/
theorem ofNodes_congr {enters other : Site → Bool} :
    (∀ n above, (∀ p ∈ ofNode enters above n, other p = enters p) →
        ofNode other above n = ofNode enters above n) ∧
      ∀ nodes above, (∀ p ∈ ofNodes enters above nodes, other p = enters p) →
        ofNodes other above nodes = ofNodes enters above nodes := by
  refine Node.inductInside (fun n ih above hSame => ?_) (fun above _ => ?_)
    (fun n rest ihNode ihRest above hSame => ?_)
  · rw [ofNode] at hSame
    rw [ofNode, ofNode, hSame _ List.mem_cons_self]
    congr 1
    split
    · rename_i hEnters
      rw [if_pos hEnters] at hSame
      exact ih (n :: above) fun p hp => hSame p (List.mem_cons_of_mem _ hp)
    · rfl
  · rw [ofNodes_nil, ofNodes_nil]
  · rw [ofNodes_cons] at hSame
    rw [ofNodes_cons, ofNodes_cons, ihNode above fun p hp => hSame p (List.mem_append_left _ hp),
      ihRest above fun p hp => hSame p (List.mem_append_right _ hp)]

/-! ## Inside first -/

mutual

/-- The sites that a walk meets in a node, those inside it before its own. -/
def ofNodeInsideFirst (enters : Site → Bool) (above : List Node) (n : Node) : List Site :=
  (if enters ⟨above, n⟩ then ofNodesInsideFirst enters (n :: above) n.children else []) ++
    [⟨above, n⟩]
termination_by 2 * sizeOf n + 1
decreasing_by
  have := n.sizeOf_children
  omega

def ofNodesInsideFirst (enters : Site → Bool) (above : List Node) (nodes : List Node) :
    List Site :=
  match nodes with
  | [] => []
  | n :: rest => ofNodeInsideFirst enters above n ++ ofNodesInsideFirst enters above rest
termination_by 2 * sizeOf nodes

end

@[simp]
theorem ofNodesInsideFirst_nil (enters : Site → Bool) (above : List Node) :
    ofNodesInsideFirst enters above [] = [] := by
  rw [ofNodesInsideFirst]

@[simp]
theorem ofNodesInsideFirst_cons (enters : Site → Bool) (above : List Node) (n : Node)
    (rest : List Node) :
    ofNodesInsideFirst enters above (n :: rest) =
      ofNodeInsideFirst enters above n ++ ofNodesInsideFirst enters above rest := by
  rw [ofNodesInsideFirst]

theorem ofNodesInsideFirst_perm (enters : Site → Bool) :
    (∀ n above, (ofNodeInsideFirst enters above n).Perm (ofNode enters above n)) ∧
      ∀ nodes above, (ofNodesInsideFirst enters above nodes).Perm (ofNodes enters above nodes) := by
  refine Node.inductInside (fun n ih above => ?_) (fun above => ?_)
    (fun n rest ihNode ihRest above => ?_)
  · rw [ofNodeInsideFirst, ofNode]
    refine (List.perm_append_singleton _ _).trans (.cons _ ?_)
    split
    · exact ih (n :: above)
    · exact .nil
  · rw [ofNodesInsideFirst_nil, ofNodes_nil]
  · rw [ofNodesInsideFirst_cons, ofNodes_cons]
    exact (ihNode above).append (ihRest above)

end Site

theorem Node.filterMap_preorderAll {α : Type} (f : Node → Option α) :
    (∀ (n : Node) (depth : Nat) (above : List Node),
        (preorder depth n).filterMap (fun e => f e.2) =
          (Site.ofNode (fun _ => true) above n).filterMap fun p => f p.node) ∧
      ∀ (nodes : List Node) (depth : Nat) (above : List Node),
        (preorderAll depth nodes).filterMap (fun e => f e.2) =
          (Site.ofNodes (fun _ => true) above nodes).filterMap fun p => f p.node := by
  refine Node.inductInside (fun n ih depth above => ?_) (fun depth above => ?_)
    (fun n rest ihNode ihRest depth above => ?_)
  · rw [preorder, Site.ofNode, List.filterMap_cons, List.filterMap_cons, ih (depth + 1) (n :: above)]
    rfl
  · rw [preorderAll]
    simp
  · rw [preorderAll, Site.ofNodes_cons, List.filterMap_append, List.filterMap_append,
      ihNode depth above, ihRest depth above]

theorem Node.mem_preorderAll_iff {depth : Nat} {nodes : List Node} {e : Nat × Node} :
    e ∈ preorderAll depth nodes ↔ ∃ n ∈ nodes, e ∈ preorder depth n := by
  induction nodes with
  | nil => simp [preorderAll]
  | cons n rest ih =>
    rw [preorderAll, List.mem_append, ih]
    simp

theorem Node.imageUrls_eq (nodes : List Node) :
    imageUrls nodes =
      (Site.ofNodes (fun _ => true) [] nodes).filterMap fun p => p.node.imageUrl? :=
  (filterMap_preorderAll imageUrl?).2 nodes 0 []

theorem Site.url_mem_imageUrls {enters : Site → Bool} {nodes : List Node} {p : Site}
    {url : String} (hp : p ∈ ofNodes enters [] nodes) (hurl : p.node.imageUrl? = some url) :
    url ∈ Node.imageUrls nodes := by
  rw [Node.imageUrls_eq, List.mem_filterMap]
  have hmore : (ofNodes enters [] nodes).Sublist (ofNodes (fun _ => true) [] nodes) :=
    (ofNodes_sublist fun _ _ => rfl).2 nodes []
  exact ⟨p, hmore.subset hp, hurl⟩

end Manuscript
