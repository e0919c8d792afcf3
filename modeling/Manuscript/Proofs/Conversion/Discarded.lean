import Manuscript.Proofs.Conversion.Images

/-!
# What a document does not show

A document shows neither how a list is numbered in the source nor the shape of a table, and no titles,
labels or languages; some nodes leave nothing behind but their place. A tree without all that is laid
out to the same document, or fails in the same way, so two trees that differ in nothing else cannot be
told apart by their documents.
-/

namespace Manuscript

namespace Node

mutual

/-- The node without what its document does not show. -/
def bare : Node → Node
  | .paragraph cs => .paragraph (bareAll cs)
  | .heading depth cs => .heading depth (bareAll cs)
  | .thematicBreak => .thematicBreak
  | .blockquote cs => .blockquote (bareAll cs)
  | .list _ _ _ cs => .list none none none (bareAll cs)
  | .listItem checked _ cs => .listItem checked none (bareAll cs)
  | .table _ _ => .table none []
  | .tableRow cs => .tableRow (bareAll cs)
  | .tableCell cs => .tableCell (bareAll cs)
  | .html value => .html value
  | .code _ _ value => .code none none value
  | .yaml _ => .yaml ""
  | .toml _ => .toml ""
  | .definition .. => .definition "" none "" none
  | .footnoteDefinition identifier _ cs => .footnoteDefinition identifier none (bareAll cs)
  | .math _ value => .math none value
  | .text value => .text value
  | .emphasis cs => .emphasis (bareAll cs)
  | .strong cs => .strong (bareAll cs)
  | .delete cs => .delete (bareAll cs)
  | .inlineCode value => .inlineCode value
  | .lineBreak => .lineBreak
  | .link url _ cs => .link url none (bareAll cs)
  | .image url _ _ => .image url none none
  | .linkReference .. => .linkReference "" none none []
  | .imageReference .. => .imageReference "" none none none
  | .footnoteReference identifier _ => .footnoteReference identifier none
  | .inlineMath value => .inlineMath value

def bareAll : List Node → List Node
  | [] => []
  | n :: rest => bare n :: bareAll rest

end

theorem bareAll_eq_map (nodes : List Node) : bareAll nodes = nodes.map bare := by
  induction nodes with
  | nil => rfl
  | cons n rest ih => rw [bareAll, ih, List.map_cons]

theorem isParagraph_bare (n : Node) : n.bare.isParagraph = n.isParagraph := by
  cases n <;> rfl

end Node

namespace Layout

variable {parser : LatexParser}

theorem isInList_bare (n : Node) (above : List Node) :
    isInList (n.bare :: above) = isInList (n :: above) := by
  cases n <;> rfl

theorem offence_bare (images : ImageTable) (above : List Node) (n : Node) :
    offence images ⟨above, n.bare⟩ = offence images ⟨above, n⟩ := by
  cases n <;> rfl

theorem sources_bare (n : Node) : sources n.bare = sources n := by
  cases n <;> rfl

theorem close_bare (ctx : Context) (n : Node) : close parser ctx n.bare = close parser ctx n := by
  cases n <;> rfl

/-- The nodes without what their document does not show, in the contexts that they had. -/
def bareWithin (nodes : List (Node × Context)) : List (Node × Context) :=
  nodes.map fun e => (e.1.bare, e.2)

theorem bareWithin_pair (nodes : List Node) (ctx : Context) :
    bareWithin (nodes.map (·, ctx)) = (Node.bareAll nodes).map (·, ctx) := by
  rw [bareWithin, Node.bareAll_eq_map, List.map_map, List.map_map]
  rfl

theorem bareWithin_boxes (f : Option Bool → Context) (checked : Option Bool) (nodes : List Node) :
    bareWithin ((boxes checked nodes).map fun e => (e.1, f e.2)) =
      (boxes checked (Node.bareAll nodes)).map fun e => (e.1, f e.2) := by
  induction nodes generalizing checked with
  | nil => rfl
  | cons n rest ih =>
    rw [Node.bareAll, boxes, boxes, List.map_cons, List.map_cons, Node.isParagraph_bare, ← ih]
    rfl

theorem inside_bare (ctx : Context) (n : Node) : inside ctx n.bare = bareWithin (inside ctx n) := by
  cases n with
  | listItem checked spread cs => exact (bareWithin_boxes ctx.withChecked checked cs).symm
  | paragraph | heading | blockquote | list | tableRow | tableCell | footnoteDefinition | emphasis
  | strong | delete | link => exact (bareWithin_pair _ _).symm
  | _ => rfl

theorem yieldAll_bareWithin (nodes : List (Node × Context)) (above : List Node) :
    yieldAll parser above (bareWithin nodes) = yieldAll parser above nodes := by
  refine yieldAll_induct (P := fun above n ctx m => yieldNode parser above n.bare ctx = m)
    (Q := fun above nodes m => yieldAll parser above (bareWithin nodes) = m) ?_ ?_ ?_ ?_ nodes above
  · intro above n ctx e hOffence
    rw [← offence_bare] at hOffence
    exact yieldNode_of_offence hOffence
  · intro above n ctx inner hOffence ih
    rw [← offence_bare] at hOffence
    -- The bare node stands above those inside it, and is a list exactly if the node was one.
    rw [yieldNode_of_allowed hOffence, inside_bare, yieldAll_above _ (isInList_bare n above), ih,
      sources_bare, close_bare]
  · intro above
    exact yieldAll_nil
  · intro above n ctx rest first others ihFirst ihRest
    rw [bareWithin, List.map_cons, yieldAll_cons, ihFirst]
    change (_ >>= fun first => yieldAll parser above (bareWithin rest) >>= _) = _
    rw [ihRest]

theorem result_layAll_bareAll (nodes : List Node) (ctx : Context) :
    (layAll parser (Node.bareAll nodes) ctx {}).result = (layAll parser nodes ctx {}).result := by
  rw [result_layAll, result_layAll, ← bareWithin_pair, yieldAll_bareWithin]

/-- The addresses of the images outside tables and link references. -/
def shownUrls (nodes : List Node) : List String :=
  (Site.ofNodes showsInside [] nodes).filterMap fun p => p.node.imageUrl?

end Layout

namespace Config

open Layout (shownUrls)

/-- Trees that differ only in what is not shown, with tables of images that differ only in images that
are not shown, are laid out to the same document or fail with the same error. -/
theorem layOut_eq_of_bare_eq (config : Config) {tree other : Tree} {images images' : ImageTable}
    (hTree : Node.bareAll tree.children = Node.bareAll other.children)
    (hImages : ∀ url ∈ shownUrls tree.children, images.find? url = images'.find? url) :
    (config.layOut tree images).result = (config.layOut other images').result := by
  have hAgree : ∀ p ∈ Site.ofNodes Layout.showsInside [] tree.children,
      Layout.Agree images images' p.node :=
    fun p hp url hUrl => hImages url (List.mem_filterMap.mpr ⟨p, hp, hUrl⟩)
  have hLaid : (Layout.layAll config.latex tree.children (.root images) {}).result =
      (Layout.layAll config.latex other.children (.root images') {}).result := by
    calc
      _ = (Layout.layAll config.latex tree.children (.root images') {}).result :=
        (Layout.layAll_withImages config.latex tree.children (.root images) hAgree).symm
      _ = (Layout.layAll config.latex (Node.bareAll tree.children) (.root images') {}).result :=
        (Layout.result_layAll_bareAll _ _).symm
      _ = (Layout.layAll config.latex (Node.bareAll other.children) (.root images') {}).result := by
        rw [hTree]
      _ = (Layout.layAll config.latex other.children (.root images') {}).result :=
        Layout.result_layAll_bareAll _ _
  rw [result_layOut, result_layOut, hLaid]

theorem layOut_of_reshaped_table :
    let image : ImageData := ⟨[1], 2, 3⟩
    let tree : Tree :=
      ⟨[.list (some true) (some 3) none
          [.listItem none (some true) [.paragraph [.image "a" none none]]],
        .table (some [some "left"]) [.tableRow [.tableCell [.image "b" none (some "b")]]],
        .link "c" (some "t") [.code (some "lean") none "d"], .yaml "e"]⟩
    let other : Tree :=
      ⟨[.list none none (some false) [.listItem none none [.paragraph [.image "a" (some "t") none]]],
        .table none [.heading 9 []], .link "c" none [.code none (some "m") "d"], .yaml "f"]⟩
    let images : ImageTable := ⟨[("a", image), ("b", image)], by decide⟩
    let images' : ImageTable := ⟨[("a", image)], by decide⟩
    Node.bareAll tree.children = Node.bareAll other.children ∧
      (∀ url ∈ shownUrls tree.children, images.find? url = images'.find? url) ∧
      ∃ document, (({} : Config).layOut tree images).result = .ok document ∧
        (({} : Config).layOut other images').result = .ok document := by
  intro image tree other images images'
  have hTree : Node.bareAll tree.children = Node.bareAll other.children := rfl
  have hImages : ∀ url ∈ shownUrls tree.children, images.find? url = images'.find? url := by
    have hShown : shownUrls tree.children = ["a"] := by
      simp [tree, shownUrls, Site.ofNode, Layout.showsInside, Node.hidesInside, Node.children,
        Node.imageUrl?]
    rw [hShown]
    decide
  have hLaid : ∃ document, (({} : Config).layOut tree images).result = .ok document := ⟨_, rfl⟩
  obtain ⟨document, hDocument⟩ := hLaid
  have hSame := ({} : Config).layOut_eq_of_bare_eq hTree hImages
  exact ⟨hTree, hImages, document, hDocument, hSame.symm.trans hDocument⟩

end Config

end Manuscript
