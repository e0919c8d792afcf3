import Manuscript.Proofs.Layout.Leaves

/-!
# Boxes of task items

The box of a task item goes to the first paragraph that stands directly in the item, in front of all
runs of that paragraph. From there it is in force at everything inside up to the next list, so each
paragraph that stands inside the first one without a list in between gets a box of its own; where no
paragraph stands like that, every task item with a paragraph is marked once.
-/

namespace Manuscript

/-! ## The side of the tree -/

namespace Node

/-- The nodes inside a node, each with the box in force at it. An item puts its own box at its first
paragraph, and in a list no box is in force but those of the items. -/
def boxed (box : Option Bool) : Node → List (Node × Option Bool)
  | .listItem checked _ cs =>
    cs.zipIdx.map fun e => (e.1, if e.2 = cs.findIdx isParagraph then checked else none)
  | .list _ _ _ cs => cs.map (·, none)
  | n => n.children.map (·, box)

/-- Whether a box that is in force at a node ends there. -/
def endsBox : Node → Bool
  | .list .. | .listItem .. => true
  | _ => false

def checked? : Node → Option Bool
  | .listItem checked .. => checked
  | _ => none

/-- The first paragraph that stands directly in an item. -/
def firstParagraph? : Node → Option Node
  | .listItem _ _ cs => cs.find? isParagraph
  | _ => none

/-- The box of a task item that has a paragraph. -/
def taskBox? (n : Node) : Option Bool :=
  if n.firstParagraph?.isSome then n.checked? else none

theorem boxed_of_not_endsBox (box : Option Bool) {n : Node} (h : n.endsBox = false) :
    n.boxed box = n.children.map (·, box) := by
  cases n with
  | list | listItem => cases h
  | _ => rfl

theorem map_fst_boxed (box : Option Bool) (n : Node) : (n.boxed box).map Prod.fst = n.children := by
  cases n with
  | listItem checked spread cs =>
    rw [boxed, List.map_map]
    exact List.zipIdx_map_fst 0 cs
  | _ => simp [boxed, children, Function.comp_def]

theorem sizeOf_boxed (box : Option Bool) (n : Node) :
    sizeOf ((n.boxed box).map Prod.fst) ≤ sizeOf n := by
  rw [map_fst_boxed]
  exact n.sizeOf_children

end Node

/-- What can be seen of an item of content: whether it is a whole paragraph, and its runs with the
addresses of the links around them. -/
structure Shown where
  whole : Bool
  runs : List LinkedRun

namespace Layout

/-- What a node shows, at which some box is in force, given what the nodes inside it show. -/
def shownOf (parser : LatexParser) (start : Context) (box : Option Bool) (p : Site)
    (inner : List Shown) : List Shown :=
  match p.node with
  | .paragraph _ =>
    [⟨true, (box.map fun b => ⟨linksOf p.above, .checkBox b⟩).toList ++ inner.flatMap Shown.runs⟩]
  | .heading .. => [⟨true, inner.flatMap Shown.runs⟩]
  | .link .. => [⟨false, inner.flatMap Shown.runs⟩]
  | .blockquote _ | .list .. | .listItem .. | .emphasis _ | .strong _ | .delete _ | .tableRow _
  | .tableCell _ => inner
  | .thematicBreak | .html _ | .code .. | .table .. => [⟨true, runsAt parser start p⟩]
  | .math .. => (runsAt parser start p).map fun run => ⟨true, [run]⟩
  | .text _ | .inlineCode _ | .lineBreak | .image .. | .footnoteReference .. | .inlineMath _ =>
    (runsAt parser start p).map fun run => ⟨false, [run]⟩
  | .yaml _ | .toml _ | .definition .. | .footnoteDefinition .. | .linkReference ..
  | .imageReference .. => []

mutual

def shownIn (parser : LatexParser) (start : Context) (above : List Node) (n : Node)
    (box : Option Bool) : List Shown :=
  shownOf parser start box ⟨above, n⟩ (shownInAll parser start (n :: above) (n.boxed box))
termination_by 2 * sizeOf n + 1
decreasing_by
  have := n.sizeOf_boxed box
  omega

def shownInAll (parser : LatexParser) (start : Context) (above : List Node)
    (nodes : List (Node × Option Bool)) : List Shown :=
  match nodes with
  | [] => []
  | (n, box) :: rest =>
    shownIn parser start above n box ++ shownInAll parser start above rest
termination_by 2 * sizeOf (nodes.map Prod.fst)

end

theorem shownInAll_nil (parser : LatexParser) (start : Context) (above : List Node) :
    shownInAll parser start above [] = [] := by
  rw [shownInAll]

theorem shownInAll_cons (parser : LatexParser) (start : Context) (above : List Node) (n : Node)
    (box : Option Bool) (rest : List (Node × Option Bool)) :
    shownInAll parser start above ((n, box) :: rest) =
      shownIn parser start above n box ++ shownInAll parser start above rest := by
  rw [shownInAll]

end Layout

/-! ## The side of the document -/

mutual

/-- The runs in a run, inside some links, the boxes of task items among them. -/
def Inline.linked (links : List String) : Inline → List LinkedRun
  | .hyperlink url children => Inline.linkedAll (links ++ [url]) children
  | run => [⟨links, run⟩]

def Inline.linkedAll (links : List String) : List Inline → List LinkedRun
  | [] => []
  | run :: rest => run.linked links ++ Inline.linkedAll links rest

end

theorem Inline.linkedAll_append (links : List String) (runs more : List Inline) :
    linkedAll links (runs ++ more) = linkedAll links runs ++ linkedAll links more := by
  induction runs with
  | nil => rw [linkedAll, List.nil_append, List.nil_append]
  | cons run rest ih => rw [List.cons_append, linkedAll, linkedAll, ih, List.append_assoc]

namespace Content

def shown (links : List String) : Content → Shown
  | .block p => ⟨true, Inline.linkedAll links p.children⟩
  | .inline run => ⟨false, run.linked links⟩

theorem linkedAll_runs (links : List String) (content : List Content) :
    Inline.linkedAll links (runs content) =
      (content.map (Content.shown links)).flatMap Shown.runs := by
  induction content with
  | nil => rfl
  | cons item rest ih =>
    change Inline.linkedAll links (_ ++ runs rest) = _
    rw [Inline.linkedAll_append, ih, List.map_cons, List.flatMap_cons]
    cases item with
    | block p => rfl
    | inline run => exact congrArg (· ++ _) (List.append_nil _)

end Content

def LinkedRun.boxes (runs : List LinkedRun) : List Bool :=
  runs.filterMap fun r => match r.run with
    | .checkBox checked => some checked
    | _ => none

/-- The boxes of some paragraphs in their order, those inside links among them. -/
def Paragraph.boxes (body : List Paragraph) : List Bool :=
  LinkedRun.boxes (Inline.linkedAll [] (body.flatMap Paragraph.children))

/-- The box in force in a context. -/
def Context.box (ctx : Context) : Option Bool :=
  ctx.list.bind ListPlace.checked

namespace Layout

variable {parser : LatexParser}

/-! ## Boxes are where the tree has them -/

/-- A context under some nodes, of a walk that began with another one, which can hold the box of an
item wherever an item may stand. -/
structure Boxing (start : Context) (above : List Node) (ctx : Context) : Prop where
  under : Under start above ctx
  listed : isInList above = true → ctx.list.isSome = true

theorem Boxing.inside {start ctx : Context} {above : List Node} {n : Node}
    (h : Boxing start above ctx) {e : Node × Context} (he : e ∈ inside ctx n) :
    Boxing start (n :: above) e.2 := by
  refine ⟨h.under.inside he, ?_⟩
  cases n with
  | list ordered first spread cs =>
    intro _
    obtain ⟨_, _, rfl⟩ := List.mem_map.mp he
    rfl
  | _ => exact nofun

theorem box_withChecked {ctx : Context} (h : ctx.list.isSome = true) (checked : Option Bool) :
    (ctx.withChecked checked).box = checked := by
  obtain ⟨place, hPlace⟩ := Option.isSome_iff_exists.mp h
  rw [Context.box, Context.withChecked, hPlace]
  rfl

/-- The box goes past the nodes in front of the first paragraph and not past that. -/
theorem boxes_eq_map_zipIdx (checked : Option Bool) (cs : List Node) (first : Nat) :
    boxes checked cs =
      (cs.zipIdx first).map fun e =>
        (e.1, if e.2 = first + cs.findIdx Node.isParagraph then checked else none) := by
  induction cs generalizing checked first with
  | nil => rfl
  | cons n rest ih =>
    rw [boxes, List.zipIdx_cons, List.map_cons, List.findIdx_cons]
    cases n.isParagraph with
    | true =>
      have hLater : ∀ e ∈ rest.zipIdx (first + 1), e.2 ≠ first := by
        intro e he hSame
        have := List.le_snd_of_mem_zipIdx he
        omega
      have hNone := ih none (first + 1)
      simp only [ite_self] at hNone
      rw [if_pos rfl, if_pos rfl, hNone]
      simp only [cond_true, Nat.add_zero, if_true]
      congr 1
      refine List.map_congr_left fun e he => ?_
      rw [if_neg (hLater e he)]
    | false =>
      have hNext := ih checked (first + 1)
      rw [if_neg nofun, if_neg nofun, hNext]
      have hHead : first ≠ first + (rest.findIdx Node.isParagraph + 1) := by omega
      simp only [cond_false, if_neg hHead, Nat.add_assoc, Nat.add_comm 1]

theorem map_inside_box {start ctx : Context} {above : List Node} {n : Node}
    (h : Boxing start above ctx) (hShows : n.hidesInside = false)
    (hOffence : offence ctx.images ⟨above, n⟩ = none) :
    (inside ctx n).map (fun e => (e.1, e.2.box)) = n.boxed ctx.box := by
  cases n with
  | listItem checked spread cs =>
    have hListed : ctx.list.isSome = true := by
      apply h.listed
      cases hAbove : isInList above with
      | true => rfl
      | false =>
        rw [offence_outside ctx.images _ hAbove] at hOffence
        cases hOffence
    rw [inside, List.map_map, Node.boxed, boxes_eq_map_zipIdx checked cs 0, List.map_map]
    simp [Function.comp_def, box_withChecked hListed]
  | table | linkReference => cases hShows
  | _ => exact List.map_map

/-- A run that is no link is itself, inside the links around it. -/
theorem shown_map_inline {α : Type} (links : List String) (f : α → Inline)
    (hPlain : ∀ x, (f x).linked links = [⟨links, f x⟩]) (xs : List α) :
    (xs.map (Content.inline ∘ f)).map (Content.shown links) =
      ((xs.map f).map (LinkedRun.mk links)).map fun run => ⟨false, [run]⟩ := by
  rw [List.map_map, List.map_map, List.map_map]
  refine List.map_congr_left fun x _ => ?_
  exact congrArg (Shown.mk false) (hPlain x)

theorem linkedAll_checkBox (links : List String) (ctx : Context) :
    Inline.linkedAll links ctx.checkBox = (ctx.box.map fun b => ⟨links, .checkBox b⟩).toList := by
  rw [Context.checkBox, Context.box]
  cases ctx.list.bind ListPlace.checked <;> rfl

theorem shown_close {start ctx : Context} {above : List Node} {n : Node} {inner : Laid}
    (h : Boxing start above ctx) (hOffence : offence ctx.images ⟨above, n⟩ = none)
    (ih : n.hidesInside = false → inner.content.map (Content.shown (linksOf (n :: above))) =
      shownInAll parser start (n :: above) (n.boxed ctx.box)) :
    (close parser ctx n inner).content.map (Content.shown (linksOf above)) =
      shownIn parser start above n ctx.box := by
  rw [shownIn]
  -- Only a link puts an address around the runs inside; for all other nodes it adds nothing.
  rw [linksOf_cons] at ih
  cases n with
  | paragraph cs =>
    have hInner := ih rfl
    rw [shownOf, ← hInner]
    change [Shown.mk true (Inline.linkedAll _ (ctx.checkBox ++ Content.runs inner.content))] = _
    rw [Inline.linkedAll_append, linkedAll_checkBox, Content.linkedAll_runs]
    simp [Node.linkUrl?]
  | heading depth cs =>
    have hInner := ih rfl
    rw [shownOf, ← hInner]
    change [Shown.mk true (Inline.linkedAll _ (Content.runs inner.content))] = _
    rw [Content.linkedAll_runs]
    simp [Node.linkUrl?]
  | link url title cs =>
    have hInner := ih rfl
    rw [shownOf, ← hInner]
    change [Shown.mk false (Inline.linked _ (.hyperlink url (Content.runs inner.content)))] = _
    rw [Inline.linked, Content.linkedAll_runs]
    rfl
  | blockquote | list | listItem | emphasis | strong | delete =>
    have hInner := ih rfl
    rw [← List.append_nil (linksOf above)]
    exact hInner
  | thematicBreak | html | code | table | inlineCode | lineBreak | inlineMath => rfl
  | yaml | toml | definition | footnoteDefinition | linkReference | imageReference => rfl
  | text value =>
    rw [close, h.under.decoration]
    rfl
  | math info source =>
    rw [shownOf, runsAt, ownRuns, close, Latex.blockMath]
    simp only [List.map_map]
    rfl
  | image url title alt =>
    rw [close, h.under.images]
    exact shown_map_inline _ _ (fun _ => rfl) _
  | footnoteReference identifier label =>
    rw [close, toOption_footnoteNumber, shown_map_inline _ _ (fun _ => rfl), Option.toList_map,
      shownOf, runsAt, ownRuns]
    simp only [List.map_map]
    rfl
  | tableRow | tableCell => cases nodeOffence_of_allowed hOffence (by rintro ⟨⟩)

/-- What nodes yield shows the boxes where the tree has them. -/
theorem shown_yieldAll {start : Context} {above : List Node} {nodes : List (Node × Context)}
    {laid : Laid} (hBoxing : ∀ e ∈ nodes, Boxing start above e.2)
    (hLaid : (yieldAll parser above nodes).result = .ok laid) :
    laid.content.map (Content.shown (linksOf above)) =
      shownInAll parser start above (nodes.map fun e => (e.1, e.2.box)) := by
  refine yieldAll_induct_ok
    (P := fun above n ctx laid => Boxing start above ctx →
      laid.content.map (Content.shown (linksOf above)) = shownIn parser start above n ctx.box)
    (Q := fun above nodes laid => (∀ e ∈ nodes, Boxing start above e.2) →
      laid.content.map (Content.shown (linksOf above)) =
        shownInAll parser start above (nodes.map fun e => (e.1, e.2.box)))
    ?_ ?_ ?_ hLaid hBoxing
  · intro above n ctx inner hOffence ih hBoxing
    refine shown_close hBoxing hOffence fun hShows => ?_
    rw [← map_inside_box hBoxing hShows hOffence]
    exact ih fun e he => hBoxing.inside he
  · intro above _
    rw [List.map_nil, List.map_nil, shownInAll_nil]
  · intro above n ctx rest first others ihFirst ihRest hBoxing
    rw [Laid.content_merge, List.map_append, ihFirst (hBoxing (n, ctx) List.mem_cons_self),
      ihRest fun e he => hBoxing e (List.mem_cons_of_mem _ he), List.map_cons, shownInAll_cons]

/-! ## How many boxes -/

/-- Whether the box in force at a node is in force at the nodes inside. -/
def keepsBox (p : Site) : Bool :=
  p.node.holdsLeaves && !p.node.endsBox

/-- The boxes that a box in force at a node comes to: one for each paragraph it gets to. -/
def boxesFrom (above : List Node) (e : Node × Option Bool) : List Bool :=
  e.2.toList.flatMap fun checked =>
    ((Site.ofNode keepsBox above e.1).filter (·.node.isParagraph)).map fun _ => checked

/-- The boxes that an item gives. -/
def boxesGiven (p : Site) : List Bool :=
  p.node.firstParagraph?.toList.flatMap fun first =>
    boxesFrom (p.node :: p.above) (first, p.node.checked?)

theorem boxesFrom_none (above : List Node) (n : Node) : boxesFrom above (n, none) = [] := rfl

theorem boxesFrom_of_not_keeps {above : List Node} {n : Node} (box : Option Bool)
    (hKeeps : keepsBox ⟨above, n⟩ = false) (hNo : n.isParagraph = false) :
    boxesFrom above (n, box) = [] := by
  cases box with
  | none => rfl
  | some checked => simp [boxesFrom, Site.ofNode, hKeeps, hNo]

/-- A box in force at a node gets to the node if that is a paragraph and to all nodes inside. -/
theorem boxesFrom_of_keeps {above : List Node} {n : Node} (box : Option Bool)
    (hKeeps : keepsBox ⟨above, n⟩ = true) :
    boxesFrom above (n, box) =
      (if n.isParagraph then box.toList else []) ++
        n.children.flatMap fun m => boxesFrom (n :: above) (m, box) := by
  cases box with
  | none => simp [boxesFrom]
  | some checked =>
    have hInside : ∀ nodes : List Node,
        ((Site.ofNodes keepsBox (n :: above) nodes).filter (·.node.isParagraph)).map
            (fun _ => checked) =
          nodes.flatMap fun m => boxesFrom (n :: above) (m, some checked) := by
      intro nodes
      induction nodes with
      | nil => simp
      | cons m rest ih =>
        rw [Site.ofNodes_cons, List.filter_append, List.map_append, ih, List.flatMap_cons]
        simp [boxesFrom]
    rw [← hInside]
    simp only [boxesFrom, Option.toList_some, List.flatMap_singleton]
    rw [Site.ofNode, hKeeps, List.filter_cons]
    cases n.isParagraph <;> rfl

theorem flatMap_boxes {α : Type} {f : Node × Option Bool → List α} (hNone : ∀ n, f (n, none) = [])
    (checked : Option Bool) (cs : List Node) :
    (boxes checked cs).flatMap f =
      (cs.find? Node.isParagraph).toList.flatMap fun n => f (n, checked) := by
  induction cs generalizing checked with
  | nil => rfl
  | cons n rest ih =>
    rw [boxes, List.flatMap_cons, ih, List.find?_cons]
    cases n.isParagraph with
    | true => simp [hNone]
    | false => simp [hNone]

/-- What a node puts at itself and at the nodes inside is what it was given and what it gives. -/
theorem boxes_inside (above : List Node) (n : Node) (box : Option Bool) :
    (if n.isParagraph then box.toList else []) ++
        (if n.holdsLeaves then (n.boxed box).flatMap (boxesFrom (n :: above)) else []) =
      boxesFrom above (n, box) ++ boxesGiven ⟨above, n⟩ := by
  cases n with
  | listItem checked spread cs =>
    rw [boxesFrom_of_not_keeps box rfl rfl]
    have hBoxed : (Node.listItem checked spread cs).boxed box = boxes checked cs := by
      rw [Node.boxed, boxes_eq_map_zipIdx checked cs 0]
      simp
    rw [hBoxed]
    exact flatMap_boxes (boxesFrom_none _) checked cs
  | list ordered first spread cs =>
    rw [boxesFrom_of_not_keeps box rfl rfl]
    simp [Node.boxed, Node.isParagraph, List.flatMap_map, boxesFrom_none, boxesGiven,
      Node.firstParagraph?]
  | table | linkReference | footnoteDefinition =>
    rw [boxesFrom_of_not_keeps box rfl rfl]
    rfl
  | _ =>
    rw [boxesFrom_of_keeps box rfl, Node.boxed_of_not_endsBox box rfl, List.flatMap_map]
    exact (List.append_nil _).symm

def boxesOf (shown : List Shown) : List Bool :=
  LinkedRun.boxes (shown.flatMap Shown.runs)

theorem boxesOf_append (shown more : List Shown) :
    boxesOf (shown ++ more) = boxesOf shown ++ boxesOf more := by
  rw [boxesOf, List.flatMap_append, LinkedRun.boxes, List.filterMap_append]
  rfl

theorem boxes_runsAt (start : Context) (p : Site) :
    LinkedRun.boxes (runsAt parser start p) = [] := by
  rw [LinkedRun.boxes, runsAt, List.filterMap_map, List.filterMap_eq_nil_iff]
  intro run hRun
  obtain ⟨above, n⟩ := p
  cases n with
  | image | math | footnoteReference =>
    obtain ⟨_, -, rfl⟩ := List.mem_map.mp hRun
    rfl
  | text | inlineCode | html | code | lineBreak | table | inlineMath =>
    obtain rfl := List.mem_singleton.mp hRun
    rfl
  | _ => cases hRun

theorem boxesOf_shownOf (start : Context) (above : List Node) (n : Node) (box : Option Bool)
    {inner : List Shown} (hLeaf : n.children = [] → inner = []) :
    boxesOf (shownOf parser start box ⟨above, n⟩ inner) =
      (if n.isParagraph then box.toList else []) ++
        if n.holdsLeaves then boxesOf inner else [] := by
  have hOwn (whole : Bool) :
      boxesOf ((runsAt parser start ⟨above, n⟩).map fun run => ⟨whole, [run]⟩) = [] := by
    rw [boxesOf, List.flatMap_map, List.flatMap_singleton']
    exact boxes_runsAt start _
  have hWhole : boxesOf [⟨true, runsAt parser start ⟨above, n⟩⟩] = [] := by
    rw [boxesOf, List.flatMap_singleton]
    exact boxes_runsAt start _
  cases n with
  | paragraph cs =>
    rw [shownOf, boxesOf, List.flatMap_singleton, LinkedRun.boxes, List.filterMap_append]
    cases box <;> rfl
  | heading | link => rw [shownOf, boxesOf, List.flatMap_singleton]; rfl
  | blockquote | list | listItem | emphasis | strong | delete | tableRow | tableCell => rfl
  | linkReference | footnoteDefinition => rfl
  | table => exact hWhole
  | thematicBreak | html | code =>
    rw [hLeaf rfl]
    exact hWhole
  | text | inlineCode | lineBreak | image | footnoteReference | inlineMath | math =>
    rw [hLeaf rfl]
    exact hOwn _
  | yaml | toml | definition | imageReference =>
    rw [hLeaf rfl]
    rfl

theorem boxesOf_shownIn (parser : LatexParser) (start : Context) :
    (∀ n above box,
        (boxesOf (shownIn parser start above n box)).Perm
          (boxesFrom above (n, box) ++
            (Site.ofNode (fun p => p.node.holdsLeaves) above n).flatMap boxesGiven)) ∧
      ∀ nodes above pairs, pairs.map Prod.fst = nodes →
        (boxesOf (shownInAll parser start above pairs)).Perm
          (pairs.flatMap (boxesFrom above) ++
            (Site.ofNodes (fun p => p.node.holdsLeaves) above nodes).flatMap boxesGiven) := by
  refine Node.inductInside (fun n ih above box => ?_) (fun above pairs hNil => ?_)
    (fun n rest ihNode ihRest above pairs hPairs => ?_)
  · have hInner := ih (n :: above) (n.boxed box) (n.map_fst_boxed box)
    rw [shownIn, boxesOf_shownOf, Site.flatMap_ofNode, ← List.append_assoc, ← boxes_inside,
      List.append_assoc]
    · refine .append_left _ ?_
      cases n.holdsLeaves with
      | true => exact hInner
      | false => exact .nil
    · intro hLeaf
      have hNil : n.boxed box = [] := List.map_eq_nil_iff.mp ((n.map_fst_boxed box).trans hLeaf)
      rw [hNil, shownInAll_nil]
  · rw [List.map_eq_nil_iff.mp hNil, shownInAll_nil, Site.ofNodes_nil]
    exact .nil
  · obtain ⟨⟨m, box⟩, others, rfl, rfl, rfl⟩ := List.map_eq_cons_iff.mp hPairs
    rw [shownInAll_cons, boxesOf_append, List.flatMap_cons, Site.ofNodes_cons, List.flatMap_append]
    have hFirst := (ihNode above box).append (ihRest above others rfl)
    refine hFirst.trans ?_
    rw [List.perm_iff_count]
    intro checked
    simp only [List.count_append]
    omega

/-- The sites inside the first paragraph of an item at which the box of the item is in force. -/
def insideFirst (p : Site) : List Site :=
  p.node.firstParagraph?.toList.flatMap fun first =>
    Site.ofNodes keepsBox (first :: p.node :: p.above) first.children

/-- The boxes that an item gives besides the one of its first paragraph. -/
def extraBoxes (p : Site) : List Bool :=
  p.node.checked?.toList.flatMap fun checked =>
    ((insideFirst p).filter (·.node.isParagraph)).map fun _ => checked

/-- The sites in some nodes, without those in tables, link references and footnotes. -/
def textSites (nodes : List Node) : List Site :=
  Site.ofNodes (fun p => p.node.holdsLeaves) [] nodes

/-- The boxes of the task items in some nodes. -/
def taskBoxes (nodes : List Node) : List Bool :=
  (textSites nodes).filterMap fun p => p.node.taskBox?

/-- No paragraph stands inside the first paragraph of a task item without a list in between. -/
def PlainItems (nodes : List Node) : Prop :=
  ∀ p ∈ textSites nodes, p.node.checked?.isSome = true →
    ∀ q ∈ insideFirst p, q.node.isParagraph = false

theorem boxesFrom_paragraph (above cs : List Node) (checked : Bool) :
    boxesFrom above (.paragraph cs, some checked) =
      checked ::
        ((Site.ofNodes keepsBox (.paragraph cs :: above) cs).filter (·.node.isParagraph)).map
          fun _ => checked := by
  simp only [boxesFrom, Option.toList_some, List.flatMap_singleton]
  rw [Site.ofNode]
  rfl

theorem boxesGiven_eq (p : Site) :
    boxesGiven p = p.node.taskBox?.toList ++ extraBoxes p := by
  rw [boxesGiven, Node.taskBox?, extraBoxes, insideFirst]
  cases hFirst : p.node.firstParagraph? with
  | none => simp
  | some first =>
    cases p.node.checked? with
    | none => rfl
    | some checked =>
      have hParagraph : first.isParagraph = true := by
        obtain ⟨above, n⟩ := p
        cases n with
        | listItem => exact List.find?_some hFirst
        | _ => cases hFirst
      cases first with
      | paragraph cs =>
        simp only [Option.toList_some, List.flatMap_singleton, boxesFrom_paragraph]
        rfl
      | _ => cases hParagraph

theorem extraBoxes_eq_nil_iff (p : Site) :
    extraBoxes p = [] ↔
      (p.node.checked?.isSome = true → ∀ q ∈ insideFirst p, q.node.isParagraph = false) := by
  rw [extraBoxes]
  cases p.node.checked? <;> simp

theorem flatMap_boxesGiven_perm (sites : List Site) :
    (sites.flatMap boxesGiven).Perm
      ((sites.filterMap fun p => p.node.taskBox?) ++ sites.flatMap extraBoxes) := by
  induction sites with
  | nil => exact .nil
  | cons p rest ih =>
    have hRest : (extraBoxes p ++ rest.flatMap boxesGiven).Perm
        ((rest.filterMap fun p => p.node.taskBox?) ++
          (extraBoxes p ++ rest.flatMap extraBoxes)) :=
      (ih.append_left _).trans (List.perm_append_comm_assoc _ _ _)
    rw [List.flatMap_cons, boxesGiven_eq, List.filterMap_cons, List.flatMap_cons]
    cases p.node.taskBox? with
    | none => exact hRest
    | some checked => exact hRest.cons checked

theorem flatMap_extraBoxes_eq_nil_iff (nodes : List Node) :
    (textSites nodes).flatMap extraBoxes = [] ↔ PlainItems nodes := by
  rw [List.flatMap_eq_nil_iff]
  exact forall_congr' fun p => imp_congr_right fun _ => extraBoxes_eq_nil_iff p

/-- The boxes of a document that nodes are laid out to stand where the tree has them: each task item
gives one to its first paragraph, in front of all other runs there, and one to each paragraph inside
that one without a list in between. So every task item is marked once where there are no such
paragraphs, and only there. -/
theorem boxes_of_layAll {nodes : List Node} {images : ImageTable} {laid : Laid}
    (h : (layAll parser nodes (.root images) {}).result = .ok laid) :
    laid.content.map (Content.shown []) =
        shownInAll parser (.root images) [] (nodes.map (·, none)) ∧
      (Paragraph.boxes (Content.paragraphs laid.content)).Perm
        (taskBoxes nodes ++ (textSites nodes).flatMap extraBoxes) ∧
      ((Paragraph.boxes (Content.paragraphs laid.content)).Perm (taskBoxes nodes) ↔
        PlainItems nodes) := by
  have hBoxing : ∀ e ∈ nodes.map (·, Context.root images), Boxing (.root images) [] e.2 := by
    intro e he
    rw [snd_of_mem_pair he]
    exact ⟨under_start _, nofun⟩
  rw [result_layAll] at h
  have hShown := shown_yieldAll hBoxing h
  rw [List.map_map] at hShown
  have hBoxes : Paragraph.boxes (Content.paragraphs laid.content) =
      boxesOf (shownInAll parser (.root images) [] (nodes.map (·, none))) := by
    rw [Paragraph.boxes, Content.flatMap_children_paragraphs, Content.linkedAll_runs]
    exact congrArg boxesOf hShown
  have hPerm : (Paragraph.boxes (Content.paragraphs laid.content)).Perm
      (taskBoxes nodes ++ (textSites nodes).flatMap extraBoxes) := by
    have hGiven := (boxesOf_shownIn parser (.root images)).2 nodes [] _ (map_fst_pair nodes none)
    have hNone : (nodes.map (·, (none : Option Bool))).flatMap (boxesFrom []) = [] := by
      rw [List.flatMap_eq_nil_iff]
      intro e he
      obtain ⟨n, _, rfl⟩ := List.mem_map.mp he
      exact boxesFrom_none [] n
    rw [hNone] at hGiven
    rw [hBoxes]
    exact hGiven.trans (flatMap_boxesGiven_perm _)
  refine ⟨hShown, hPerm, ?_⟩
  rw [← flatMap_extraBoxes_eq_nil_iff]
  constructor
  · intro hOnce
    have hLength := (hPerm.symm.trans hOnce).length_eq
    rw [List.length_append] at hLength
    exact List.eq_nil_of_length_eq_zero (by omega)
  · intro hNoExtra
    rw [hNoExtra, List.append_nil] at hPerm
    exact hPerm

theorem boxes_of_nested_items :
    let nodes : List Node :=
      [.list none none none
        [.listItem (some true) none
            [.blockquote [.paragraph [.text "a"]], .paragraph [.link "u" none [.text "b"]],
              .list none none none [.listItem (some false) none [.paragraph []]]],
          .listItem (some true) none [.thematicBreak]]]
    let laid : Laid :=
      { content :=
          [.block
              { numbering := some ⟨"ordered", 0⟩, indent := some { start := 720 }
                children := [.text { text := "a" }] },
            .block
              { numbering := some ⟨"ordered", 0⟩
                children := [.checkBox true, .hyperlink "u" [.text { text := "b" }]] },
            .block { numbering := some ⟨"ordered", 1⟩, children := [.checkBox false] },
            .block { thematicBreak := true }] }
    (layAll Latex.plain nodes (.root .empty) {}).result = .ok laid ∧
      PlainItems nodes ∧
        (Paragraph.boxes (Content.paragraphs laid.content)).Perm (taskBoxes nodes) := by
  intro nodes laid
  have hLaid : (layAll Latex.plain nodes (.root .empty) {}).result = .ok laid := rfl
  have hPlain : PlainItems nodes := by
    simp [PlainItems, textSites, nodes, Site.ofNode, insideFirst, keepsBox, Node.holdsLeaves, Node.children,
      Node.checked?, Node.firstParagraph?, Node.isParagraph]
  exact ⟨hLaid, hPlain, (boxes_of_layAll hLaid).2.2.mpr hPlain⟩

/-- A task item can be marked more than once. -/
theorem paragraph_in_paragraph_has_box :
    let nodes : List Node :=
      [.list none none none
        [.listItem (some true) none [.paragraph [.paragraph [.text "a"]]]]]
    ∃ laid, (layAll Latex.plain nodes (.root .empty) {}).result = .ok laid ∧
      Paragraph.boxes (Content.paragraphs laid.content) = [true, true] ∧
        taskBoxes nodes = [true] := by
  refine ⟨_, rfl, rfl, ?_⟩
  simp [taskBoxes, textSites, Site.ofNode, Node.holdsLeaves, Node.children, Node.taskBox?, Node.checked?,
    Node.firstParagraph?, Node.isParagraph]

end Layout

end Manuscript
