import Manuscript.Proofs.Layout.Yield

/-!
# Leaves and runs

The runs of a document are the leaves of its tree: none is lost, doubled, moved or styled in another
way. A leaf is met by the walk that goes in everywhere except into tables, link references and
footnotes; what it gives depends on itself, on the nodes around it and on where the walk began. Links
are undone on the side of the document, so that both sides list runs with the addresses of the links
around them.
-/

namespace Manuscript

/-! ## The side of the tree -/

namespace Node

def isEmphasis : Node → Bool
  | .emphasis _ => true
  | _ => false

def isStrong : Node → Bool
  | .strong _ => true
  | _ => false

def isDelete : Node → Bool
  | .delete _ => true
  | _ => false

def linkUrl? : Node → Option String
  | .link url .. => some url
  | _ => none

/-- Whether the leaves inside a node belong to the text around it. -/
def holdsLeaves : Node → Bool
  | .table .. | .linkReference .. | .footnoteDefinition .. => false
  | _ => true

end Node

/-- The decoration under some nodes, the innermost first, of a text that begins with `start`. -/
def Decoration.under (start : Decoration) (above : List Node) : Decoration :=
  { bold := start.bold || above.any Node.isStrong
    italic := start.italic || above.any Node.isEmphasis
    strikethrough := start.strikethrough || above.any Node.isDelete }

/-- A run and the addresses of the links around it, the outermost first. -/
structure LinkedRun where
  links : List String
  run : Inline

namespace Layout

/-- The addresses of the links among some nodes, the innermost node first. -/
def linksOf (above : List Node) : List String :=
  above.reverse.filterMap Node.linkUrl?

/-- The runs that a node itself gives, under some nodes. -/
def ownRuns (parser : LatexParser) (start : Context) (p : Site) : List Inline :=
  match p.node with
  | .text value =>
    let decoration := start.decoration.under p.above
    [.text
      { text := value
        bold := decoration.bold
        italics := decoration.italic
        strike := decoration.strikethrough }]
  | .inlineCode value | .html value | .code _ _ value => [.text { text := value }]
  | .lineBreak => [.text { breaks := 1 }]
  | .table .. => [.text { text := "[TABLE]", bold := true }]
  | .image url .. => (start.images.find? url).toList.map .image
  | .math _ source => (parser source).map .math
  | .inlineMath source => [.math (parser source).flatten]
  | .footnoteReference identifier _ =>
    (Text.numeral? UInt32.size identifier.toList).toList.map fun n => .footnoteReference (.ofNat n)
  | _ => []

def runsAt (parser : LatexParser) (start : Context) (p : Site) : List LinkedRun :=
  (ownRuns parser start p).map (LinkedRun.mk (linksOf p.above))

/-- The runs of the leaves of some nodes in the order of the document. -/
def leafRuns (parser : LatexParser) (start : Context) (nodes : List Node) : List LinkedRun :=
  (Site.ofNodes (fun p => p.node.holdsLeaves) [] nodes).flatMap (runsAt parser start)

end Layout

/-! ## The side of the document -/

mutual

/-- The runs in a run, inside some links, without the boxes of task items. -/
def Inline.unlink (links : List String) : Inline → List LinkedRun
  | .hyperlink url children => Inline.unlinkAll (links ++ [url]) children
  | .checkBox _ => []
  | run => [⟨links, run⟩]

def Inline.unlinkAll (links : List String) : List Inline → List LinkedRun
  | [] => []
  | run :: rest => run.unlink links ++ Inline.unlinkAll links rest

end

theorem Inline.unlinkAll_append (links : List String) (runs more : List Inline) :
    unlinkAll links (runs ++ more) = unlinkAll links runs ++ unlinkAll links more := by
  induction runs with
  | nil => rw [unlinkAll, List.nil_append, List.nil_append]
  | cons run rest ih => rw [List.cons_append, unlinkAll, unlinkAll, ih, List.append_assoc]

namespace Content

theorem runs_append (content more : List Content) :
    runs (content ++ more) = runs content ++ runs more :=
  List.flatMap_append

theorem flatMap_children_wrap (pending : List Inline) :
    (wrap pending).flatMap Paragraph.children = pending := by
  rw [wrap]
  split
  · rename_i h
    exact (List.isEmpty_iff.mp h).symm
  · simp

theorem flatMap_children_paragraphsAfter (content : List Content) (pending : List Inline) :
    (paragraphsAfter pending content).flatMap Paragraph.children = pending ++ runs content := by
  induction content generalizing pending with
  | nil => rw [paragraphsAfter, flatMap_children_wrap, runs, List.flatMap_nil, List.append_nil]
  | cons item rest ih =>
    cases item with
    | block p =>
      rw [paragraphsAfter, List.flatMap_append, flatMap_children_wrap, List.flatMap_cons, ih]
      rfl
    | inline run =>
      rw [paragraphsAfter, ih, List.append_assoc]
      rfl

theorem flatMap_children_paragraphs (content : List Content) :
    (paragraphs content).flatMap Paragraph.children = runs content :=
  flatMap_children_paragraphsAfter content []

end Content

namespace Layout

variable {parser : LatexParser}

/-- A context under some nodes, of a walk that began with another one. -/
structure Under (start : Context) (above : List Node) (ctx : Context) : Prop where
  decoration : ctx.decoration = start.decoration.under above
  images : ctx.images = start.images

theorem under_start (start : Context) : Under start [] start :=
  ⟨by simp [Decoration.under], rfl⟩

theorem Under.inside {start ctx : Context} {above : List Node} {n : Node}
    (h : Under start above ctx) {e : Node × Context} (he : e ∈ inside ctx n) :
    Under start (n :: above) e.2 := by
  refine ⟨?_, (images_of_mem_inside he).trans h.images⟩
  have hDecoration := h.decoration
  cases n with
  | listItem checked spread cs =>
    rw [Layout.inside] at he
    obtain ⟨_, _, rfl⟩ := List.mem_map.mp he
    exact hDecoration
  | emphasis cs =>
    obtain ⟨_, _, rfl⟩ := List.mem_map.mp he
    simp [Context.within, Context.withItalic, Decoration.under, hDecoration, Node.isEmphasis,
      Node.isStrong, Node.isDelete]
  | strong cs =>
    obtain ⟨_, _, rfl⟩ := List.mem_map.mp he
    simp [Context.within, Context.withBold, Decoration.under, hDecoration, Node.isEmphasis,
      Node.isStrong, Node.isDelete]
  | delete cs =>
    obtain ⟨_, _, rfl⟩ := List.mem_map.mp he
    simp [Context.within, Context.withStrikethrough, Decoration.under, hDecoration,
      Node.isEmphasis, Node.isStrong, Node.isDelete]
  | _ =>
    first
    | cases he
    | obtain ⟨_, _, rfl⟩ := List.mem_map.mp he
      exact hDecoration

theorem linksOf_cons (n : Node) (above : List Node) :
    linksOf (n :: above) = linksOf above ++ n.linkUrl?.toList := by
  rw [linksOf, List.reverse_cons, List.filterMap_append, linksOf]
  cases h : n.linkUrl? <;> simp [h]

theorem toOption_footnoteNumber (identifier : String) :
    (footnoteNumber identifier).toOption =
      (Text.numeral? UInt32.size identifier.toList).map UInt32.ofNat := by
  rw [footnoteNumber]
  cases Text.numeral? UInt32.size identifier.toList <;> rfl

def runsIn (parser : LatexParser) (start : Context) (above : List Node) (n : Node) :
    List LinkedRun :=
  (Site.ofNode (fun p => p.node.holdsLeaves) above n).flatMap (runsAt parser start)

def runsInAll (parser : LatexParser) (start : Context) (above : List Node) (nodes : List Node) :
    List LinkedRun :=
  (Site.ofNodes (fun p => p.node.holdsLeaves) above nodes).flatMap (runsAt parser start)

theorem runsInAll_nil (start : Context) (above : List Node) :
    runsInAll parser start above [] = [] := by
  rw [runsInAll, Site.ofNodes_nil, List.flatMap_nil]

theorem runsInAll_cons (start : Context) (above : List Node) (n : Node) (rest : List Node) :
    runsInAll parser start above (n :: rest) =
      runsIn parser start above n ++ runsInAll parser start above rest := by
  rw [runsInAll, Site.ofNodes_cons, List.flatMap_append]
  rfl

theorem runsIn_of_container {start : Context} {above : List Node} {n : Node}
    (hOwn : ownRuns parser start ⟨above, n⟩ = []) (hHolds : n.holdsLeaves = true) :
    runsIn parser start above n = runsInAll parser start (n :: above) n.children :=
  Site.flatMap_ofNode_of_enters (by rw [runsAt, hOwn, List.map_nil]) hHolds

theorem runsIn_of_leaf {start : Context} {above : List Node} {n : Node}
    (hInside : n.holdsLeaves = false ∨ n.children = []) :
    runsIn parser start above n =
      (ownRuns parser start ⟨above, n⟩).map (LinkedRun.mk (linksOf above)) :=
  Site.flatMap_ofNode_of_leaf hInside

/-- A run that is no link and no box is itself, inside the links around it. -/
theorem unlinkAll_map {α : Type} (links : List String) (f : α → Inline)
    (hPlain : ∀ x, (f x).unlink links = [⟨links, f x⟩]) (xs : List α) :
    Inline.unlinkAll links (xs.map f) = (xs.map f).map (LinkedRun.mk links) := by
  induction xs with
  | nil => rw [List.map_nil, Inline.unlinkAll, List.map_nil]
  | cons x rest ih => rw [List.map_cons, Inline.unlinkAll, hPlain, ih]; rfl

theorem unlinkAll_checkBox (links : List String) (ctx : Context) :
    Inline.unlinkAll links ctx.checkBox = [] := by
  rw [Context.checkBox]
  cases ctx.list.bind ListPlace.checked <;> rfl

theorem runs_map_inline {α : Type} (f : α → Inline) (xs : List α) :
    Content.runs (xs.map (Content.inline ∘ f)) = xs.map f := by
  induction xs with
  | nil => rfl
  | cons x rest ih => exact congrArg (f x :: ·) ih

theorem runs_blockMath (source : String) :
    Content.runs ((Latex.blockMath parser source).map .block) = (parser source).map .math := by
  rw [Latex.blockMath, Content.runs, List.map_map, List.flatMap_map]
  exact List.map_eq_flatMap.symm

/-- What a node makes of what the nodes inside it yield has the runs of its leaves. -/
theorem unlinkAll_close {start ctx : Context} {above : List Node} {n : Node} {inner : Laid}
    (h : Under start above ctx) (hOffence : offence ctx.images ⟨above, n⟩ = none)
    (ih : Inline.unlinkAll (linksOf (n :: above)) (Content.runs inner.content) =
      runsInAll parser start (n :: above) (if n.hidesInside then [] else n.children)) :
    Inline.unlinkAll (linksOf above) (Content.runs (close parser ctx n inner).content) =
      runsIn parser start above n := by
  -- Only a link puts an address around the runs inside; for all other nodes it adds nothing.
  rw [linksOf_cons] at ih
  cases n with
  | paragraph cs =>
    rw [runsIn_of_container rfl rfl, ← List.append_nil (linksOf above)]
    change Inline.unlinkAll _ (ctx.checkBox ++ Content.runs inner.content ++ []) = _
    rw [List.append_nil (_ ++ _), Inline.unlinkAll_append, unlinkAll_checkBox]
    exact ih
  | heading depth cs =>
    rw [runsIn_of_container rfl rfl, ← List.append_nil (linksOf above)]
    change Inline.unlinkAll _ (Content.runs inner.content ++ []) = _
    rw [List.append_nil (Content.runs _)]
    exact ih
  | blockquote | list | listItem | emphasis | strong | delete =>
    rw [runsIn_of_container rfl rfl, ← List.append_nil (linksOf above)]
    exact ih
  | link url title cs =>
    rw [runsIn_of_container rfl rfl]
    change Inline.unlinkAll _ [.hyperlink url (Content.runs inner.content)] = _
    rw [Inline.unlinkAll, Inline.unlink, Inline.unlinkAll, List.append_nil]
    exact ih
  | table | linkReference | footnoteDefinition =>
    rw [runsIn_of_leaf (.inl rfl)]
    rfl
  | thematicBreak | html | code | yaml | toml | definition | inlineCode | lineBreak
  | imageReference | inlineMath =>
    rw [runsIn_of_leaf (.inr rfl)]
    rfl
  | text value =>
    rw [runsIn_of_leaf (.inr rfl), close, h.decoration]
    rfl
  | math info source =>
    rw [runsIn_of_leaf (.inr rfl), close, runs_blockMath]
    exact unlinkAll_map _ _ (fun _ => rfl) _
  | image url title alt =>
    rw [runsIn_of_leaf (.inr rfl), close, h.images, runs_map_inline]
    exact unlinkAll_map _ _ (fun _ => rfl) _
  | footnoteReference identifier label =>
    rw [runsIn_of_leaf (.inr rfl), close, toOption_footnoteNumber, runs_map_inline,
      Option.toList_map, List.map_map]
    exact unlinkAll_map _ _ (fun _ => rfl) _
  | tableRow | tableCell => cases nodeOffence_of_allowed hOffence nofun

theorem unlinkAll_yieldAll {start : Context} {above : List Node} {nodes : List (Node × Context)}
    {laid : Laid} (hUnder : ∀ e ∈ nodes, Under start above e.2)
    (hLaid : (yieldAll parser above nodes).result = .ok laid) :
    Inline.unlinkAll (linksOf above) (Content.runs laid.content) =
      runsInAll parser start above (nodes.map Prod.fst) := by
  refine yieldAll_induct_ok
    (P := fun above n ctx laid => Under start above ctx →
      Inline.unlinkAll (linksOf above) (Content.runs laid.content) =
        runsIn parser start above n)
    (Q := fun above nodes laid => (∀ e ∈ nodes, Under start above e.2) →
      Inline.unlinkAll (linksOf above) (Content.runs laid.content) =
        runsInAll parser start above (nodes.map Prod.fst))
    ?_ ?_ ?_ hLaid hUnder
  · intro above n ctx inner hOffence ih hUnder
    have hInner := ih fun e he => hUnder.inside he
    rw [map_fst_inside] at hInner
    exact unlinkAll_close hUnder hOffence hInner
  · intro above _
    rw [List.map_nil, runsInAll_nil]
    rfl
  · intro above n ctx rest first others ihFirst ihRest hUnder
    rw [Laid.content_merge, Content.runs_append, Inline.unlinkAll_append,
      ihFirst (hUnder (n, ctx) List.mem_cons_self),
      ihRest fun e he => hUnder e (List.mem_cons_of_mem _ he), List.map_cons, runsInAll_cons]

/-- The runs of a document that nodes are laid out to, links undone and boxes left out, are the runs
of the leaves of the nodes. -/
theorem runs_of_layAll_eq_leafRuns {nodes : List Node} {ctx : Context} {laid : Laid}
    (h : (layAll parser nodes ctx {}).result = .ok laid) :
    Inline.unlinkAll [] ((Content.paragraphs laid.content).flatMap Paragraph.children) =
      leafRuns parser ctx nodes := by
  have hUnder : ∀ e ∈ nodes.map (·, ctx), Under ctx [] e.2 := by
    intro e he
    rw [snd_of_mem_pair he]
    exact under_start ctx
  rw [result_layAll] at h
  have hRuns := unlinkAll_yieldAll hUnder h
  rw [map_fst_pair] at hRuns
  rw [Content.flatMap_children_paragraphs]
  exact hRuns

theorem runs_of_link_and_task_item :
    let nodes : List Node :=
      [.paragraph
          [.strong [.text "a", .link "u" none [.emphasis [.text "b"]]], .footnoteReference "07" none],
        .list none none none [.listItem (some true) none [.paragraph [.image "i" none none]]]]
    let ctx : Context := .root (Keyed.empty.insert "i" ⟨[1], 2, 3⟩)
    let laid : Laid :=
      { content :=
          [.block
              { children :=
                  [.text { text := "a", bold := true },
                    .hyperlink "u" [.text { text := "b", bold := true, italics := true }],
                    .footnoteReference 7] },
            .block
              { numbering := some ⟨"ordered", 0⟩
                children := [.checkBox true, .image ⟨[1], 2, 3⟩] }] }
    (layAll Latex.plain nodes ctx {}).result = .ok laid ∧
      Inline.unlinkAll [] ((Content.paragraphs laid.content).flatMap Paragraph.children) =
        leafRuns Latex.plain ctx nodes :=
  ⟨rfl, runs_of_layAll_eq_leafRuns rfl⟩

end Layout

end Manuscript
