import Mathlib.Algebra.Group.Nat.Defs
import Manuscript.Layout.Assembly
import Manuscript.Proofs.Layout.Footnotes

/-!
# Blocks and their nodes

The paragraphs that are laid out whole stand for the block nodes of a tree, in their order. How far in
a paragraph stands and which level of the numbering it has depends on how many quotes and how many
lists are around its node, and on nothing else; headings, breaks and the others have neither. The
context in which the walk comes to a node counts the quotes and the lists around it, and its counters
do not overflow in a tree whose depth they can hold.
-/

namespace Manuscript

/-! ## The side of the tree -/

namespace Node

def isList : Node → Bool
  | .list .. => true
  | _ => false

def isBlockquote : Node → Bool
  | .blockquote _ => true
  | _ => false

/-- Whether the blocks inside a node belong to the content around it. -/
def holdsBlocks : Node → Bool
  | .paragraph _ | .heading .. | .link .. | .footnoteDefinition .. | .table .. | .linkReference .. =>
    false
  | _ => true

end Node

namespace Layout

def listsAround (above : List Node) : Nat :=
  above.countP Node.isList

def quotesAround (above : List Node) : Nat :=
  above.countP Node.isBlockquote

def numberingUnder (above : List Node) : Option NumberingRef :=
  if listsAround above = 0 then none
  else some { reference := "ordered", level := .ofNat (min (listsAround above - 1) 5) }

def indentUnder (above : List Node) : Option Indent :=
  if quotesAround above = 0 then none
  else some { start := .ofNat (min (720 * quotesAround above) (2 ^ 32 - 1)), hanging := none }

/-- The styles of headings, from the first depth on. -/
def headingStyles : List HeadingStyle :=
  [.title, .heading1, .heading2, .heading3, .heading4, .heading5]

/-- The paragraphs that a node itself gives, under some nodes, without what they hold. -/
def frames (parser : LatexParser) (p : Site) : List Paragraph :=
  match p.node with
  | .paragraph _ => [{ numbering := numberingUnder p.above, indent := indentUnder p.above }]
  | .heading depth _ => [{ heading := headingStyles[depth.toNat - 1]? }]
  | .thematicBreak => [{ thematicBreak := true }]
  | .html _ | .code .. | .table .. => [{}]
  | .math _ source => (parser source).map fun _ => {}
  | _ => []

def framesInAll (parser : LatexParser) (above : List Node) (nodes : List Node) : List Paragraph :=
  (Site.ofNodes (fun p => p.node.holdsBlocks) above nodes).flatMap (frames parser)

end Layout

/-! ## The side of the document -/

/-- A paragraph without what it holds. -/
def Paragraph.frame (p : Paragraph) : Paragraph :=
  { p with children := [] }

/-- The paragraphs of some content that are whole. -/
def Content.blocks (content : List Content) : List Paragraph :=
  content.filterMap fun
    | .block p => some p
    | .inline _ => none

/-- The whole paragraphs of some content are the given ones, and what they hold is left open except
that breaks are empty. -/
structure Content.Follows (expected : List Paragraph) (content : List Content) : Prop where
  frames : (blocks content).map Paragraph.frame = expected
  breaks : ∀ p ∈ blocks content, p.thematicBreak = true → p.children = []

namespace Content

theorem blocks_append (content more : List Content) :
    blocks (content ++ more) = blocks content ++ blocks more :=
  List.filterMap_append

theorem Follows.nil : Follows [] [] :=
  ⟨rfl, nofun⟩

theorem Follows.append {expected others : List Paragraph} {content more : List Content}
    (h : Follows expected content) (hMore : Follows others more) :
    Follows (expected ++ others) (content ++ more) := by
  refine ⟨?_, ?_⟩
  · rw [blocks_append, List.map_append, h.frames, hMore.frames]
  · intro p hp hBreak
    rw [blocks_append, List.mem_append] at hp
    rcases hp with hp | hp
    · exact h.breaks p hp hBreak
    · exact hMore.breaks p hp hBreak

theorem Follows.block {expected p : Paragraph} (hFrame : p.frame = expected)
    (hBreak : p.thematicBreak = true → p.children = []) : Follows [expected] [.block p] := by
  refine ⟨congrArg (fun q => [q]) hFrame, fun q hq => ?_⟩
  obtain rfl := List.mem_singleton.mp hq
  exact hBreak

theorem Follows.plain {α : Type} (f : α → List Inline) (xs : List α) :
    Follows (xs.map fun _ => {}) ((xs.map fun x => { children := f x }).map .block) := by
  induction xs with
  | nil => exact .nil
  | cons x rest ih =>
    have hFirst : Follows [{}] [.block { children := f x }] := .block rfl nofun
    exact hFirst.append ih

theorem Follows.run (run : Inline) : Follows [] [.inline run] :=
  ⟨rfl, nofun⟩

theorem Follows.runs {α : Type} (f : α → Inline) (xs : List α) :
    Follows [] (xs.map (Content.inline ∘ f)) := by
  induction xs with
  | nil => exact .nil
  | cons x rest ih => exact (Follows.run (f x)).append ih

end Content

namespace Layout

variable {parser : LatexParser}

/-! ## Contexts count -/

/-- The context of a node counts the quotes and the lists around it. -/
structure Counts (above : List Node) (ctx : Context) : Prop where
  quotes : ctx.indent.toNat = quotesAround above
  lists : (ctx.list.elim 0 fun place => place.level.toNat + 1) = listsAround above
  ordered : ∀ place, ctx.list = some place → place.ordered = true

theorem counts_root (images : ImageTable) : Counts [] (.root images) :=
  ⟨rfl, rfl, nofun⟩

theorem quotesAround_le (above : List Node) : quotesAround above ≤ above.length :=
  List.countP_le_length

theorem listsAround_le (above : List Node) : listsAround above ≤ above.length :=
  List.countP_le_length

theorem quotesAround_cons (n : Node) (above : List Node) :
    quotesAround (n :: above) = quotesAround above + if n.isBlockquote then 1 else 0 :=
  List.countP_cons

theorem listsAround_cons (n : Node) (above : List Node) :
    listsAround (n :: above) = listsAround above + if n.isList then 1 else 0 :=
  List.countP_cons

theorem toNat_succ_of_lt {n : UInt32} {bound : Nat} (h : n.toNat ≤ bound)
    (hBound : bound + 1 < UInt32.size) : (n + 1).toNat = n.toNat + 1 := by
  rw [UInt32.toNat_add, UInt32.toNat_one]
  exact Nat.mod_eq_of_lt (Nat.lt_of_le_of_lt (Nat.succ_le_succ h) hBound)

theorem Counts.withChecked {above : List Node} {ctx : Context} (h : Counts above ctx)
    (checked : Option Bool) : Counts above (ctx.withChecked checked) := by
  obtain ⟨decoration, indent, list, images⟩ := ctx
  cases list with
  | none => exact h
  | some place =>
    refine ⟨h.quotes, h.lists, ?_⟩
    rintro _ ⟨⟩
    exact h.ordered place rfl

theorem Counts.indented {above : List Node} {ctx : Context} (h : Counts above ctx)
    (hDepth : above.length + 1 < UInt32.size) (cs : List Node) :
    Counts (.blockquote cs :: above) ctx.indented := by
  have hBound : ctx.indent.toNat ≤ above.length := h.quotes ▸ quotesAround_le above
  refine ⟨?_, ?_, h.ordered⟩
  · rw [quotesAround_cons, ← h.quotes]
    exact toNat_succ_of_lt hBound hDepth
  · rw [listsAround_cons]
    exact h.lists

theorem Counts.inList {above : List Node} {ctx : Context} (h : Counts above ctx)
    (hDepth : above.length + 1 < UInt32.size) (ordered : Option Bool) (start : Option UInt32)
    (spread : Option Bool) (cs : List Node) :
    Counts (.list ordered start spread cs :: above) ctx.inList := by
  have hBound := listsAround_le above
  have hLists := h.lists
  refine ⟨?_, ?_, ?_⟩
  · rw [quotesAround_cons]
    exact h.quotes
  · rw [listsAround_cons, ← hLists, Context.inList]
    cases hPlace : ctx.list with
    | none => rfl
    | some place =>
      rw [hPlace] at hLists
      have hLevel : place.level.toNat + 1 = listsAround above := hLists
      exact congrArg (· + 1) (toNat_succ_of_lt (by omega) hDepth)
  · rintro _ ⟨⟩
    rfl

theorem Counts.inside {above : List Node} {n : Node} {ctx : Context} (h : Counts above ctx)
    (hDepth : above.length + 1 < UInt32.size) {e : Node × Context} (he : e ∈ inside ctx n) :
    Counts (n :: above) e.2 := by
  -- All other nodes change the decoration or the box of an item, neither of which is counted.
  have hSame : n.isList = false → n.isBlockquote = false → Counts (n :: above) ctx := by
    intro hList hQuote
    refine ⟨?_, ?_, h.ordered⟩
    · rw [quotesAround_cons, hQuote]
      exact h.quotes
    · rw [listsAround_cons, hList]
      exact h.lists
  cases n with
  | blockquote cs =>
    obtain ⟨_, _, rfl⟩ := List.mem_map.mp he
    exact h.indented hDepth cs
  | list ordered start spread cs =>
    obtain ⟨_, _, rfl⟩ := List.mem_map.mp he
    exact h.inList hDepth ordered start spread cs
  | listItem checked spread cs =>
    rw [Layout.inside] at he
    obtain ⟨_, _, rfl⟩ := List.mem_map.mp he
    exact (hSame rfl rfl).withChecked _
  | _ =>
    first
    | cases he
    | obtain ⟨_, _, rfl⟩ := List.mem_map.mp he
      have hKept := hSame rfl rfl
      exact ⟨hKept.quotes, hKept.lists, hKept.ordered⟩

theorem min_eq_ofNat (a b : UInt32) : min a b = .ofNat (min a.toNat b.toNat) := by
  change (if a ≤ b then a else b) = _
  split
  · rename_i hLe
    rw [Nat.min_eq_left (UInt32.le_iff_toNat_le.mp hLe), UInt32.ofNat_toNat]
  · rename_i hNotLe
    rw [UInt32.le_iff_toNat_le] at hNotLe
    rw [Nat.min_eq_right (by omega), UInt32.ofNat_toNat]

theorem Counts.paragraphNumbering {above : List Node} {ctx : Context} (h : Counts above ctx) :
    ctx.paragraphNumbering = numberingUnder above := by
  have hLists := h.lists
  unfold Context.paragraphNumbering
  cases hPlace : ctx.list with
  | none =>
    rw [hPlace] at hLists
    have hNone : listsAround above = 0 := hLists.symm
    rw [numberingUnder, if_pos hNone]
  | some place =>
    rw [hPlace] at hLists
    have hLevel : listsAround above = place.level.toNat + 1 := hLists.symm
    rw [numberingUnder, hLevel, if_neg (Nat.succ_ne_zero _), Nat.add_sub_cancel]
    simp only [h.ordered place hPlace, if_true, min_eq_ofNat]
    rfl

theorem Counts.paragraphIndent {above : List Node} {ctx : Context} (h : Counts above ctx) :
    ctx.paragraphIndent = indentUnder above := by
  have hPos : 0 < ctx.indent ↔ 0 < ctx.indent.toNat := UInt32.lt_iff_toNat_lt
  rw [Context.paragraphIndent, indentUnder, ← h.quotes]
  by_cases hZero : ctx.indent.toNat = 0
  · rw [if_pos hZero, if_neg (by rw [hPos]; omega)]
  · rw [if_neg hZero, if_pos (hPos.mpr (Nat.pos_of_ne_zero hZero))]
    rfl

/-- The context of a node counts what is around it, and can count what is around the nodes inside. -/
structure Tracks (above : List Node) (n : Node) (ctx : Context) : Prop where
  counts : Counts above ctx
  fits : ∀ e ∈ Node.preorder above.length n, e.1 < UInt32.size

theorem Tracks.inside {above : List Node} {n : Node} {ctx : Context} (h : Tracks above n ctx)
    {e : Node × Context} (he : e ∈ inside ctx n) : Tracks (n :: above) e.1 e.2 := by
  have hChild : e.1 ∈ n.children := by
    have hMem := List.mem_map_of_mem (f := Prod.fst) he
    rw [map_fst_inside] at hMem
    split at hMem
    · cases hMem
    · exact hMem
  have hFits : ∀ e' ∈ Node.preorder (above.length + 1) e.1, e'.1 < UInt32.size := by
    intro e' he'
    have hMem := Node.mem_preorderAll_iff.mpr ⟨e.1, hChild, he'⟩
    refine h.fits e' ?_
    rw [Node.preorder]
    exact List.mem_cons_of_mem _ hMem
  -- The counters are raised on the way to this node, whose own depth is known to fit.
  have hDepth : above.length + 1 < UInt32.size := by
    refine hFits (above.length + 1, e.1) ?_
    rw [Node.preorder]
    exact List.mem_cons_self
  exact ⟨h.counts.inside hDepth he, hFits⟩

/-! ## Blocks -/

def framesIn (parser : LatexParser) (above : List Node) (n : Node) : List Paragraph :=
  (Site.ofNode (fun p => p.node.holdsBlocks) above n).flatMap (frames parser)

theorem framesInAll_nil (above : List Node) : framesInAll parser above [] = [] := by
  rw [framesInAll, Site.ofNodes_nil, List.flatMap_nil]

theorem framesInAll_cons (above : List Node) (n : Node) (rest : List Node) :
    framesInAll parser above (n :: rest) =
      framesIn parser above n ++ framesInAll parser above rest := by
  rw [framesInAll, Site.ofNodes_cons, List.flatMap_append]
  rfl

theorem framesIn_of_container {above : List Node} {n : Node}
    (hOwn : frames parser ⟨above, n⟩ = []) (hHolds : n.holdsBlocks = true) :
    framesIn parser above n = framesInAll parser (n :: above) n.children :=
  Site.flatMap_ofNode_of_enters hOwn hHolds

theorem framesIn_of_leaf {above : List Node} {n : Node}
    (hInside : n.holdsBlocks = false ∨ n.children = []) :
    framesIn parser above n = frames parser ⟨above, n⟩ :=
  Site.flatMap_ofNode_of_leaf hInside

theorem headingStyle_eq_headingStyles {depth : UInt8} (h : 1 ≤ depth ∧ depth ≤ 6) :
    (headingStyle depth).toOption = headingStyles[depth.toNat - 1]? := by
  obtain ⟨hLow, hHigh⟩ := h
  unfold headingStyle
  split
  case h_7 => grind
  all_goals rfl

theorem follows_close {above : List Node} {n : Node} {ctx : Context} {inner : Laid}
    (h : Tracks above n ctx) (hOffence : offence ctx.images ⟨above, n⟩ = none)
    (ih : Content.Follows (framesInAll parser (n :: above) (if n.hidesInside then [] else n.children))
      inner.content) :
    Content.Follows (framesIn parser above n) (close parser ctx n inner).content := by
  cases n with
  | paragraph cs =>
    have hNumbering := h.counts.paragraphNumbering
    have hIndent := h.counts.paragraphIndent
    rw [framesIn_of_leaf (.inl rfl)]
    refine .block ?_ nofun
    rw [Context.paragraph, Paragraph.frame, hNumbering, hIndent]
  | heading depth cs =>
    have hRange : 1 ≤ depth ∧ depth ≤ 6 := by
      have hNode := nodeOffence_of_allowed hOffence nofun
      rw [nodeOffence] at hNode
      split at hNode
      · assumption
      · cases hNode
    rw [framesIn_of_leaf (.inl rfl)]
    refine .block ?_ nofun
    rw [Paragraph.frame, headingStyle_eq_headingStyles hRange]
  | thematicBreak =>
    rw [framesIn_of_leaf (.inr rfl)]
    exact .block rfl fun _ => rfl
  | html | code =>
    rw [framesIn_of_leaf (.inr rfl)]
    exact .block rfl nofun
  | table =>
    rw [framesIn_of_leaf (.inl rfl)]
    exact .block rfl nofun
  | math info source =>
    rw [framesIn_of_leaf (.inr rfl)]
    exact .plain _ _
  | blockquote | list | listItem | emphasis | strong | delete =>
    rw [framesIn_of_container rfl rfl]
    exact ih
  | link =>
    rw [framesIn_of_leaf (.inl rfl)]
    exact .run _
  | footnoteDefinition | linkReference =>
    rw [framesIn_of_leaf (.inl rfl)]
    exact .nil
  | yaml | toml | definition | imageReference =>
    rw [framesIn_of_leaf (.inr rfl)]
    exact .nil
  | text | inlineCode | lineBreak | inlineMath =>
    rw [framesIn_of_leaf (.inr rfl)]
    exact .run _
  | image | footnoteReference =>
    rw [framesIn_of_leaf (.inr rfl)]
    exact .runs _ _
  | tableRow | tableCell => cases nodeOffence_of_allowed hOffence nofun

theorem follows_yieldAll {nodes : List (Node × Context)} {above : List Node} {laid : Laid}
    (hTracks : ∀ e ∈ nodes, Tracks above e.1 e.2)
    (h : (yieldAll parser above nodes).result = .ok laid) :
    Content.Follows (framesInAll parser above (nodes.map Prod.fst)) laid.content := by
  refine yieldAll_induct_ok
    (P := fun above n ctx laid => Tracks above n ctx →
      Content.Follows (framesIn parser above n) laid.content)
    (Q := fun above nodes laid => (∀ e ∈ nodes, Tracks above e.1 e.2) →
      Content.Follows (framesInAll parser above (nodes.map Prod.fst)) laid.content)
    ?_ ?_ ?_ h hTracks
  · intro above n ctx inner hOffence ih hTracks
    have hInner := ih fun e he => hTracks.inside he
    rw [map_fst_inside] at hInner
    exact follows_close hTracks hOffence hInner
  · intro above _
    rw [List.map_nil, framesInAll_nil]
    exact .nil
  · intro above n ctx rest first others ihFirst ihRest hTracks
    rw [List.map_cons, framesInAll_cons]
    exact (ihFirst (hTracks (n, ctx) List.mem_cons_self)).append
      (ihRest fun e he => hTracks e (List.mem_cons_of_mem _ he))

/-! ## Footnotes -/

/-- What passes from a node to the nodes inside it holds of all definitions of footnotes. -/
theorem footnotesInAll_inherit {R : List Node → Node → Context → Prop}
    (hInside : ∀ above n ctx, R above n ctx → ∀ e ∈ inside ctx n, R (n :: above) e.1 e.2)
    {above : List Node} {nodes : List (Node × Context)} (h : ∀ e ∈ nodes, R above e.1 e.2) :
    ∀ d ∈ footnotesInAll above nodes, R d.above d.node d.ctx := by
  refine footnotesInAll_induct
    (P := fun above n ctx ds => R above n ctx → ∀ d ∈ ds, R d.above d.node d.ctx)
    (Q := fun above nodes ds => (∀ e ∈ nodes, R above e.1 e.2) →
      ∀ d ∈ ds, R d.above d.node d.ctx)
    ?_ ?_ ?_ nodes above h
  · intro above n ctx inner ih hNode d hd
    rcases List.mem_append.mp hd with hd | hd
    · exact ih (hInside above n ctx hNode) d hd
    · cases n with
      | footnoteDefinition =>
        obtain rfl := List.mem_singleton.mp hd
        exact hNode
      | _ => cases hd
  · intro above _ d hd
    cases hd
  · intro above n ctx rest first others ihFirst ihRest hNodes d hd
    rcases List.mem_append.mp hd with hd | hd
    · exact ihFirst (hNodes (n, ctx) List.mem_cons_self) d hd
    · exact ihRest (fun e he => hNodes e (List.mem_cons_of_mem _ he)) d hd

theorem exists_lastBefore {ds : List FootnoteSite} {identifier : String}
    (h : ∃ d ∈ ds, d.identifier = identifier) :
    ∃ before d after, ds = before ++ d :: after ∧ d.LastBefore after ∧
      d.identifier = identifier := by
  induction ds with
  | nil => simp at h
  | cons first rest ih =>
    by_cases hLater : ∃ d ∈ rest, d.identifier = identifier
    · obtain ⟨before, d, after, rfl, hLast, hIdentifier⟩ := ih hLater
      exact ⟨first :: before, d, after, rfl, hLast, hIdentifier⟩
    · obtain ⟨d, hd, rfl⟩ := h
      rcases List.mem_cons.mp hd with rfl | hd
      · exact ⟨[], d, rest, rfl, fun later hLater' hSame => hLater ⟨later, hLater', hSame⟩, rfl⟩
      · exact absurd ⟨d, hd, rfl⟩ hLater

theorem follows_body {d : FootnoteSite} {body : Laid} (hTracks : Tracks d.above d.node d.ctx)
    (h : (layAll parser d.children d.ctx {}).result = .ok body) :
    Content.Follows (framesInAll parser (d.node :: d.above) d.children) body.content := by
  rw [result_layAll_inside d.children d.ctx (rfl : isInList (d.node :: d.above) = false)] at h
  have hFollows := follows_yieldAll (fun e he => hTracks.inside he) h
  rw [map_fst_inside] at hFollows
  exact hFollows

/-! ## Numbering -/

/-- A paragraph that is numbered has a level of one of the numberings. -/
def Numbered (numberings : List Numbering) (p : Paragraph) : Prop :=
  ∀ ref, p.numbering = some ref → ∃ numbering ∈ numberings, numbering.reference = ref.reference ∧
    ∃ level ∈ numbering.levels, level.level = ref.level

theorem exists_level {k : Nat} (h : k ≤ 5) :
    ∃ level ∈ Numbering.lists.levels, level.level = .ofNat k := by
  have hLevels : ∀ k ∈ List.range 6, .ofNat k ∈ Numbering.lists.levels.map NumberingLevel.level := by
    decide
  exact List.mem_map.mp (hLevels k (List.mem_range.mpr (Nat.lt_succ_of_le h)))

theorem numbered_of_mem_frames {p : Paragraph} {site : Site} (h : p ∈ frames parser site) :
    Numbered [Numbering.lists] p := by
  intro ref hRef
  obtain ⟨above, n⟩ := site
  cases n with
  | paragraph cs =>
    obtain rfl := List.mem_singleton.mp h
    have hUnder : numberingUnder above = some ref := hRef
    rw [numberingUnder] at hUnder
    split at hUnder
    · cases hUnder
    · obtain rfl := Option.some.inj hUnder
      exact ⟨Numbering.lists, List.mem_singleton_self _, rfl, exists_level (Nat.min_le_right _ _)⟩
  | math info source =>
    obtain ⟨_, _, rfl⟩ := List.mem_map.mp h
    cases hRef
  | heading | thematicBreak | table | html | code =>
    obtain rfl := List.mem_singleton.mp h
    cases hRef
  | _ => cases h

theorem mem_paragraphsAfter {p : Paragraph} {content : List Content} {pending : List Inline}
    (h : p ∈ Content.paragraphsAfter pending content) :
    p ∈ Content.blocks content ∨ p.numbering = none := by
  have hWrap : ∀ pending, p ∈ Content.wrap pending → p.numbering = none := by
    intro pending hp
    rw [Content.wrap] at hp
    split at hp
    · cases hp
    · rw [List.mem_singleton.mp hp]
  induction content generalizing pending with
  | nil => exact .inr (hWrap pending h)
  | cons item rest ih =>
    cases item with
    | block q =>
      rcases List.mem_append.mp h with h | h
      · exact .inr (hWrap pending h)
      · rcases List.mem_cons.mp h with rfl | h
        · exact .inl List.mem_cons_self
        · exact (ih h).imp_left (List.mem_cons_of_mem q)
    | inline run => exact ih h

theorem numbered_of_follows {above nodes : List Node} {content : List Content}
    (h : Content.Follows (framesInAll parser above nodes) content) :
    ∀ p ∈ Content.paragraphs content, Numbered [Numbering.lists] p := by
  intro p hp
  rcases mem_paragraphsAfter hp with hBlock | hNone
  · have hFrame : p.frame ∈ framesInAll parser above nodes :=
      h.frames ▸ List.mem_map_of_mem hBlock
    obtain ⟨site, _, hSite⟩ := List.mem_flatMap.mp hFrame
    exact numbered_of_mem_frames (p := p.frame) hSite
  · intro ref hRef
    rw [hNone] at hRef
    cases hRef

/-- The whole paragraphs that a tree is laid out to are those of its block nodes, indented and numbered
by the quotes and the lists around them. The same holds of what each footnote is made of, at the place
of its last definition, and every number in the document has its level. -/
theorem blocks_of_layAll {nodes : List Node} {images : ImageTable} {laid : Laid}
    (hDepth : ∀ e ∈ Node.preorderAll 0 nodes, e.1 < 2 ^ 32)
    (h : (layAll parser nodes (.root images) {}).result = .ok laid) :
    Content.Follows (framesInAll parser [] nodes) laid.content ∧
      (∀ identifier footnote, laid.footnotes.find? identifier = some footnote →
        ∃ before d after, footnoteSites (.root images) nodes = before ++ d :: after ∧
          d.LastBefore after ∧ d.identifier = identifier ∧
          ∃ content, footnote.children = Content.paragraphs content ∧
            Content.Follows (framesInAll parser (d.node :: d.above) d.children) content) ∧
      ∀ metadata styles,
        let document := Document.assemble laid.content laid.footnotes metadata styles
        (∀ p ∈ document.body, Numbered document.numbering p) ∧
          ∀ identifier footnote, document.footnotes.find? identifier = some footnote →
            ∀ p ∈ footnote.children, Numbered document.numbering p := by
  have hTracks : ∀ e ∈ nodes.map (·, Context.root images), Tracks [] e.1 e.2 := by
    intro e he
    obtain ⟨n, hn, rfl⟩ := List.mem_map.mp he
    exact ⟨counts_root images, fun e' he' =>
      hDepth e' (Node.mem_preorderAll_iff.mpr ⟨n, hn, he'⟩)⟩
  have hContent : Content.Follows (framesInAll parser [] nodes) laid.content := by
    rw [result_layAll] at h
    have hFollows := follows_yieldAll hTracks h
    rwa [map_fst_pair] at hFollows
  have hFootnotes : ∀ identifier footnote, laid.footnotes.find? identifier = some footnote →
      ∃ before d after, footnoteSites (.root images) nodes = before ++ d :: after ∧
        d.LastBefore after ∧ d.identifier = identifier ∧
        ∃ content, footnote.children = Content.paragraphs content ∧
          Content.Follows (framesInAll parser (d.node :: d.above) d.children) content := by
    intro identifier footnote hFound
    have hListed := (isSome_find?_footnotes h identifier).mp (Option.isSome_of_eq_some hFound)
    obtain ⟨before, d, after, hSplit, hLast, rfl⟩ := exists_lastBefore hListed
    obtain ⟨body, hBody, hEntry⟩ := find?_footnotes_last h hSplit hLast
    obtain rfl := Option.some.inj (hFound.symm.trans hEntry)
    have hSite : d ∈ footnoteSites (.root images) nodes :=
      hSplit ▸ List.mem_append_right _ List.mem_cons_self
    have hBodyTracks : Tracks d.above d.node d.ctx :=
      footnotesInAll_inherit (fun _ _ _ hNode _ he => hNode.inside he) hTracks d hSite
    exact ⟨before, d, after, hSplit, hLast, rfl, body.content, rfl, follows_body hBodyTracks hBody⟩
  refine ⟨hContent, hFootnotes, fun metadata styles => ⟨numbered_of_follows hContent, ?_⟩⟩
  intro identifier footnote hFound p hp
  obtain ⟨_, _, _, _, _, _, content, hChildren, hFollows⟩ := hFootnotes identifier footnote hFound
  rw [hChildren] at hp
  exact numbered_of_follows hFollows p hp

theorem blocks_of_quoted_list :
    let nodes : List Node :=
      [.blockquote
        [.list (some false) none none
          [.listItem (some true) none
            [.paragraph [.text "a"], .emphasis [.heading 2 [.text "b"]], .thematicBreak]]]]
    (∀ e ∈ Node.preorderAll 0 nodes, e.1 < 2 ^ 32) ∧
      ∃ laid, (layAll Latex.plain nodes (.root .empty) {}).result = .ok laid ∧
        (Content.blocks laid.content).map Paragraph.frame =
          [{ numbering := some { reference := "ordered", level := 0 }
             indent := some { start := 720 } },
            { heading := some .heading1 }, { thematicBreak := true }] := by
  intro nodes
  have hDepth : ∀ e ∈ Node.preorderAll 0 nodes, e.1 < 2 ^ 32 := by
    simp [nodes, Node.preorderAll, Node.preorder, Node.children]
  have hLaid : ∃ laid, (layAll Latex.plain nodes (.root .empty) {}).result = .ok laid := ⟨_, rfl⟩
  obtain ⟨laid, hLaid⟩ := hLaid
  refine ⟨hDepth, laid, hLaid, (blocks_of_layAll hDepth hLaid).1.frames.trans ?_⟩
  simp [nodes, framesInAll, Site.ofNode, Node.holdsBlocks, Node.children, frames, numberingUnder,
    indentUnder, listsAround, quotesAround, List.countP_cons, Node.isList, Node.isBlockquote,
    headingStyles]

end Layout

end Manuscript
