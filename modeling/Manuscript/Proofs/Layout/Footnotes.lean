import Manuscript.Proofs.Layout.Images
import Manuscript.Proofs.Layout.Pruned

/-!
# The table of footnotes

Footnotes go up from every place of a tree: out of paragraphs, headings, links, lists, quotes and out
of other footnotes. All tables on the way are put together to one rule. The definitions of a tree are
listed with those inside a footnote before the footnote itself, each with the context in force at its
place; the table holds what the list says, and of several definitions with one identifier the last.
-/

namespace Manuscript

namespace Node

def definedFootnote? : Node → Option String
  | .footnoteDefinition identifier .. => some identifier
  | _ => none

end Node

/-- A definition of a footnote with the nodes around it, the innermost first, and the context in force
at its place. -/
structure FootnoteSite where
  above : List Node
  identifier : String
  label : Option String
  children : List Node
  ctx : Context

namespace FootnoteSite

def node (d : FootnoteSite) : Node :=
  .footnoteDefinition d.identifier d.label d.children

def site (d : FootnoteSite) : Site :=
  ⟨d.above, d.node⟩

/-- The entry of a definition: its children are laid out by themselves, in the context of the
definition. -/
def entry (parser : LatexParser) (d : FootnoteSite) : Except Error (String × Footnote) :=
  (Layout.layAll parser d.children d.ctx {}).result.map fun body =>
    (d.identifier, { children := Content.paragraphs body.content })

/-- The definition is the last one of its identifier in a list, which goes on with `after`. -/
def LastBefore (d : FootnoteSite) (after : List FootnoteSite) : Prop :=
  ∀ later ∈ after, later.identifier ≠ d.identifier

end FootnoteSite

namespace Layout

def ownFootnote (above : List Node) (ctx : Context) : Node → List FootnoteSite
  | .footnoteDefinition identifier label cs => [⟨above, identifier, label, cs, ctx⟩]
  | _ => []

mutual

/-- The definitions of footnotes in a node, those inside a footnote before the footnote. -/
def footnotesIn (above : List Node) (n : Node) (ctx : Context) : List FootnoteSite :=
  footnotesInAll (n :: above) (inside ctx n) ++ ownFootnote above ctx n
termination_by 2 * sizeOf n + 1
decreasing_by
  have := sizeOf_inside ctx n
  omega

def footnotesInAll (above : List Node) (nodes : List (Node × Context)) : List FootnoteSite :=
  match nodes with
  | [] => []
  | (n, ctx) :: rest => footnotesIn above n ctx ++ footnotesInAll above rest
termination_by 2 * sizeOf (nodes.map Prod.fst)

end

/-- The definitions of footnotes in a tree that is laid out in a context. -/
def footnoteSites (ctx : Context) (nodes : List Node) : List FootnoteSite :=
  footnotesInAll [] (nodes.map (·, ctx))

theorem footnotesInAll_nil (above : List Node) : footnotesInAll above [] = [] := by
  rw [footnotesInAll]

theorem footnotesInAll_cons (above : List Node) (n : Node) (ctx : Context)
    (rest : List (Node × Context)) :
    footnotesInAll above ((n, ctx) :: rest) =
      footnotesIn above n ctx ++ footnotesInAll above rest := by
  rw [footnotesInAll]

mutual

theorem footnotesIn_induct {P : List Node → Node → Context → List FootnoteSite → Prop}
    {Q : List Node → List (Node × Context) → List FootnoteSite → Prop}
    (node : ∀ above n ctx inner, Q (n :: above) (inside ctx n) inner →
      P above n ctx (inner ++ ownFootnote above ctx n))
    (nil : ∀ above, Q above [] [])
    (cons : ∀ above n ctx rest first others, P above n ctx first → Q above rest others →
      Q above ((n, ctx) :: rest) (first ++ others))
    (n : Node) (above : List Node) (ctx : Context) : P above n ctx (footnotesIn above n ctx) := by
  rw [footnotesIn]
  exact node above n ctx _ (footnotesInAll_induct node nil cons (inside ctx n) (n :: above))
termination_by 2 * sizeOf n + 1
decreasing_by
  have := sizeOf_inside ctx n
  omega

theorem footnotesInAll_induct {P : List Node → Node → Context → List FootnoteSite → Prop}
    {Q : List Node → List (Node × Context) → List FootnoteSite → Prop}
    (node : ∀ above n ctx inner, Q (n :: above) (inside ctx n) inner →
      P above n ctx (inner ++ ownFootnote above ctx n))
    (nil : ∀ above, Q above [] [])
    (cons : ∀ above n ctx rest first others, P above n ctx first → Q above rest others →
      Q above ((n, ctx) :: rest) (first ++ others))
    (nodes : List (Node × Context)) (above : List Node) :
    Q above nodes (footnotesInAll above nodes) := by
  cases nodes with
  | nil =>
    rw [footnotesInAll_nil]
    exact nil above
  | cons e rest =>
    rw [footnotesInAll_cons]
    exact cons above e.1 e.2 rest _ _ (footnotesIn_induct node nil cons e.1 above e.2)
      (footnotesInAll_induct node nil cons rest above)
termination_by 2 * sizeOf (nodes.map Prod.fst)

end

/-! ## The list has every definition that the walk meets -/

def isDefinition (p : Site) : Bool :=
  p.node.definedFootnote?.isSome

theorem map_site_ownFootnote (above : List Node) (ctx : Context) (n : Node) :
    (ownFootnote above ctx n).map FootnoteSite.site =
      [(⟨above, n⟩ : Site)].filter isDefinition := by
  cases n <;> rfl

theorem map_site_footnotesInAll (nodes : List (Node × Context)) (above : List Node) :
    (footnotesInAll above nodes).map FootnoteSite.site =
      (Site.ofNodesInsideFirst showsInside above (nodes.map Prod.fst)).filter isDefinition := by
  refine footnotesInAll_induct
    (P := fun above n ctx ds => ds.map FootnoteSite.site =
      (Site.ofNodeInsideFirst showsInside above n).filter isDefinition)
    (Q := fun above nodes ds => ds.map FootnoteSite.site =
      (Site.ofNodesInsideFirst showsInside above (nodes.map Prod.fst)).filter isDefinition)
    ?_ ?_ ?_ nodes above
  · intro above n ctx inner ih
    rw [map_fst_inside] at ih
    rw [List.map_append, map_site_ownFootnote, ih, Site.ofNodeInsideFirst, List.filter_append,
      showsInside]
    cases n.hidesInside <;> simp
  · intro above
    rw [List.map_nil, List.map_nil, Site.ofNodesInsideFirst_nil, List.filter_nil]
  · intro above n ctx rest first others ihFirst ihRest
    rw [List.map_append, ihFirst, ihRest, List.map_cons, Site.ofNodesInsideFirst_cons,
      List.filter_append]

theorem map_site_footnoteSites (ctx : Context) (nodes : List Node) :
    (footnoteSites ctx nodes).map FootnoteSite.site =
      (Site.ofNodesInsideFirst showsInside [] nodes).filter isDefinition := by
  rw [footnoteSites, map_site_footnotesInAll, map_fst_pair]

/-- The identifiers that are listed are those of the definitions that the walk meets. -/
theorem mem_identifiers_footnoteSites {ctx : Context} {nodes : List Node} {identifier : String} :
    (∃ d ∈ footnoteSites ctx nodes, d.identifier = identifier) ↔
      ∃ p ∈ Site.ofNodes showsInside [] nodes, p.node.definedFootnote? = some identifier := by
  have hSites : ∀ p : Site, p ∈ (footnoteSites ctx nodes).map FootnoteSite.site ↔
      p ∈ Site.ofNodes showsInside [] nodes ∧ isDefinition p = true := by
    intro p
    rw [map_site_footnoteSites, List.mem_filter,
      ((Site.ofNodesInsideFirst_perm showsInside).2 nodes []).mem_iff]
  constructor
  · rintro ⟨d, hd, rfl⟩
    exact ⟨d.site, ((hSites d.site).mp (List.mem_map_of_mem hd)).1, rfl⟩
  · rintro ⟨p, hp, hIdentifier⟩
    have hDefinition : isDefinition p = true := by rw [isDefinition, hIdentifier]; rfl
    obtain ⟨d, hd, rfl⟩ := List.mem_map.mp ((hSites p).mpr ⟨hp, hDefinition⟩)
    exact ⟨d, hd, Option.some.inj hIdentifier⟩

/-! ## The table is the list read to its end -/

variable {parser : LatexParser}

/-- Only a definition changes the footnotes of the nodes inside. -/
theorem footnotes_close {above : List Node} {n : Node} {ctx : Context} {inner : Laid}
    (hOffence : offence ctx.images ⟨above, n⟩ = none) (hDefines : n.definedFootnote? = none)
    (hLeaf : inside ctx n = [] → inner = {}) :
    (close parser ctx n inner).footnotes = inner.footnotes := by
  cases n with
  | footnoteDefinition => cases hDefines
  | tableRow | tableCell => cases nodeOffence_of_allowed hOffence nofun
  | paragraph | heading | blockquote | list | listItem | emphasis | strong | delete | link => rfl
  | _ =>
    obtain rfl := hLeaf rfl
    rfl

theorem ownFootnote_of_none {n : Node} (h : n.definedFootnote? = none) (above : List Node)
    (ctx : Context) : ownFootnote above ctx n = [] := by
  cases n with
  | footnoteDefinition => cases h
  | _ => rfl

theorem eq_footnoteDefinition {n : Node} {identifier : String}
    (h : n.definedFootnote? = some identifier) :
    ∃ label cs, n = .footnoteDefinition identifier label cs := by
  cases n with
  | footnoteDefinition identifier' label cs =>
    obtain rfl := Option.some.inj h
    exact ⟨label, cs, rfl⟩
  | _ => cases h

theorem footnotes_yieldAll {nodes : List (Node × Context)} {above : List Node} {laid : Laid}
    (h : (yieldAll parser above nodes).result = .ok laid) :
    ∃ entries, (footnotesInAll above nodes).map (FootnoteSite.entry parser) = entries.map .ok ∧
      laid.footnotes = .ofList entries := by
  refine yieldAll_induct_inner
    (P := fun above n ctx laid => ∃ entries,
      (footnotesIn above n ctx).map (FootnoteSite.entry parser) = entries.map .ok ∧
        laid.footnotes = .ofList entries)
    (Q := fun above nodes laid => ∃ entries,
      (footnotesInAll above nodes).map (FootnoteSite.entry parser) = entries.map .ok ∧
        laid.footnotes = .ofList entries)
    ?_ ?_ ?_ h
  · rintro above n ctx inner hOffence hInner ⟨entries, hEntries, hFootnotes⟩
    rw [footnotesIn]
    cases hDefines : n.definedFootnote? with
    | none =>
      have hLeaf : inside ctx n = [] → inner = {} := by
        intro hLeaf
        rw [hLeaf, yieldAll_nil] at hInner
        exact (Except.ok.inj hInner).symm
      rw [ownFootnote_of_none hDefines, List.append_nil, footnotes_close hOffence hDefines hLeaf]
      exact ⟨entries, hEntries, hFootnotes⟩
    | some identifier =>
      obtain ⟨label, cs, rfl⟩ := eq_footnoteDefinition hDefines
      -- What was defined inside is in the table already, so the definition itself comes behind it.
      have hBody : (layAll parser cs ctx {}).result = .ok inner :=
        (result_layAll_inside cs ctx rfl).trans hInner
      refine ⟨entries ++ [(identifier, { children := Content.paragraphs inner.content })], ?_, ?_⟩
      · rw [List.map_append, List.map_append, hEntries, ownFootnote, List.map_singleton,
          List.map_singleton, FootnoteSite.entry, hBody]
        rfl
      · rw [Keyed.ofList_append_singleton, ← hFootnotes]
        rfl
  · intro above
    rw [footnotesInAll_nil]
    exact ⟨[], rfl, rfl⟩
  · rintro above n ctx rest first others ⟨entries, hEntries, hFirst⟩ ⟨more, hMore, hOthers⟩
    refine ⟨entries ++ more, ?_, ?_⟩
    · rw [footnotesInAll_cons, List.map_append, List.map_append, hEntries, hMore]
    · rw [Laid.footnotes_merge, hFirst, hOthers, Keyed.ofList_override]

theorem footnotes_layAll {nodes : List Node} {ctx : Context} {laid : Laid}
    (h : (layAll parser nodes ctx {}).result = .ok laid) :
    ∃ entries, (footnoteSites ctx nodes).map (FootnoteSite.entry parser) = entries.map .ok ∧
      laid.footnotes = .ofList entries := by
  rw [result_layAll] at h
  exact footnotes_yieldAll h

theorem entry_eq_ok_iff {d : FootnoteSite} {e : String × Footnote} :
    d.entry parser = .ok e ↔
      ∃ body, (layAll parser d.children d.ctx {}).result = .ok body ∧
        (d.identifier, { children := Content.paragraphs body.content }) = e := by
  rw [FootnoteSite.entry]
  cases (layAll parser d.children d.ctx {}).result <;> simp [Except.map]

theorem identifier_of_entry {d : FootnoteSite} {e : String × Footnote}
    (h : d.entry parser = .ok e) : e.1 = d.identifier := by
  obtain ⟨_, _, rfl⟩ := entry_eq_ok_iff.mp h
  rfl

/-- The table has an entry for exactly the identifiers that are listed. -/
theorem isSome_find?_footnotes {nodes : List Node} {ctx : Context} {laid : Laid}
    (h : (layAll parser nodes ctx {}).result = .ok laid) (identifier : String) :
    (laid.footnotes.find? identifier).isSome ↔
      ∃ d ∈ footnoteSites ctx nodes, d.identifier = identifier := by
  obtain ⟨entries, hEntries, hFootnotes⟩ := footnotes_layAll h
  have hMem : ∀ key, (∃ e ∈ entries, e.1 = key) ↔
      ∃ d ∈ footnoteSites ctx nodes, d.identifier = key := by
    intro key
    constructor
    · rintro ⟨e, he, rfl⟩
      have hOk : .ok e ∈ (footnoteSites ctx nodes).map (FootnoteSite.entry parser) :=
        hEntries ▸ List.mem_map_of_mem he
      obtain ⟨d, hd, hEntry⟩ := List.mem_map.mp hOk
      exact ⟨d, hd, (identifier_of_entry hEntry).symm⟩
    · rintro ⟨d, hd, rfl⟩
      have hOk : d.entry parser ∈ entries.map .ok := hEntries ▸ List.mem_map_of_mem hd
      obtain ⟨e, he, hEntry⟩ := List.mem_map.mp hOk
      exact ⟨e, he, identifier_of_entry hEntry.symm⟩
  rw [hFootnotes, ← hMem, Option.isSome_iff_ne_none, ne_eq, Keyed.find?_ofList_eq_none_iff]
  simp

/-- The entry of an identifier is that of its last definition. -/
theorem find?_footnotes_last {nodes : List Node} {ctx : Context} {laid : Laid}
    (h : (layAll parser nodes ctx {}).result = .ok laid) {before after : List FootnoteSite}
    {d : FootnoteSite} (hSplit : footnoteSites ctx nodes = before ++ d :: after)
    (hLast : d.LastBefore after) :
    ∃ body, (layAll parser d.children d.ctx {}).result = .ok body ∧
      laid.footnotes.find? d.identifier = some { children := Content.paragraphs body.content } := by
  obtain ⟨entries, hEntries, hFootnotes⟩ := footnotes_layAll h
  rw [hSplit, List.map_append, List.map_cons] at hEntries
  obtain ⟨first, others, rfl, _, hOthers⟩ := List.map_eq_append_iff.mp hEntries.symm
  obtain ⟨e, later, rfl, hEntry, hLater⟩ := List.map_eq_cons_iff.mp hOthers
  obtain ⟨body, hBody, rfl⟩ := entry_eq_ok_iff.mp hEntry.symm
  refine ⟨body, hBody, ?_⟩
  rw [hFootnotes, Keyed.find?_ofList_last fun e he => ?_]
  have hOk : .ok e ∈ after.map (FootnoteSite.entry parser) := hLater ▸ List.mem_map_of_mem he
  obtain ⟨d', hd', hEntry'⟩ := List.mem_map.mp hOk
  rw [identifier_of_entry hEntry']
  exact hLast d' hd'

/-! ## What does not touch the table, and what the table does not touch -/

def definitionsPruned : Pruning where
  goes n := n.definedFootnote?.isSome
  stays _ := false

/-- Definitions put nothing into the content around them. -/
theorem hides_definitions (parser : LatexParser) :
    Hides parser definitionsPruned Laid.content where
  notParagraph n h := by cases n <;> first | rfl | cases h
  goes ctx n inner h := by cases n <;> first | rfl | cases h
  stays ctx n cs inner other _ h := by
    cases n <;> first | rfl | exact h | simp [Node.withChildren, close, h]
  merge a b c d hFirst hSecond := by
    rw [Laid.content_merge, Laid.content_merge, hFirst, hSecond]

/-- Some references go, but none that stands inside a definition of `identifier`. -/
def referencesPruned (which : String → Bool) (identifier : String) : Pruning where
  goes
    | .footnoteReference asked _ => which asked
    | _ => false
  stays n := n.definedFootnote? == some identifier

/-- References put nothing into the footnotes; only inside a definition do they show in its entry. -/
theorem hides_references (parser : LatexParser) (which : String → Bool) (identifier : String) :
    Hides parser (referencesPruned which identifier)
      fun laid => laid.footnotes.find? identifier where
  notParagraph n h := by cases n <;> first | rfl | cases h
  goes ctx n inner h := by cases n <;> first | rfl | cases h
  stays ctx n cs inner other hStays h := by
    cases n with
    | footnoteDefinition defined label cs' =>
      have hOther : identifier ≠ defined := by
        rintro rfl
        simp [referencesPruned, Node.definedFootnote?] at hStays
      rw [Node.withChildren, close, close, Keyed.find?_insert, Keyed.find?_insert, if_neg hOther,
        if_neg hOther, h]
    | _ => first | rfl | exact h
  merge a b c d hFirst hSecond := by
    rw [Laid.footnotes_merge, Laid.footnotes_merge, Keyed.find?_override, Keyed.find?_override,
      hFirst, hSecond]

end Layout

end Manuscript
