import Manuscript.Proofs.Conversion.Images
import Manuscript.Proofs.Layout.Footnotes

/-!
# Footnotes of a conversion

The table of footnotes is the list of definitions read to its end, and nothing else comes of a
definition.
-/

namespace Manuscript

open Layout (layAll footnoteSites)

namespace Config

theorem exists_layAll_of_layOut {config : Config} {tree : Tree} {images : ImageTable}
    {document : Document} (h : (config.layOut tree images).result = .ok document) :
    ∃ laid, (layAll config.latex tree.children (.root images) {}).result = .ok laid ∧
      document = .assemble laid.content laid.footnotes config.metadata config.styles := by
  rw [result_layOut, map_eq_ok_iff] at h
  obtain ⟨laid, hLaid, hDocument⟩ := h
  exact ⟨laid, hLaid, hDocument.symm⟩

theorem exists_layOut_of_convert {config : Config} {tree : Tree} {document : Document}
    {stats : Stats} (h : (config.convert tree).result = .ok (document, stats)) :
    ∃ images, (config.layOut tree images).result = .ok document ∧
      stats = .ofDocument document images := by
  cases hImages : (config.resolveImages tree).result with
  | error e =>
    rw [convert_of_resolveImages_error hImages] at h
    cases h
  | ok images =>
    rw [convert_of_resolveImages hImages, map_eq_ok_iff] at h
    obtain ⟨document', hLaid, hSame⟩ := h
    obtain ⟨rfl, rfl⟩ := Prod.mk.inj hSame
    exact ⟨images, hLaid, rfl⟩

end Config

namespace Layout

theorem mem_identifiers_iff (ctx other : Context) {nodes : List Node} {identifier : String} :
    identifier ∈ (footnoteSites ctx nodes).map FootnoteSite.identifier ↔
      ∃ d ∈ footnoteSites other nodes, d.identifier = identifier := by
  rw [List.mem_map, mem_identifiers_footnoteSites, mem_identifiers_footnoteSites]

/-- The footnotes of a document are the last definitions of all identifiers in the order in which what
is inside a footnote comes before the footnote. Definitions leave the content around them as it is,
and references leave alone all entries in whose definition they do not stand. -/
theorem footnotes_are_last_definitions (parser : LatexParser) (nodes : List Node) (ctx : Context) :
    (footnoteSites ctx nodes).map FootnoteSite.site =
        (Site.ofNodesInsideFirst showsInside [] nodes).filter isDefinition ∧
      (∀ laid, (layAll parser nodes ctx {}).result = .ok laid →
        (∀ identifier, (laid.footnotes.find? identifier).isSome ↔
            ∃ d ∈ footnoteSites ctx nodes, d.identifier = identifier) ∧
          (∀ before d after, footnoteSites ctx nodes = before ++ d :: after →
            d.LastBefore after →
              ∃ body, (layAll parser d.children d.ctx {}).result = .ok body ∧
                laid.footnotes.find? d.identifier =
                  some { children := Content.paragraphs body.content }) ∧
          (∃ rest, (layAll parser (definitionsPruned.nodes nodes) ctx {}).result = .ok rest ∧
            rest.content = laid.content) ∧
          ∀ which identifier, ∃ rest,
            (layAll parser ((referencesPruned which identifier).nodes nodes) ctx {}).result =
                .ok rest ∧
              rest.footnotes.find? identifier = laid.footnotes.find? identifier) ∧
      ∀ (config : Config) (document : Document) (stats : Stats),
        (config.convert ⟨nodes⟩).result = .ok (document, stats) →
          stats.footnotes =
            ((footnoteSites ctx nodes).map FootnoteSite.identifier).toFinset.card := by
  refine ⟨map_site_footnoteSites ctx nodes, fun laid h => ⟨isSome_find?_footnotes h,
    fun before d after hSplit hLast => find?_footnotes_last h hSplit hLast,
    (hides_definitions parser).layAll h,
    fun which identifier => (hides_references parser which identifier).layAll h⟩, ?_⟩
  intro config document stats hConvert
  obtain ⟨images, hLayOut, rfl⟩ := Config.exists_layOut_of_convert hConvert
  obtain ⟨laid, hLaid, rfl⟩ := Config.exists_layAll_of_layOut hLayOut
  refine Keyed.size_eq_card _ fun identifier => ?_
  rw [mem_identifiers_iff ctx (.root images), ← isSome_find?_footnotes hLaid,
    Option.isSome_iff_exists]
  rfl

theorem footnote_in_footnote_is_overridden :
    let inner : Node := .footnoteDefinition "1" none [.text "b"]
    let nodes : List Node :=
      [.blockquote [.footnoteDefinition "1" none [.paragraph [.text "a"], inner]]]
    ∃ laid, (layAll Latex.plain nodes (.root .empty) {}).result = .ok laid ∧
      laid.footnotes.find? "1" =
        some
          { children :=
              [{ indent := some { start := 720 }, children := [.text { text := "a" }] }] } := by
  intro inner nodes
  refine ⟨_, rfl, ?_⟩
  have hSites : footnoteSites (.root .empty) nodes =
      [⟨[.footnoteDefinition "1" none [.paragraph [.text "a"], inner],
            .blockquote [.footnoteDefinition "1" none [.paragraph [.text "a"], inner]]],
          "1", none, [.text "b"], (Context.root .empty).indented⟩] ++
        ⟨[.blockquote [.footnoteDefinition "1" none [.paragraph [.text "a"], inner]]], "1", none,
          [.paragraph [.text "a"], inner], (Context.root .empty).indented⟩ :: [] := by
    simp [nodes, inner, footnoteSites, footnotesInAll, footnotesIn, inside, Context.within,
      ownFootnote, Node.hidesInside, Node.children]
  obtain ⟨body, hBody, hFound⟩ :=
    ((footnotes_are_last_definitions Latex.plain nodes (.root .empty)).2.1 _ rfl).2.1 _ _ _ hSites
      fun _ h => absurd h List.not_mem_nil
  obtain rfl := Except.ok.inj hBody
  exact hFound

end Layout

end Manuscript
