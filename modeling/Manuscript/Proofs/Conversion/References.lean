import Manuscript.Proofs.Conversion.Footnotes
import Manuscript.Proofs.Text.Numeral

/-!
# References to footnotes

A footnote is kept under its identifier as it is spelled, and a reference to it shows a number. The
two meet if the identifier is a plain numeral. Another numeral for the same number is the key of the
footnote too, but not what is read off the reference.
-/

namespace Manuscript

namespace Layout

theorem offence_of_layAll {parser : LatexParser} {nodes : List Node} {ctx : Context} {laid : Laid}
    (h : (layAll parser nodes ctx {}).result = .ok laid) {p : Site}
    (hp : p ∈ Site.ofNodes showsInside [] nodes) : offence ctx.images p = none := by
  have hJudged : ∀ q ∈ visited ctx.images nodes, offence ctx.images q = none := by
    rw [← List.findSome?_eq_none_iff, ← refusal_layAll parser, refusal_eq_none_iff]
    exact ⟨laid, h⟩
  have hVisited : Site.ofNodes showsInside [] nodes = visited ctx.images nodes := by
    refine Site.ofNodes_congr.2 nodes [] fun q hq => ?_
    rw [judgesInside, hJudged q hq, showsInside]
    simp
  exact hJudged p (hVisited ▸ hp)

theorem numeral?_of_reference {images : ImageTable} {p : Site} {identifier : String}
    {label : Option String} (hOffence : offence images p = none)
    (hReference : p.node = .footnoteReference identifier label) :
    ∃ number : UInt32, Text.numeral? UInt32.size identifier.toList = some number.toNat := by
  obtain ⟨above, n⟩ := p
  obtain rfl : n = .footnoteReference identifier label := hReference
  have hNode := nodeOffence_of_allowed hOffence nofun
  rw [nodeOffence] at hNode
  split at hNode
  · rename_i hNumeral
    obtain ⟨n, hValue⟩ := Option.isSome_iff_exists.mp (Text.isSome_numeral?_iff.mpr hNumeral)
    exact ⟨.ofNat n, by rw [hValue, UInt32.toNat_ofNat_of_lt' (Text.lt_of_numeral? hValue)]⟩
  · cases hNode

theorem footnoteNumber_eq_ok_iff {identifier : String} {number : UInt32} :
    footnoteNumber identifier = .ok number ↔
      Text.numeral? UInt32.size identifier.toList = some number.toNat := by
  rw [footnoteNumber]
  cases hValue : Text.numeral? UInt32.size identifier.toList with
  | none => simp
  | some n =>
    have hBound : n < UInt32.size := Text.lt_of_numeral? hValue
    rw [Except.ok.injEq, Option.some.injEq, ← UInt32.toNat_inj, UInt32.toNat_ofNat_of_lt' hBound]

theorem layNode_reference {identifier : String} {number : UInt32}
    (h : footnoteNumber identifier = .ok number) (parser : LatexParser) (label : Option String)
    (ctx : Context) (out : Laid) :
    (layNode parser (.footnoteReference identifier label) ctx out).result =
      .ok (out.addRun (.footnoteReference number)) := by
  rw [layNode, h]
  rfl

theorem toString_eq_iff_isPlain {identifier : String} {n : Nat} {bound : Nat}
    (h : Text.numeral? bound identifier.toList = some n) :
    toString n = identifier ↔ Text.IsPlain identifier.toList := by
  rw [← Text.toDigits_eq_iff_isPlain h, Nat.toString_eq_ofList_toDigits, ← String.toList_inj,
    String.toList_ofList]

/-- Whether a footnote with the identifier is defined where the walk comes. -/
def Defines (nodes : List Node) (identifier : String) : Prop :=
  ∃ p ∈ Site.ofNodes showsInside [] nodes, p.node.definedFootnote? = some identifier

theorem isSome_find?_footnotes_iff_defines {parser : LatexParser} {nodes : List Node}
    {ctx : Context} {laid : Laid} (h : (layAll parser nodes ctx {}).result = .ok laid)
    (identifier : String) :
    (laid.footnotes.find? identifier).isSome ↔ Defines nodes identifier := by
  rw [isSome_find?_footnotes h, mem_identifiers_footnoteSites, Defines]

/-- A reference to a footnote gives a number, and the number as it is written is the key of the
footnote exactly if the identifier is plain. Plain identifiers never share a number. -/
theorem plain_references_resolve {config : Config} {tree : Tree} {images : ImageTable}
    {document : Document} (h : (config.layOut tree images).result = .ok document) :
    (∀ p ∈ Site.ofNodes showsInside [] tree.children, ∀ identifier label,
      p.node = .footnoteReference identifier label →
        ∃ number : UInt32, Text.numeral? UInt32.size identifier.toList = some number.toNat ∧
          (∀ parser ctx out, (layNode parser p.node ctx out).result =
            .ok (out.addRun (.footnoteReference number))) ∧
          (toString number.toNat = identifier ↔ Text.IsPlain identifier.toList) ∧
          ((document.footnotes.find? (toString number.toNat)).isSome ↔
            Defines tree.children (toString number.toNat)) ∧
          (Defines tree.children identifier →
            (document.footnotes.find? identifier).isSome ∧
              (Text.IsPlain identifier.toList →
                document.footnotes.find? (toString number.toNat) =
                  document.footnotes.find? identifier))) ∧
      ∀ identifier other number, Text.IsPlain identifier.toList → Text.IsPlain other.toList →
        footnoteNumber identifier = .ok number → footnoteNumber other = .ok number →
          identifier = other := by
  obtain ⟨laid, hLaid, rfl⟩ := Config.exists_layAll_of_layOut h
  have hFound := isSome_find?_footnotes_iff_defines hLaid
  constructor
  · intro p hp identifier label hReference
    obtain ⟨number, hNumber⟩ := numeral?_of_reference (offence_of_layAll hLaid hp) hReference
    have hPlain := toString_eq_iff_isPlain hNumber
    refine ⟨number, hNumber, fun parser ctx out => ?_, hPlain, hFound _, fun hDefines => ?_⟩
    · rw [hReference]
      exact layNode_reference (footnoteNumber_eq_ok_iff.mpr hNumber) parser label ctx out
    · exact ⟨(hFound identifier).mpr hDefines, fun h => by rw [hPlain.mpr h]⟩
  · intro identifier other number hIdentifier hOther hNumber hSame
    rw [footnoteNumber_eq_ok_iff] at hNumber hSame
    calc
      identifier = toString number.toNat := ((toString_eq_iff_isPlain hNumber).mpr hIdentifier).symm
      _ = other := (toString_eq_iff_isPlain hSame).mpr hOther

theorem plain_reference_resolves :
    let tree : Tree :=
      ⟨[.list none none none
          [.listItem none none [.paragraph [.strong [.footnoteReference "7" none]],
            .footnoteDefinition "7" none [.text "a"]]]]⟩
    ∃ document, (({} : Config).layOut tree .empty).result = .ok document ∧
      ∃ number : UInt32, Text.numeral? UInt32.size "7".toList = some number.toNat ∧
        (document.footnotes.find? "7").isSome ∧
        document.footnotes.find? (toString number.toNat) = document.footnotes.find? "7" := by
  intro tree
  have hLaid : ∃ document, (({} : Config).layOut tree .empty).result = .ok document := ⟨_, rfl⟩
  obtain ⟨document, hDocument⟩ := hLaid
  have hSites : ∃ above, ⟨above, .footnoteReference "7" none⟩ ∈
      Site.ofNodes showsInside [] tree.children := by
    simp [tree, Site.ofNode, showsInside, Node.hidesInside, Node.children]
  have hDefines : Defines tree.children "7" := by
    simp [tree, Defines, Site.ofNode, showsInside, Node.hidesInside, Node.children,
      Node.definedFootnote?]
  obtain ⟨above, hSite⟩ := hSites
  obtain ⟨number, hNumber, -, -, -, hFound⟩ :=
    (plain_references_resolve hDocument).1 _ hSite "7" none rfl
  exact ⟨document, hDocument, number, hNumber, (hFound hDefines).1,
    (hFound hDefines).2 (by decide)⟩

/-- Two references to footnotes that are both defined show one number, and there is no footnote under
it. -/
theorem references_collapse :
    let tree : Tree :=
      ⟨[.paragraph [.footnoteReference "07" none, .footnoteReference "+7" none],
        .footnoteDefinition "07" none [.text "a"], .footnoteDefinition "+7" none [.text "b"]]⟩
    (∀ identifier ∈ ["07", "+7"], Defines tree.children identifier ∧
        ∃ p ∈ Site.ofNodes showsInside [] tree.children,
          p.node = .footnoteReference identifier none ∧ footnoteNumber identifier = .ok 7) ∧
      ∃ document, (({} : Config).layOut tree .empty).result = .ok document ∧
        document.body = [{ children := [.footnoteReference 7, .footnoteReference 7] }] ∧
        document.footnotes.find? "07" =
          some { children := [{ children := [.text { text := "a" }] }] } ∧
        document.footnotes.find? "+7" =
          some { children := [{ children := [.text { text := "b" }] }] } ∧
        document.footnotes.find? (toString 7) = none := by
  refine ⟨?_, _, rfl, rfl, rfl, rfl, rfl⟩
  have hPadded : footnoteNumber "07" = .ok 7 := rfl
  have hSigned : footnoteNumber "+7" = .ok 7 := rfl
  simp [Defines, Site.ofNode, showsInside, Node.hidesInside, Node.children, Node.definedFootnote?,
    hPadded, hSigned]

end Layout

end Manuscript
