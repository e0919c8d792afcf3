import Manuscript.Proofs.Conversion.Images
import Manuscript.Proofs.Layout.Equations

/-!
# Equations of a conversion

A conversion gives the parser of equations the sources that its tree shows, in their order. A tree
that cannot be laid out has given those before its first offence. The parser has no part in which
sources these are.
-/

namespace Manuscript

namespace Config

open Layout (asks_layAll beforeOffence beforeOffence_eq_self beforeOffence_of_refused offence
  refusal showsInside)

variable (config : Config) (tree : Tree) (images : ImageTable)

theorem equations_layOut_eq_layAll :
    Noted.equations (config.layOut tree images).notes =
      Noted.equations (Layout.layAll config.latex tree.children (.root images) {}).notes := by
  rw [layOut, Document.ofTree]
  obtain ⟨notes, _ | laid⟩ := Layout.layAll config.latex tree.children (.root images) {}
  · rfl
  · exact congrArg Noted.equations (List.append_nil notes)

theorem equations_layOut :
    Noted.equations (config.layOut tree images).notes =
      equationsAt (beforeOffence images (Site.ofNodes showsInside [] tree.children)) :=
  (equations_layOut_eq_layAll config tree images).trans
    (asks_layAll config.latex tree.children (.root images)).equations

theorem refusal_layOut :
    refusal (config.layOut tree images).result =
      (Site.ofNodes showsInside [] tree.children).findSome? (offence images) := by
  rw [result_layOut, Layout.refusal_map]
  exact (asks_layAll config.latex tree.children (.root images)).refusal

/-- The parser of equations is given the sources of all equations outside tables and link references
in the order of the document, each once and as it stands, if the tree can be laid out, and else those
before the first offence, whose error is the result. Another parser is given the same sources and
does not change the error, and one that makes the same of these sources changes nothing. -/
theorem parser_is_given_each_equation (config : Config) (tree : Tree) (images : ImageTable) :
    let sites := Site.ofNodes showsInside [] tree.children
    let laid := config.layOut tree images
    let given := Noted.equations laid.notes
    (∀ document, laid.result = .ok document → given = equationsAt sites) ∧
      (∀ e, laid.result = .error e →
        ∃ before p after, sites = before ++ p :: after ∧
          (∀ q ∈ before, offence images q = none) ∧ offence images p = some e ∧
            given = equationsAt before) ∧
      ∀ parser : LatexParser,
        let other := { config with latex := parser }.layOut tree images
        Noted.equations other.notes = given ∧
          (∀ e, other.result = .error e ↔ laid.result = .error e) ∧
          ((∀ source ∈ given, parser source = config.latex source) →
            other.result = laid.result) := by
  intro sites laid given
  have hGiven : given = equationsAt (beforeOffence images sites) :=
    equations_layOut config tree images
  have hRefusal : refusal laid.result = sites.findSome? (offence images) :=
    refusal_layOut config tree images
  refine ⟨?_, ?_, ?_⟩
  · intro document hOk
    rw [hOk] at hRefusal
    rw [hGiven, beforeOffence_eq_self hRefusal.symm]
  · intro e hError
    rw [hError] at hRefusal
    obtain ⟨before, p, after, hSites, hOffence, hBefore⟩ :=
      List.findSome?_eq_some_iff.mp hRefusal.symm
    refine ⟨before, p, after, hSites, hBefore, hOffence, ?_⟩
    rw [hGiven, hSites, beforeOffence_of_refused hBefore hOffence]
  · intro parser other
    have hOther : refusal other.result = refusal laid.result :=
      (refusal_layOut _ tree images).trans hRefusal.symm
    refine ⟨(equations_layOut _ tree images).trans hGiven.symm, fun e => ?_, fun hAgree => ?_⟩
    · rw [← Layout.refusal_eq_some_iff, ← Layout.refusal_eq_some_iff, hOther]
    · have hGivenLaid : given = _ := equations_layOut_eq_layAll config tree images
      rw [hGivenLaid] at hAgree
      rw [result_layOut, result_layOut, Layout.result_layAll_of_agree hAgree]

end Config

end Manuscript
