import Manuscript.Proofs.Layout.Yield

/-!
# The first offence

A tree is laid out exactly if no node that the walk visits has an offence. Otherwise the error is the
offence that comes first in the order of the document: a node is judged before the nodes inside it,
and the nodes inside a table, inside a link reference or inside a node with an offence are not judged.
-/

namespace Manuscript.Layout

def judgesInside (images : ImageTable) (p : Site) : Bool :=
  !p.node.hidesInside && (offence images p).isNone

/-- The sites of the nodes that are judged, in the order of the document. -/
def visited (images : ImageTable) (nodes : List Node) : List Site :=
  Site.ofNodes (judgesInside images) [] nodes

def refusal {α : Type} : Except Error α → Option Error
  | .ok _ => none
  | .error e => some e

theorem refusal_eq_none_iff {α : Type} {result : Except Error α} :
    refusal result = none ↔ ∃ x, result = .ok x := by
  cases result <;> simp [refusal]

theorem refusal_eq_some_iff {α : Type} {result : Except Error α} {e : Error} :
    refusal result = some e ↔ result = .error e := by
  cases result <;> simp [refusal]

@[simp]
theorem refusal_map {α β : Type} (f : α → β) (result : Except Error α) :
    refusal (result.map f) = refusal result := by
  cases result <;> rfl

theorem refusal_cons (first others : Noted Laid) :
    refusal (first >>= fun a => others >>= fun b => pure (a.merge b)).result =
      (refusal first.result).or (refusal others.result) := by
  obtain ⟨notes, _ | a⟩ := first
  · rfl
  · obtain ⟨more, _ | b⟩ := others <;> rfl

/-- The error of what nodes yield is the first offence that the walk meets. -/
theorem refusal_yieldAll (parser : LatexParser) (nodes : List (Node × Context))
    (above : List Node) (images : ImageTable) (hImages : ∀ e ∈ nodes, e.2.images = images) :
    refusal (yieldAll parser above nodes).result =
      (Site.ofNodes (judgesInside images) above (nodes.map Prod.fst)).findSome?
        (offence images) := by
  refine yieldAll_induct
    (P := fun above n ctx m => refusal m.result =
      (Site.ofNode (judgesInside ctx.images) above n).findSome? (offence ctx.images))
    (Q := fun above nodes m => ∀ images, (∀ e ∈ nodes, e.2.images = images) →
      refusal m.result =
        (Site.ofNodes (judgesInside images) above (nodes.map Prod.fst)).findSome?
          (offence images))
    ?_ ?_ ?_ ?_ nodes above images hImages
  · intro above n ctx e hOffence
    rw [Site.ofNode, List.findSome?_cons, hOffence]
    rfl
  · intro above n ctx inner hOffence ih
    have hInner := ih ctx.images fun e he => images_of_mem_inside he
    rw [map_fst_inside] at hInner
    rw [refusal_map, hInner, Site.ofNode, List.findSome?_cons, hOffence, judgesInside, hOffence]
    cases n.hidesInside <;> simp
  · intro above images _
    rw [List.map_nil, Site.ofNodes_nil]
    rfl
  · intro above n ctx rest first others ihFirst ihRest images hImages
    obtain rfl : ctx.images = images := hImages (n, ctx) List.mem_cons_self
    rw [refusal_cons, ihFirst, ihRest ctx.images fun e he => hImages e (List.mem_cons_of_mem _ he),
      List.map_cons, Site.ofNodes_cons, List.findSome?_append]

theorem refusal_layAll (parser : LatexParser) (nodes : List Node) (ctx : Context) :
    refusal (layAll parser nodes ctx {}).result =
      (visited ctx.images nodes).findSome? (offence ctx.images) := by
  have hImages : ∀ e ∈ nodes.map (·, ctx), e.2.images = ctx.images :=
    fun e he => congrArg Context.images (snd_of_mem_pair he)
  rw [result_layAll, refusal_yieldAll parser _ [] ctx.images hImages, map_fst_pair, visited]

/-- Nodes are laid out exactly if no node that is judged has an offence, and the error is otherwise
the offence of the first one. -/
theorem layAll_fails_at_first_offence (parser : LatexParser) (nodes : List Node) (ctx : Context) :
    ((∃ laid, (layAll parser nodes ctx {}).result = .ok laid) ↔
        ∀ p ∈ visited ctx.images nodes, offence ctx.images p = none) ∧
      ∀ e, (layAll parser nodes ctx {}).result = .error e ↔
        ∃ before p after, visited ctx.images nodes = before ++ p :: after ∧
          (∀ q ∈ before, offence ctx.images q = none) ∧ offence ctx.images p = some e := by
  constructor
  · rw [← refusal_eq_none_iff, refusal_layAll, List.findSome?_eq_none_iff]
  · intro e
    rw [← refusal_eq_some_iff, refusal_layAll, List.findSome?_eq_some_iff]
    constructor
    · rintro ⟨before, p, after, hSplit, hOffence, hBefore⟩
      exact ⟨before, p, after, hSplit, hBefore, hOffence⟩
    · rintro ⟨before, p, after, hSplit, hBefore, hOffence⟩
      exact ⟨before, p, after, hSplit, hOffence, hBefore⟩

end Manuscript.Layout
