import Manuscript.Proofs.Layout.Images

/-!
# Sources of equations

While nodes are laid out, the parser of equations is given the sources of equations in the order of
the document, each as it stands and once for each equation, up to the first offence. What the parser
makes of them changes neither what it is given nor the offence, and nothing but these sources matters
of a parser.
-/

namespace Manuscript

/-- The source of an equation. -/
def Node.equation? : Node → Option String
  | .math _ source | .inlineMath source => some source
  | _ => none

/-- The sources of the equations among some sites, in their order. -/
def equationsAt (sites : List Site) : List String :=
  sites.filterMap fun p => p.node.equation?

namespace Layout

/-- The sites before the first one with an offence. -/
def beforeOffence (images : ImageTable) (sites : List Site) : List Site :=
  sites.takeWhile fun p => (offence images p).isNone

theorem beforeOffence_of_allowed {images : ImageTable} {sites : List Site}
    (h : sites.findSome? (offence images) = none) (others : List Site) :
    beforeOffence images (sites ++ others) = sites ++ beforeOffence images others := by
  rw [List.findSome?_eq_none_iff] at h
  exact List.takeWhile_append_of_pos fun p hp => Option.isNone_iff_eq_none.mpr (h p hp)

theorem beforeOffence_eq_self {images : ImageTable} {sites : List Site}
    (h : sites.findSome? (offence images) = none) : beforeOffence images sites = sites := by
  have hSites := beforeOffence_of_allowed h []
  rwa [List.append_nil, show beforeOffence images [] = [] from rfl, List.append_nil] at hSites

theorem beforeOffence_of_refused {images : ImageTable} {before : List Site} {p : Site} {e : Error}
    (hBefore : ∀ q ∈ before, offence images q = none) (hOffence : offence images p = some e)
    (after : List Site) : beforeOffence images (before ++ p :: after) = before := by
  rw [beforeOffence_of_allowed (List.findSome?_eq_none_iff.mpr hBefore), beforeOffence,
    List.takeWhile_cons_of_neg (by simp [hOffence]), List.append_nil]

theorem beforeOffence_append_of_refused {images : ImageTable} {sites : List Site} {e : Error}
    (h : sites.findSome? (offence images) = some e) (others : List Site) :
    beforeOffence images (sites ++ others) = beforeOffence images sites := by
  obtain ⟨before, p, after, rfl, hOffence, hBefore⟩ := List.findSome?_eq_some_iff.mp h
  rw [List.append_assoc, List.cons_append, beforeOffence_of_refused hBefore hOffence,
    beforeOffence_of_refused hBefore hOffence]

/-- Some sites are laid out: the first offence is the error, and the sources of the equations before
it were given to the parser. -/
structure Asks (images : ImageTable) (sites : List Site) (m : Noted Laid) : Prop where
  refusal : refusal m.result = sites.findSome? (offence images)
  equations : Noted.equations m.notes = equationsAt (beforeOffence images sites)

theorem equations_sources (n : Node) : Noted.equations (sources n) = n.equation?.toList := by
  cases n <;> rfl

namespace Asks

variable {images : ImageTable} {first others : Noted Laid} {sites more : List Site}

theorem append (hFirst : Asks images sites first) (hOthers : Asks images more others) :
    Asks images (sites ++ more) (first >>= fun a => others >>= fun b => pure (a.merge b)) where
  refusal := by
    rw [refusal_cons, hFirst.refusal, hOthers.refusal, List.findSome?_append]
  equations := by
    have hRefusal := hFirst.refusal
    have hEquations := hFirst.equations
    obtain ⟨notes, e | a⟩ := first
    · rw [Noted.bind_error, beforeOffence_append_of_refused hRefusal.symm]
      exact hEquations
    · have hMore := hOthers.equations
      rw [beforeOffence_eq_self hRefusal.symm] at hEquations
      rw [beforeOffence_of_allowed hRefusal.symm, equationsAt, List.filterMap_append, Noted.bind_ok,
        Noted.equations_append, hEquations]
      obtain ⟨moreNotes, e | b⟩ := others
      · exact congrArg _ hMore
      · rw [Noted.bind_ok, Noted.pure_eq, List.append_nil]
        exact congrArg _ hMore

theorem refused {above : List Node} {n : Node} {e : Error}
    (hOffence : offence images ⟨above, n⟩ = some e) :
    Asks images (Site.ofNode showsInside above n) (.fail e) := by
  rw [Site.ofNode]
  constructor
  · rw [List.findSome?_cons, hOffence]
    rfl
  · rw [beforeOffence, List.takeWhile_cons_of_neg (by simp [hOffence])]
    rfl

theorem allowed {above : List Node} {n : Node} {inner : Noted Laid} (f : Laid → Laid)
    (hOffence : offence images ⟨above, n⟩ = none)
    (hInner : Asks images
      (Site.ofNodes showsInside (n :: above) (if n.hidesInside then [] else n.children)) inner) :
    Asks images (Site.ofNode showsInside above n) ⟨sources n ++ inner.notes, inner.result.map f⟩ := by
  have hSites : Site.ofNode showsInside above n =
      [⟨above, n⟩] ++
        Site.ofNodes showsInside (n :: above) (if n.hidesInside then [] else n.children) := by
    rw [Site.ofNode, showsInside]
    cases n.hidesInside
    · rfl
    · exact congrArg _ (Site.ofNodes_nil _ _).symm
  rw [hSites]
  constructor
  · rw [refusal_map, hInner.refusal, List.findSome?_append, List.findSome?_singleton, hOffence]
    rfl
  · rw [beforeOffence_of_allowed (by rw [List.findSome?_singleton, hOffence]), equationsAt,
      List.filterMap_append, Noted.equations_append, equations_sources, hInner.equations]
    cases n <;> rfl

end Asks

/-- What nodes yield asks for the equations before the first offence that a walk meets. -/
theorem asks_yieldAll (parser : LatexParser) (nodes : List (Node × Context)) (above : List Node)
    {images : ImageTable} (hImages : ∀ e ∈ nodes, e.2.images = images) :
    Asks images (Site.ofNodes showsInside above (nodes.map Prod.fst))
      (yieldAll parser above nodes) := by
  refine yieldAll_induct
    (P := fun above n ctx m => Asks ctx.images (Site.ofNode showsInside above n) m)
    (Q := fun above nodes m => ∀ images, (∀ e ∈ nodes, e.2.images = images) →
      Asks images (Site.ofNodes showsInside above (nodes.map Prod.fst)) m)
    ?_ ?_ ?_ ?_ nodes above images hImages
  · intro above n ctx e hOffence
    exact .refused hOffence
  · intro above n ctx inner hOffence ih
    have hInner := ih ctx.images fun e he => images_of_mem_inside he
    rw [map_fst_inside] at hInner
    exact .allowed _ hOffence hInner
  · intro above images _
    rw [List.map_nil, Site.ofNodes_nil]
    exact ⟨rfl, rfl⟩
  · intro above n ctx rest first others ihFirst ihRest images hImages
    obtain rfl : ctx.images = images := hImages (n, ctx) List.mem_cons_self
    rw [List.map_cons, Site.ofNodes_cons]
    exact ihFirst.append (ihRest ctx.images fun e he => hImages e (List.mem_cons_of_mem _ he))

theorem asks_layAll (parser : LatexParser) (nodes : List Node) (ctx : Context) :
    Asks ctx.images (Site.ofNodes showsInside [] nodes) (layAll parser nodes ctx {}) := by
  have hImages : ∀ e ∈ nodes.map (·, ctx), e.2.images = ctx.images :=
    fun e he => congrArg Context.images (snd_of_mem_pair he)
  have hYield := asks_yieldAll parser _ [] hImages
  rw [map_fst_pair] at hYield
  refine ⟨?_, (layAll_behind_empty parser nodes ctx).equations.trans hYield.equations⟩
  rw [result_layAll]
  exact hYield.refusal

/-- A parser matters only by what it makes of the sources that it is given. -/
theorem yieldAll_of_agree {parser other : LatexParser} (nodes : List (Node × Context))
    (above : List Node)
    (h : ∀ source ∈ Noted.equations (yieldAll parser above nodes).notes,
      other source = parser source) :
    yieldAll other above nodes = yieldAll parser above nodes := by
  refine yieldAll_induct
    (P := fun above n ctx m => (∀ source ∈ Noted.equations m.notes, other source = parser source) →
      yieldNode other above n ctx = m)
    (Q := fun above nodes m => (∀ source ∈ Noted.equations m.notes, other source = parser source) →
      yieldAll other above nodes = m)
    ?_ ?_ ?_ ?_ nodes above h
  · intro above n ctx e hOffence _
    exact yieldNode_of_offence hOffence
  · intro above n ctx inner hOffence ih hAgree
    rw [Noted.equations_append, List.forall_mem_append] at hAgree
    have hClose : close other ctx n = close parser ctx n := by
      funext laid
      have hOwn := hAgree.1
      cases n with
      | math info source =>
        rw [close, close, Latex.blockMath, Latex.blockMath, hOwn source List.mem_cons_self]
      | inlineMath source =>
        rw [close, close, Latex.inlineMath, Latex.inlineMath, hOwn source List.mem_cons_self]
      | _ => rfl
    rw [yieldNode_of_allowed hOffence, ih hAgree.2, hClose]
  · intro above _
    exact yieldAll_nil
  · intro above n ctx rest first others ihFirst ihRest hAgree
    obtain ⟨notes, e | a⟩ := first
    · rw [yieldAll_cons, ihFirst hAgree]
      rfl
    · rw [Noted.bind_ok, Noted.equations_append, List.forall_mem_append] at hAgree
      rw [yieldAll_cons, ihFirst hAgree.1, ihRest]
      intro source hMem
      refine hAgree.2 source ?_
      obtain ⟨more, e | b⟩ := others
      · exact hMem
      · rw [Noted.bind_ok, Noted.pure_eq, List.append_nil]
        exact hMem

theorem result_layAll_of_agree {parser other : LatexParser} {nodes : List Node} {ctx : Context}
    (h : ∀ source ∈ Noted.equations (layAll parser nodes ctx {}).notes,
      other source = parser source) :
    (layAll other nodes ctx {}).result = (layAll parser nodes ctx {}).result := by
  rw [(layAll_behind_empty parser nodes ctx).equations] at h
  rw [result_layAll, result_layAll, yieldAll_of_agree _ _ h]

end Layout

end Manuscript
