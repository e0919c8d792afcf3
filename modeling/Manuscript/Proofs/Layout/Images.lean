import Manuscript.Proofs.Layout.FirstOffence

/-!
# Images that are looked up

The walk looks up the images that stand in a tree outside tables and link references, and no others:
tables that find the same for these are as good as each other. So every image that is missing when a
tree is laid out is one of the images of the tree.
-/

namespace Manuscript

def Context.withImages (ctx : Context) (images : ImageTable) : Context :=
  { ctx with images }

namespace Layout

/-- Two tables find the same for the image that a node may be. -/
def Agree (images other : ImageTable) (n : Node) : Prop :=
  ∀ url, n.imageUrl? = some url → images.find? url = other.find? url

/-- Whether the walk goes into a node unless something is wrong with it. -/
def showsInside (p : Site) : Bool :=
  !p.node.hidesInside

theorem offence_congr {images other : ImageTable} {n : Node} (h : Agree images other n)
    (above : List Node) : offence images ⟨above, n⟩ = offence other ⟨above, n⟩ := by
  cases n with
  | image url title alt =>
    have hUrl : images.find? url = other.find? url := h url rfl
    rw [offence, offence, nodeOffence, nodeOffence, Keyed.has, Keyed.has, hUrl]
  | _ => rfl

theorem close_withImages {ctx : Context} {other : ImageTable} {n : Node}
    (h : Agree ctx.images other n) (parser : LatexParser) :
    close parser (ctx.withImages other) n = close parser ctx n := by
  funext inner
  cases n with
  | image url title alt =>
    have hUrl : ctx.images.find? url = other.find? url := h url rfl
    rw [close, close, hUrl]
    rfl
  | _ => rfl

theorem inside_withImages (ctx : Context) (other : ImageTable) (n : Node) :
    inside (ctx.withImages other) n = (inside ctx n).map fun e => (e.1, e.2.withImages other) := by
  cases n with
  | listItem checked spread cs =>
    rw [inside, inside, List.map_map]
    rfl
  | _ =>
    first
    | rfl
    | change List.map _ _ = List.map _ (List.map _ _)
      rw [List.map_map]
      rfl

/-- What nodes yield depends on the images outside tables and link references alone. -/
theorem yieldAll_withImages (parser : LatexParser) (nodes : List (Node × Context))
    (above : List Node) {images other : ImageTable} (hImages : ∀ e ∈ nodes, e.2.images = images)
    (hAgree : ∀ p ∈ Site.ofNodes showsInside above (nodes.map Prod.fst),
      Agree images other p.node) :
    yieldAll parser above (nodes.map fun e => (e.1, e.2.withImages other)) =
      yieldAll parser above nodes := by
  -- The tables are compared at the sites inside a node, so the agreement is part of the induction.
  refine yieldAll_induct
    (P := fun above n ctx m =>
      (∀ p ∈ Site.ofNode showsInside above n, Agree ctx.images other p.node) →
        yieldNode parser above n (ctx.withImages other) = m)
    (Q := fun above nodes m => ∀ images, (∀ e ∈ nodes, e.2.images = images) →
      (∀ p ∈ Site.ofNodes showsInside above (nodes.map Prod.fst), Agree images other p.node) →
        yieldAll parser above (nodes.map fun e => (e.1, e.2.withImages other)) = m)
    ?_ ?_ ?_ ?_ nodes above images hImages hAgree
  · intro above n ctx e hOffence hAgree
    rw [Site.ofNode] at hAgree
    rw [offence_congr (hAgree _ List.mem_cons_self)] at hOffence
    exact yieldNode_of_offence hOffence
  · intro above n ctx inner hOffence ih hAgree
    rw [Site.ofNode] at hAgree
    have hNode : Agree ctx.images other n := hAgree _ List.mem_cons_self
    rw [offence_congr hNode] at hOffence
    rw [yieldNode_of_allowed hOffence, inside_withImages, close_withImages hNode,
      ih ctx.images (fun e he => images_of_mem_inside he) fun p hp => ?_]
    rw [map_fst_inside] at hp
    refine hAgree p (List.mem_cons_of_mem _ ?_)
    cases hHides : n.hidesInside with
    | true => simp [hHides] at hp
    | false => simpa [hHides, showsInside] using hp
  · intro above images _ _
    exact yieldAll_nil
  · intro above n ctx rest first others ihFirst ihRest images hImages hAgree
    obtain rfl : ctx.images = images := hImages (n, ctx) List.mem_cons_self
    rw [List.map_cons, Site.ofNodes_cons] at hAgree
    rw [List.map_cons, yieldAll_cons, ihFirst fun p hp => hAgree p (List.mem_append_left _ hp),
      ihRest ctx.images (fun e he => hImages e (List.mem_cons_of_mem _ he)) fun p hp =>
        hAgree p (List.mem_append_right _ hp)]

theorem layAll_withImages (parser : LatexParser) (nodes : List Node) (ctx : Context)
    {other : ImageTable}
    (hAgree : ∀ p ∈ Site.ofNodes showsInside [] nodes, Agree ctx.images other p.node) :
    (layAll parser nodes (ctx.withImages other) {}).result = (layAll parser nodes ctx {}).result := by
  have hImages : ∀ e ∈ nodes.map (·, ctx), e.2.images = ctx.images :=
    fun e he => congrArg Context.images (snd_of_mem_pair he)
  rw [← map_fst_pair nodes ctx] at hAgree
  have hYield := yieldAll_withImages parser (nodes.map (·, ctx)) [] hImages hAgree
  rw [List.map_map] at hYield
  rw [result_layAll, result_layAll, ← hYield]
  rfl

theorem imageUrl?_of_offence {images : ImageTable} {p : Site} {url : String}
    (h : offence images p = some (.imageNotResolved url)) :
    p.node.imageUrl? = some url ∧ images.find? url = none := by
  obtain ⟨above, n⟩ := p
  rw [offence] at h
  split at h
  · cases n <;> cases h
  · cases n with
    | image asked title alt =>
      rw [nodeOffence] at h
      split at h
      · cases h
      · rename_i hAbsent
        obtain rfl : asked = url := by simpa using h
        exact ⟨rfl, by simpa [Keyed.has] using hAbsent⟩
    | heading depth cs =>
      rw [nodeOffence] at h
      split at h <;> cases h
    | footnoteReference identifier label =>
      rw [nodeOffence] at h
      split at h <;> cases h
    | _ => cases h

theorem layAll_imageNotResolved {parser : LatexParser} {nodes : List Node} {ctx : Context}
    {url : String} (h : (layAll parser nodes ctx {}).result = .error (.imageNotResolved url)) :
    url ∈ Node.imageUrls nodes ∧ ctx.images.find? url = none := by
  rw [← refusal_eq_some_iff, refusal_layAll] at h
  obtain ⟨p, hVisited, hOffence⟩ := List.exists_of_findSome?_eq_some h
  obtain ⟨hUrl, hAbsent⟩ := imageUrl?_of_offence hOffence
  exact ⟨Site.url_mem_imageUrls hVisited hUrl, hAbsent⟩

end Layout

end Manuscript
