import Manuscript.Proofs.Layout.Yield

/-!
# Nodes that do not show

Nodes can be taken out of a tree at any depth. If the nodes that go show nothing of what one looks at
(the content, say, or one footnote) and no node lets through more than what shows of the nodes inside
it, the smaller tree shows the same: it is laid out too, and nothing else has moved.
-/

namespace Manuscript

namespace Node

/-- The node with other nodes inside, if it can hold any. -/
def withChildren (cs : List Node) : Node → Node
  | .paragraph _ => .paragraph cs
  | .heading depth _ => .heading depth cs
  | .blockquote _ => .blockquote cs
  | .list ordered start spread _ => .list ordered start spread cs
  | .listItem checked spread _ => .listItem checked spread cs
  | .table align _ => .table align cs
  | .tableRow _ => .tableRow cs
  | .tableCell _ => .tableCell cs
  | .footnoteDefinition identifier label _ => .footnoteDefinition identifier label cs
  | .emphasis _ => .emphasis cs
  | .strong _ => .strong cs
  | .delete _ => .delete cs
  | .link url title _ => .link url title cs
  | .linkReference identifier label referenceType _ =>
    .linkReference identifier label referenceType cs
  | n => n

end Node

/-- Which nodes go, and which of the others stay with all that is inside them. -/
structure Pruning where
  goes : Node → Bool
  stays : Node → Bool

namespace Pruning

variable (t : Pruning)

mutual

def node (n : Node) : Node :=
  if t.stays n then n else n.withChildren (nodes n.children)
termination_by 2 * sizeOf n + 1
decreasing_by
  have := n.sizeOf_children
  omega

def nodes (ns : List Node) : List Node :=
  match ns with
  | [] => []
  | n :: rest => if t.goes n then nodes rest else node n :: nodes rest
termination_by 2 * sizeOf ns
decreasing_by
  all_goals
    rw [List.cons.sizeOf_spec]
    omega

end

theorem nodes_nil : t.nodes [] = [] := by
  rw [nodes]

theorem nodes_cons (n : Node) (rest : List Node) :
    t.nodes (n :: rest) = if t.goes n then t.nodes rest else t.node n :: t.nodes rest := by
  rw [nodes]

theorem node_of_stays {t : Pruning} {n : Node} (h : t.stays n = true) : t.node n = n := by
  rw [node, if_pos h]

theorem node_of_not_stays {t : Pruning} {n : Node} (h : t.stays n = false) :
    t.node n = n.withChildren (t.nodes n.children) := by
  rw [node, if_neg (by rw [h]; decide)]

theorem isParagraph_withChildren (n : Node) (cs : List Node) :
    (n.withChildren cs).isParagraph = n.isParagraph := by
  cases n <;> rfl

theorem isParagraph_node (n : Node) : (t.node n).isParagraph = n.isParagraph := by
  rw [node]
  split
  · rfl
  · exact isParagraph_withChildren n _

/-- Nodes in contexts, pruned. -/
def placed (ns : List (Node × Context)) : List (Node × Context) :=
  (ns.filter fun e => !t.goes e.1).map fun e => (t.node e.1, e.2)

theorem placed_cons (e : Node × Context) (rest : List (Node × Context)) :
    t.placed (e :: rest) = if t.goes e.1 then t.placed rest else (t.node e.1, e.2) :: t.placed rest := by
  rw [placed, List.filter_cons]
  cases t.goes e.1 <;> rfl

theorem map_pair_nodes (ns : List Node) (ctx : Context) :
    (t.nodes ns).map (·, ctx) = t.placed (ns.map (·, ctx)) := by
  induction ns with
  | nil =>
    rw [nodes_nil]
    rfl
  | cons n rest ih =>
    rw [nodes_cons, List.map_cons, placed_cons, ← ih]
    split <;> rfl

theorem map_boxes_nodes {t : Pruning} (hGoes : ∀ n, t.goes n = true → n.isParagraph = false)
    (f : Option Bool → Context) (checked : Option Bool) (ns : List Node) :
    (Layout.boxes checked (t.nodes ns)).map (fun e => (e.1, f e.2)) =
      t.placed ((Layout.boxes checked ns).map fun e => (e.1, f e.2)) := by
  induction ns generalizing checked with
  | nil =>
    rw [nodes_nil]
    rfl
  | cons n rest ih =>
    rw [nodes_cons, Layout.boxes, List.map_cons, placed_cons]
    by_cases h : t.goes n = true
    · rw [if_pos h, if_pos h, ih, hGoes n h]
      rfl
    · rw [if_neg h, if_neg h, Layout.boxes, List.map_cons, isParagraph_node, ih]

theorem inside_node {t : Pruning} (hGoes : ∀ n, t.goes n = true → n.isParagraph = false)
    (ctx : Context) {n : Node} (h : t.stays n = false) :
    Layout.inside ctx (t.node n) = t.placed (Layout.inside ctx n) := by
  rw [node_of_not_stays h]
  cases n with
  | listItem checked spread cs => exact map_boxes_nodes hGoes _ checked cs
  | paragraph | heading | blockquote | list | tableRow | tableCell | footnoteDefinition | emphasis
  | strong | delete | link => exact map_pair_nodes t _ _
  | _ => rfl

theorem offence_withChildren (images : ImageTable) (above : List Node) (n : Node) (cs : List Node) :
    Layout.offence images ⟨above, n.withChildren cs⟩ = Layout.offence images ⟨above, n⟩ := by
  rw [Layout.offence, Layout.offence]
  cases n <;> rfl

theorem isInList_withChildren (n : Node) (cs above : List Node) :
    isInList (n.withChildren cs :: above) = isInList (n :: above) := by
  cases n <;> rfl

end Pruning

namespace Layout

variable {parser : LatexParser} {α : Type}

/-- What one looks at does not depend on the nodes that go. -/
structure Hides (parser : LatexParser) (t : Pruning) (view : Laid → α) : Prop where
  notParagraph : ∀ n, t.goes n = true → n.isParagraph = false
  goes : ∀ ctx n inner, t.goes n = true → view (close parser ctx n inner) = view {}
  stays : ∀ ctx n cs inner other, t.stays n = false → view other = view inner →
    view (close parser ctx (n.withChildren cs) other) = view (close parser ctx n inner)
  merge : ∀ a b c d, view a = view b → view c = view d → view (a.merge c) = view (b.merge d)

theorem Hides.yieldAll {t : Pruning} {view : Laid → α} (h : Hides parser t view)
    {nodes : List (Node × Context)} {above other : List Node} {laid : Laid}
    (hAbove : isInList other = isInList above)
    (hLaid : (yieldAll parser above nodes).result = .ok laid) :
    ∃ less, (Layout.yieldAll parser other (t.placed nodes)).result = .ok less ∧
      view less = view laid := by
  refine yieldAll_induct_inner
    (P := fun above n ctx laid =>
      (t.goes n = true → view laid = view {}) ∧
        (t.goes n = false → ∀ other, isInList other = isInList above →
          ∃ less, (yieldNode parser other (t.node n) ctx).result = .ok less ∧
            view less = view laid))
    (Q := fun above nodes laid => ∀ other, isInList other = isInList above →
      ∃ less, (Layout.yieldAll parser other (t.placed nodes)).result = .ok less ∧
        view less = view laid)
    ?_ ?_ ?_ hLaid other hAbove
  · intro above n ctx inner hOffence hInner ih
    refine ⟨h.goes ctx n inner, fun _ other hOther => ?_⟩
    -- The node above may have lost nodes, but it is a list if it was one, and no rule asks for more.
    have hSame : offence ctx.images ⟨other, n⟩ = none := by
      rw [offence, hOther]
      exact hOffence
    cases hStays : t.stays n with
    | true =>
      have hCons : isInList (n :: other) = isInList (n :: above) := by cases n <;> rfl
      refine ⟨close parser ctx n inner, ?_, rfl⟩
      rw [Pruning.node_of_stays hStays, yieldNode_of_allowed hSame, yieldAll_above _ hCons, hInner]
      rfl
    | false =>
      have hCons : isInList (t.node n :: other) = isInList (n :: above) := by
        rw [Pruning.node_of_not_stays hStays, Pruning.isInList_withChildren]
        cases n <;> rfl
      obtain ⟨less, hLess, hView⟩ := ih (t.node n :: other) hCons
      refine ⟨close parser ctx (t.node n) less, ?_, ?_⟩
      · rw [yieldNode_of_allowed, Pruning.inside_node h.notParagraph ctx hStays, hLess]
        · rfl
        · rw [Pruning.node_of_not_stays hStays, Pruning.offence_withChildren]
          exact hSame
      · rw [Pruning.node_of_not_stays hStays]
        exact h.stays ctx n _ inner less hStays hView
  · intro above other _
    exact ⟨{}, by rw [Pruning.placed, List.filter_nil, List.map_nil, yieldAll_nil]; rfl, rfl⟩
  · rintro above n ctx rest first others ⟨hGoes, hNode⟩ ihRest other hOther
    obtain ⟨less, hLess, hView⟩ := ihRest other hOther
    rw [Pruning.placed_cons]
    cases hGone : t.goes n with
    | true =>
      refine ⟨less, hLess, ?_⟩
      have hMerge := h.merge {} first less others (hGoes hGone).symm hView
      rwa [Laid.empty_merge] at hMerge
    | false =>
      obtain ⟨lessFirst, hLessFirst, hViewFirst⟩ := hNode hGone other hOther
      refine ⟨lessFirst.merge less, ?_, h.merge _ _ _ _ hViewFirst hView⟩
      rw [if_neg (by decide), result_yieldAll_cons, hLessFirst, hLess]
      rfl

theorem Hides.layAll {t : Pruning} {view : Laid → α} (h : Hides parser t view)
    {nodes : List Node} {ctx : Context} {laid : Laid}
    (hLaid : (layAll parser nodes ctx {}).result = .ok laid) :
    ∃ less, (Layout.layAll parser (t.nodes nodes) ctx {}).result = .ok less ∧
      view less = view laid := by
  rw [result_layAll] at hLaid
  rw [result_layAll, Pruning.map_pair_nodes]
  exact h.yieldAll rfl hLaid

end Layout

end Manuscript
