import Manuscript.Proofs.Layout.Yield

/-!
# Nodes next to each other

What nodes are laid out to is put together from what its parts are laid out to. A node sees the
context of all its siblings and nothing of the siblings themselves: it puts its content behind theirs
and its footnotes before theirs, and what it puts there is the same whatever they gave.
-/

namespace Manuscript.Layout

variable {parser : LatexParser}

theorem together_empty (result : Except Error Laid) : together (.ok {}) result = result := by
  cases result with
  | error e => rfl
  | ok laid => exact congrArg Except.ok laid.empty_merge

theorem together_assoc (a b c : Except Error Laid) :
    together (together a b) c = together a (together b c) := by
  rcases a with e | a
  · rfl
  · rcases b with e | b
    · rfl
    · rcases c with e | c
      · rfl
      · exact congrArg Except.ok (Laid.merge_assoc a b c)

theorem map_merge_eq_together (out : Laid) (result : Except Error Laid) :
    result.map out.merge = together (.ok out) result := by
  cases result <;> rfl

theorem result_yieldAll_append (above : List Node) (xs ys : List (Node × Context)) :
    (yieldAll parser above (xs ++ ys)).result =
      together (yieldAll parser above xs).result (yieldAll parser above ys).result := by
  induction xs with
  | nil =>
    rw [yieldAll_nil]
    exact (together_empty _).symm
  | cons e rest ih =>
    obtain ⟨n, ctx⟩ := e
    calc
      (yieldAll parser above ((n, ctx) :: (rest ++ ys))).result =
          together (yieldNode parser above n ctx).result
            (yieldAll parser above (rest ++ ys)).result := result_yieldAll_cons _
      _ = together (yieldNode parser above n ctx).result
            (together (yieldAll parser above rest).result (yieldAll parser above ys).result) := by
        rw [ih]
      _ = together (yieldAll parser above ((n, ctx) :: rest)).result
            (yieldAll parser above ys).result := by
        rw [result_yieldAll_cons, together_assoc]

theorem result_layNode (n : Node) (ctx : Context) (out : Laid) :
    (layNode parser n ctx out).result =
      together (.ok out) (yieldNode parser [] n ctx).result := by
  rw [(layNode_behind parser n ctx out [] rfl).result, map_merge_eq_together]

theorem result_layAll_append (parser : LatexParser) (xs ys : List Node) (ctx : Context) :
    (layAll parser (xs ++ ys) ctx {}).result =
      together (layAll parser xs ctx {}).result (layAll parser ys ctx {}).result := by
  rw [result_layAll, result_layAll, result_layAll, List.map_append, result_yieldAll_append]

/-- Nodes next to each other are laid out like each part by itself: an error is that of the first part
that has one, and without an error the content of the parts follows each other, while footnotes of a
later part stand before those of an earlier one. A single node fails always or never, whatever has
been laid out before it, and else always adds the same. -/
theorem parts_are_laid_out_apart (parser : LatexParser) :
    (∀ (xs ys : List Node) (ctx : Context),
        let whole := (layAll parser (xs ++ ys) ctx {}).result
        (∀ e, (layAll parser xs ctx {}).result = .error e → whole = .error e) ∧
          ∀ first, (layAll parser xs ctx {}).result = .ok first →
            (∀ e, (layAll parser ys ctx {}).result = .error e → whole = .error e) ∧
              ∀ others, (layAll parser ys ctx {}).result = .ok others →
                whole = .ok (first.merge others)) ∧
      (∀ (n : Node) (ctx : Context),
        (∃ e, ∀ out, (layNode parser n ctx out).result = .error e) ∨
          ∃ added, ∀ out, (layNode parser n ctx out).result = .ok (out.merge added)) ∧
      ∀ out added : Laid,
        (out.merge added).content = out.content ++ added.content ∧
          ∀ identifier, (out.merge added).footnotes.find? identifier =
            (added.footnotes.find? identifier).or (out.footnotes.find? identifier) := by
  refine ⟨?_, ?_, ?_⟩
  · intro xs ys ctx whole
    have hWhole : whole = together _ _ := result_layAll_append parser xs ys ctx
    constructor
    · intro e hFirst
      rw [hWhole, hFirst]
      rfl
    · intro first hFirst
      rw [hWhole, hFirst]
      constructor
      · intro e hOthers
        rw [hOthers]
        rfl
      · intro others hOthers
        rw [hOthers]
        rfl
  · intro n ctx
    cases hNode : (yieldNode parser [] n ctx).result with
    | error e =>
      refine .inl ⟨e, fun out => ?_⟩
      rw [result_layNode, hNode]
      rfl
    | ok added =>
      refine .inr ⟨added, fun out => ?_⟩
      rw [result_layNode, hNode]
      rfl
  · intro out added
    exact ⟨rfl, Keyed.find?_override _ _⟩

end Manuscript.Layout
