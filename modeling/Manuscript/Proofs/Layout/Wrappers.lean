import Manuscript.Proofs.Layout.Siblings

/-!
# Emphasis, strong text and deletion

The three kinds of nodes that only decorate what is in them can be nested in any way. Such a chain does
nothing but set a flag of the decoration for each kind that occurs in it, so neither its order nor its
length matters, and it can be moved from some nodes next to each other to each of them.
-/

namespace Manuscript

/-- The kinds of nodes that decorate what is in them. -/
inductive Wrapper
  | emphasis
  | strong
  | delete
deriving DecidableEq

namespace Wrapper

def node : Wrapper → List Node → Node
  | emphasis, cs => .emphasis cs
  | strong, cs => .strong cs
  | delete, cs => .delete cs

/-- Some nodes in a chain of wrappers, the outermost first. -/
def chain (ws : List Wrapper) (cs : List Node) : List Node :=
  ws.foldr (fun w inner => [w.node inner]) cs

@[simp]
theorem chain_nil (cs : List Node) : chain [] cs = cs := rfl

@[simp]
theorem chain_cons (w : Wrapper) (ws : List Wrapper) (cs : List Node) :
    chain (w :: ws) cs = [w.node (chain ws cs)] := rfl

end Wrapper

/-- The decoration with the flags of some wrappers set. -/
def Decoration.flagged (d : Decoration) (ws : List Wrapper) : Decoration :=
  { bold := d.bold || decide (.strong ∈ ws)
    italic := d.italic || decide (.emphasis ∈ ws)
    strikethrough := d.strikethrough || decide (.delete ∈ ws) }

namespace Context

def flagged (ctx : Context) (ws : List Wrapper) : Context :=
  { ctx with decoration := ctx.decoration.flagged ws }

theorem flagged_nil (ctx : Context) : ctx.flagged [] = ctx := by
  simp [flagged, Decoration.flagged]

theorem flagged_cons (ctx : Context) (w : Wrapper) (ws : List Wrapper) :
    (ctx.flagged [w]).flagged ws = ctx.flagged (w :: ws) := by
  cases w <;> simp [flagged, Decoration.flagged]

theorem flagged_congr (ctx : Context) {ws vs : List Wrapper} (h : ∀ w, w ∈ ws ↔ w ∈ vs) :
    ctx.flagged ws = ctx.flagged vs := by
  simp only [flagged, Decoration.flagged, h]

end Context

namespace Layout

variable {parser : LatexParser}

theorem inside_wrapper (ctx : Context) (w : Wrapper) (cs : List Node) :
    inside ctx (w.node cs) = cs.map (·, ctx.flagged [w]) := by
  cases w <;> simp [inside, Wrapper.node, Node.hidesInside, Node.children, Context.within,
    Context.flagged, Decoration.flagged, Context.withItalic, Context.withBold,
    Context.withStrikethrough]

/-- A wrapper yields what is in it. -/
theorem result_yieldNode_wrapper (ctx : Context) (w : Wrapper) (cs : List Node) :
    (yieldNode parser [] (w.node cs) ctx).result =
      (layAll parser cs (ctx.flagged [w]) {}).result := by
  have hAllowed : offence ctx.images ⟨[], w.node cs⟩ = none := by cases w <;> rfl
  have hOutside : isInList [w.node cs] = false := by cases w <;> rfl
  have hClose : close parser ctx (w.node cs) = id := by cases w <;> rfl
  rw [yieldNode_of_allowed hAllowed, inside_wrapper, hClose,
    result_layAll_inside cs (ctx.flagged [w]) hOutside]
  cases (yieldAll parser [w.node cs] (cs.map (·, ctx.flagged [w]))).result <;> rfl

theorem result_layAll_singleton (n : Node) (ctx : Context) :
    (layAll parser [n] ctx {}).result = (yieldNode parser [] n ctx).result := by
  rw [result_layAll, List.map_singleton, result_yieldAll_cons, yieldAll_nil]
  cases (yieldNode parser [] n ctx).result with
  | error e => rfl
  | ok laid => exact congrArg Except.ok laid.merge_empty

theorem result_layAll_chain (ws : List Wrapper) (cs : List Node) (ctx : Context) :
    (layAll parser (Wrapper.chain ws cs) ctx {}).result =
      (layAll parser cs (ctx.flagged ws) {}).result := by
  induction ws generalizing ctx with
  | nil => rw [Wrapper.chain_nil, Context.flagged_nil]
  | cons w ws ih =>
    rw [Wrapper.chain_cons, result_layAll_singleton, result_yieldNode_wrapper, ih,
      Context.flagged_cons]

/-- A chain of wrappers is laid out like the nodes in it under the flags of the wrappers: content,
footnotes and errors alike, and behind anything that has been laid out. So chains of the same kinds
give the same, and wrapping some nodes is wrapping each part of them. -/
theorem wrappers_act_as_flags (parser : LatexParser) (ctx : Context) :
    (∀ ws cs, (layAll parser (Wrapper.chain ws cs) ctx {}).result =
        (layAll parser cs (ctx.flagged ws) {}).result) ∧
      (∀ w ws cs out, (layNode parser (w.node (Wrapper.chain ws cs)) ctx out).result =
        (layAll parser cs (ctx.flagged (w :: ws)) {}).result.map out.merge) ∧
      (∀ ws vs cs, (∀ w, w ∈ ws ↔ w ∈ vs) →
        (layAll parser (Wrapper.chain ws cs) ctx {}).result =
          (layAll parser (Wrapper.chain vs cs) ctx {}).result) ∧
      ∀ ws xs ys, (layAll parser (Wrapper.chain ws (xs ++ ys)) ctx {}).result =
        (layAll parser (Wrapper.chain ws xs ++ Wrapper.chain ws ys) ctx {}).result := by
  refine ⟨fun ws cs => result_layAll_chain ws cs ctx, ?_, ?_, ?_⟩
  · intro w ws cs out
    rw [result_layNode, result_yieldNode_wrapper, result_layAll_chain, Context.flagged_cons,
      map_merge_eq_together]
  · intro ws vs cs hSame
    rw [result_layAll_chain, result_layAll_chain, ctx.flagged_congr hSame]
  · intro ws xs ys
    rw [result_layAll_append, result_layAll_chain, result_layAll_chain, result_layAll_chain,
      result_layAll_append]

end Layout

end Manuscript
