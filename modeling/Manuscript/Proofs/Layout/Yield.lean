import Manuscript.Proofs.Except
import Manuscript.Proofs.Keyed
import Manuscript.Proofs.Layout.Offences

/-!
# What nodes yield

The walk adds to what was laid out before. What a node adds does not depend on that: it is what the
node yields by itself, put behind what was there. A node yields nothing but its offence if it has
one; else what the nodes inside it yield, one after the other, is closed to the content and the
footnotes of the node. The step from the nodes inside to the node is the same for every kind of node,
so that a law about the walk needs one look at each kind and one induction.
-/

namespace Manuscript

namespace Laid

def merge (out inner : Laid) : Laid :=
  { content := out.content ++ inner.content
    footnotes := out.footnotes.override inner.footnotes }

@[simp]
theorem content_merge (out inner : Laid) :
    (out.merge inner).content = out.content ++ inner.content := rfl

@[simp]
theorem footnotes_merge (out inner : Laid) :
    (out.merge inner).footnotes = out.footnotes.override inner.footnotes := rfl

theorem eq_of_parts {s t : Laid} (hContent : s.content = t.content)
    (hFootnotes : s.footnotes = t.footnotes) : s = t := by
  cases s
  cases t
  rw [Laid.mk.injEq]
  exact ⟨hContent, hFootnotes⟩

@[simp]
theorem merge_empty (out : Laid) : out.merge {} = out :=
  eq_of_parts (List.append_nil _) (Keyed.override_empty _)

@[simp]
theorem empty_merge (inner : Laid) : merge {} inner = inner :=
  eq_of_parts rfl (Keyed.empty_override _)

theorem merge_assoc (a b c : Laid) : (a.merge b).merge c = a.merge (b.merge c) :=
  eq_of_parts (List.append_assoc _ _ _) (Keyed.override_assoc _ _ _)

end Laid

namespace Noted

variable {α β : Type}

@[simp]
theorem equations_append (notes more : List Note) :
    equations (notes ++ more) = equations notes ++ equations more :=
  List.filterMap_append

/-- A computation gives `x` without any call of the parser of equations. -/
structure Quiet (m : Noted α) (x : α) : Prop where
  result : m.result = .ok x
  equations : Noted.equations m.notes = []

theorem quiet_pure (x : α) : Quiet (pure x) x := ⟨rfl, rfl⟩

theorem Quiet.bind {m : Noted α} {f : α → Noted β} {x : α} {y : β} (hm : Quiet m x)
    (hf : Quiet (f x) y) : Quiet (m >>= f) y := by
  obtain ⟨notes, result⟩ := m
  obtain rfl : result = .ok x := hm.result
  refine ⟨hf.result, ?_⟩
  rw [bind_ok, equations_append, hm.equations, hf.equations]
  rfl

end Noted

open Noted (Quiet quiet_pure)

namespace Laid

theorem quiet_define (out : Laid) (identifier : String) (footnote : Footnote) :
    Quiet (out.define identifier footnote)
      { out with footnotes := out.footnotes.insert identifier footnote } := by
  rw [define]
  split
  · exact ⟨rfl, rfl⟩
  · exact ⟨rfl, rfl⟩

theorem quiet_defineAll (entries : List (String × Footnote)) (out : Laid) :
    Quiet (out.defineAll entries) { out with footnotes := out.footnotes.insertAll entries } := by
  induction entries generalizing out with
  | nil => exact quiet_pure _
  | cons e rest ih =>
    rw [defineAll]
    exact (out.quiet_define e.1 e.2).bind (ih _)

theorem quiet_adopt (out inner : Laid) :
    Quiet (out.adopt inner) { out with footnotes := out.footnotes.override inner.footnotes } :=
  quiet_defineAll _ out

theorem quiet_append (out inner : Laid) : Quiet (out.append inner) (out.merge inner) :=
  quiet_adopt _ inner

end Laid

/-! ## The nodes inside a node -/

/-- The context of the nodes inside a node, the boxes of task items apart. -/
def Context.within (ctx : Context) : Node → Context
  | .blockquote _ => ctx.indented
  | .list .. => ctx.inList
  | .emphasis _ => ctx.withItalic
  | .strong _ => ctx.withBold
  | .delete _ => ctx.withStrikethrough
  | _ => ctx

namespace Layout

/-- The nodes of a task item with their boxes: the first paragraph gets the box. -/
def boxes (checked : Option Bool) : List Node → List (Node × Option Bool)
  | [] => []
  | n :: rest =>
    (n, if n.isParagraph then checked else none) ::
      boxes (if n.isParagraph then none else checked) rest

/-- The nodes inside a node that are laid out with it, each with its context. -/
def inside (ctx : Context) : Node → List (Node × Context)
  | .listItem checked _ cs => (boxes checked cs).map fun e => (e.1, ctx.withChecked e.2)
  | n => if n.hidesInside then [] else n.children.map (·, ctx.within n)

theorem map_fst_pair {α : Type} (nodes : List Node) (x : α) :
    (nodes.map (·, x)).map Prod.fst = nodes := by
  rw [List.map_map]
  exact List.map_id nodes

theorem snd_of_mem_pair {nodes : List Node} {ctx : Context} {e : Node × Context}
    (h : e ∈ nodes.map (·, ctx)) : e.2 = ctx := by
  obtain ⟨_, _, rfl⟩ := List.mem_map.mp h
  rfl

theorem map_fst_boxes (checked : Option Bool) (nodes : List Node) :
    (boxes checked nodes).map Prod.fst = nodes := by
  induction nodes generalizing checked with
  | nil => rfl
  | cons n rest ih => rw [boxes, List.map_cons, ih]

theorem map_fst_inside (ctx : Context) (n : Node) :
    (inside ctx n).map Prod.fst = if n.hidesInside then [] else n.children := by
  cases n with
  | listItem checked spread cs =>
    rw [inside, List.map_map]
    exact map_fst_boxes checked cs
  | _ => simp [inside, Node.hidesInside, Node.children, Function.comp_def]

theorem sizeOf_inside (ctx : Context) (n : Node) :
    sizeOf ((inside ctx n).map Prod.fst) ≤ sizeOf n := by
  rw [map_fst_inside]
  split
  · have hNil : sizeOf ([] : List Node) ≤ sizeOf n.children := by
      cases n.children with
      | nil => exact Nat.le_refl _
      | cons => simp; omega
    exact Nat.le_trans hNil n.sizeOf_children
  · exact n.sizeOf_children

theorem images_of_mem_inside {ctx : Context} {n : Node} {e : Node × Context}
    (h : e ∈ inside ctx n) : e.2.images = ctx.images := by
  cases n with
  | listItem checked spread cs =>
    rw [inside] at h
    obtain ⟨_, _, rfl⟩ := List.mem_map.mp h
    rfl
  | _ =>
    first
    | cases h
    | obtain ⟨_, _, rfl⟩ := List.mem_map.mp h
      rfl

/-! ## Yields -/

/-- The sources that a node itself gives to the parser of equations. -/
def sources : Node → List Note
  | .math _ source | .inlineMath source => [.equation source]
  | _ => []

/-- What a node makes of what the nodes inside it yield. -/
def close (parser : LatexParser) (ctx : Context) (n : Node) (inner : Laid) : Laid :=
  match n with
  | .paragraph _ =>
    { inner with content := [.block (ctx.paragraph (Content.runs inner.content))] }
  | .heading depth _ =>
    { inner with
      content :=
        [.block
          { heading := (headingStyle depth).toOption
            children := Content.runs inner.content }] }
  | .thematicBreak => { content := [.block { thematicBreak := true }] }
  | .table .. => { content := [.block tablePlaceholder] }
  | .html value | .code _ _ value => { content := [.block (plainParagraph value)] }
  | .footnoteDefinition identifier _ _ =>
    { footnotes :=
        inner.footnotes.insert identifier { children := Content.paragraphs inner.content } }
  | .math _ source => { content := (Latex.blockMath parser source).map .block }
  | .text value => { content := [.inline (.text (ctx.decoration.run value))] }
  | .inlineCode value => { content := [.inline (.text { text := value })] }
  | .lineBreak => { content := [.inline (.text { breaks := 1 })] }
  | .link url _ _ => { inner with content := [.inline (.hyperlink url (Content.runs inner.content))] }
  | .image url .. => { content := (ctx.images.find? url).toList.map (.inline ∘ .image) }
  | .footnoteReference identifier _ =>
    { content :=
        (footnoteNumber identifier).toOption.toList.map (.inline ∘ .footnoteReference) }
  | .inlineMath source => { content := [.inline (Latex.inlineMath parser source)] }
  | .blockquote _ | .list .. | .listItem .. | .emphasis _ | .strong _ | .delete _ => inner
  | .tableRow _ | .tableCell _ | .yaml _ | .toml _ | .definition .. | .linkReference ..
  | .imageReference .. => {}

mutual

/-- What a node yields by itself. -/
def yieldNode (parser : LatexParser) (above : List Node) (n : Node) (ctx : Context) :
    Noted Laid :=
  match offence ctx.images ⟨above, n⟩ with
  | some e => .fail e
  | none =>
    let inner := yieldAll parser (n :: above) (inside ctx n)
    ⟨sources n ++ inner.notes, inner.result.map (close parser ctx n)⟩
termination_by 2 * sizeOf n + 1
decreasing_by
  have := sizeOf_inside ctx n
  omega

def yieldAll (parser : LatexParser) (above : List Node) (nodes : List (Node × Context)) :
    Noted Laid :=
  match nodes with
  | [] => return {}
  | (n, ctx) :: rest => do
    let first ← yieldNode parser above n ctx
    let others ← yieldAll parser above rest
    return first.merge others
termination_by 2 * sizeOf (nodes.map Prod.fst)

end

variable {parser : LatexParser} {above : List Node} {n : Node} {ctx : Context}

theorem yieldNode_of_offence {e : Error} (h : offence ctx.images ⟨above, n⟩ = some e) :
    yieldNode parser above n ctx = .fail e := by
  rw [yieldNode, h]

theorem yieldNode_of_allowed (h : offence ctx.images ⟨above, n⟩ = none) :
    yieldNode parser above n ctx =
      ⟨sources n ++ (yieldAll parser (n :: above) (inside ctx n)).notes,
        (yieldAll parser (n :: above) (inside ctx n)).result.map (close parser ctx n)⟩ := by
  rw [yieldNode, h]

theorem yieldAll_nil : yieldAll parser above [] = pure {} := by
  rw [yieldAll]

theorem yieldAll_cons (rest : List (Node × Context)) :
    yieldAll parser above ((n, ctx) :: rest) =
      yieldNode parser above n ctx >>= fun first =>
        yieldAll parser above rest >>= fun others => pure (first.merge others) := by
  rw [yieldAll]

/-- The outcome of one part and then of another, the first error if there is one. -/
def together (first others : Except Error Laid) : Except Error Laid := do
  let first ← first
  let others ← others
  return first.merge others

theorem result_yieldAll_cons (rest : List (Node × Context)) :
    (yieldAll parser above ((n, ctx) :: rest)).result =
      together (yieldNode parser above n ctx).result (yieldAll parser above rest).result := by
  rw [yieldAll_cons]
  obtain ⟨notes, _ | first⟩ := yieldNode parser above n ctx
  · rfl
  · obtain ⟨more, _ | others⟩ := yieldAll parser above rest <;> rfl

/-! ## The walk adds what the nodes yield -/

/-- The walk, behind `out`, does what a yield does by itself. -/
structure Behind (out : Laid) (walk yield : Noted Laid) : Prop where
  result : walk.result = yield.result.map out.merge
  equations : Noted.equations walk.notes = Noted.equations yield.notes

theorem Behind.fail (out : Laid) (e : Error) : Behind out (.fail e) (.fail e) := ⟨rfl, rfl⟩

theorem Behind.nil (out : Laid) : Behind out (pure out) (pure {}) :=
  ⟨congrArg Except.ok out.merge_empty.symm, rfl⟩

/-- A node that has nothing inside. -/
theorem Behind.leaf {out : Laid} {walk : Noted Laid} (h : offence ctx.images ⟨above, n⟩ = none)
    (hInside : inside ctx n = []) (hResult : walk.result = .ok (out.merge (close parser ctx n {})))
    (hSources : Noted.equations walk.notes = Noted.equations (sources n)) :
    Behind out walk (yieldNode parser above n ctx) := by
  rw [yieldNode_of_allowed h, hInside, yieldAll_nil]
  exact ⟨hResult, by rw [hSources]; simp⟩

/-- A node whose inside is laid out from nothing and then taken over. -/
theorem Behind.container {out : Laid} {walk : Noted Laid} {f : Laid → Noted Laid}
    (h : offence ctx.images ⟨above, n⟩ = none) (hSources : sources n = [])
    (hWalk : Behind {} walk (yieldAll parser (n :: above) (inside ctx n)))
    (hClose : ∀ inner, Quiet (f inner) (out.merge (close parser ctx n inner))) :
    Behind out (walk >>= f) (yieldNode parser above n ctx) := by
  obtain ⟨notes, result⟩ := walk
  obtain ⟨hResult, hEquations⟩ := hWalk
  rw [yieldNode_of_allowed h, hSources, List.nil_append]
  cases hYield : (yieldAll parser (n :: above) (inside ctx n)).result with
  | error e =>
    rw [hYield] at hResult
    obtain rfl : result = .error e := hResult
    exact ⟨rfl, hEquations⟩
  | ok inner =>
    rw [hYield] at hResult
    obtain rfl : result = .ok inner := hResult.trans (congrArg Except.ok inner.empty_merge)
    refine ⟨(hClose inner).result, ?_⟩
    rw [Noted.bind_ok, Noted.equations_append, (hClose inner).equations, List.append_nil]
    exact hEquations

/-- A node whose inside is laid out behind what was there. -/
theorem Behind.sameLevel {out : Laid} {walk : Noted Laid}
    (h : offence ctx.images ⟨above, n⟩ = none) (hSources : sources n = [])
    (hClose : ∀ inner, close parser ctx n inner = inner)
    (hWalk : Behind out walk (yieldAll parser (n :: above) (inside ctx n))) :
    Behind out walk (yieldNode parser above n ctx) := by
  have hSame : close parser ctx n = id := funext hClose
  rw [yieldNode_of_allowed h, hSources, List.nil_append, hSame]
  refine ⟨hWalk.result.trans ?_, hWalk.equations⟩
  cases (yieldAll parser (n :: above) (inside ctx n)).result <;> rfl

theorem Behind.cons {out : Laid} {walk : Noted Laid} {f : Laid → Noted Laid}
    {rest : List (Node × Context)} (hFirst : Behind out walk (yieldNode parser above n ctx))
    (hRest : ∀ out, Behind out (f out) (yieldAll parser above rest)) :
    Behind out (walk >>= f) (yieldAll parser above ((n, ctx) :: rest)) := by
  obtain ⟨notes, result⟩ := walk
  cases hYield : yieldNode parser above n ctx with
  | mk yieldNotes yieldResult =>
    rw [hYield] at hFirst
    have hNotes : Noted.equations notes = Noted.equations yieldNotes := hFirst.equations
    rw [yieldAll_cons, hYield]
    cases yieldResult with
    | error e =>
      obtain rfl : result = .error e := hFirst.result
      exact ⟨rfl, hNotes⟩
    | ok first =>
      obtain rfl : result = .ok (out.merge first) := hFirst.result
      have hLater := hRest (out.merge first)
      cases hOthers : yieldAll parser above rest with
      | mk restNotes restResult =>
        rw [hOthers] at hLater
        have hRestNotes : Noted.equations (f (out.merge first)).notes =
            Noted.equations restNotes := hLater.equations
        rw [Noted.bind_ok, Noted.bind_ok]
        cases restResult with
        | error e =>
          refine ⟨hLater.result, ?_⟩
          rw [Noted.bind_error, Noted.equations_append, Noted.equations_append, hNotes, hRestNotes]
        | ok others =>
          refine ⟨hLater.result.trans ?_, ?_⟩
          · exact congrArg Except.ok (Laid.merge_assoc out first others)
          · rw [Noted.bind_ok, Noted.pure_eq, List.append_nil, Noted.equations_append,
              Noted.equations_append, hNotes, hRestNotes]

theorem offence_outside (images : ImageTable) (n : Node) (h : isInList above = false) :
    offence images ⟨above, n⟩ = nodeOffence images n := by
  rw [offence, h]
  rfl

theorem offence_inList (images : ImageTable) (n : Node) (h : isInList above = true) :
    offence images ⟨above, n⟩ = itemOffence n := by
  rw [offence, h]
  rfl

mutual

theorem layNode_behind (parser : LatexParser) (n : Node) (ctx : Context) (out : Laid)
    (above : List Node) (hAbove : isInList above = false) :
    Behind out (layNode parser n ctx out) (yieldNode parser above n ctx) := by
  have hOffence := offence_outside ctx.images n hAbove
  cases n with
  | paragraph cs =>
    rw [layNode]
    exact .container hOffence rfl (layAll_behind parser cs ctx {} _ rfl) fun inner =>
      (out.quiet_adopt inner).bind (quiet_pure _)
  | heading depth cs =>
    rw [layNode]
    by_cases hDepth : 1 ≤ depth ∧ depth ≤ 6
    · obtain ⟨style, hStyle⟩ := headingStyle_of_range hDepth
      rw [nodeOffence, if_pos hDepth] at hOffence
      rw [hStyle]
      refine .container hOffence rfl (layAll_behind parser cs ctx {} _ rfl) fun inner => ?_
      rw [close, hStyle]
      exact (out.quiet_adopt inner).bind (quiet_pure _)
    · rw [nodeOffence, if_neg hDepth] at hOffence
      rw [headingStyle_of_not_range hDepth, yieldNode_of_offence hOffence]
      exact .fail out _
  | blockquote cs =>
    rw [layNode]
    exact .container hOffence rfl (layAll_behind parser cs ctx.indented {} _ rfl) fun inner =>
      out.quiet_append inner
  | list ordered start spread cs =>
    rw [layNode]
    exact .sameLevel hOffence rfl (fun _ => rfl) (layItems_behind parser cs ctx.inList out _ rfl)
  | footnoteDefinition identifier label cs =>
    rw [layNode]
    refine .container hOffence rfl (layAll_behind parser cs ctx {} _ rfl) fun inner => ?_
    have hDefined : out.merge (close parser ctx (.footnoteDefinition identifier label cs) inner) =
        { out with
          footnotes :=
            (out.footnotes.override inner.footnotes).insert identifier
              { children := Content.paragraphs inner.content } } :=
      Laid.eq_of_parts (List.append_nil _) (Keyed.override_insert _ _ _ _)
    rw [hDefined]
    exact (out.quiet_adopt inner).bind (Laid.quiet_define _ identifier _)
  | emphasis cs =>
    rw [layNode]
    exact .container hOffence rfl (layAll_behind parser cs ctx.withItalic {} _ rfl) fun inner =>
      out.quiet_append inner
  | strong cs =>
    rw [layNode]
    exact .container hOffence rfl (layAll_behind parser cs ctx.withBold {} _ rfl) fun inner =>
      out.quiet_append inner
  | delete cs =>
    rw [layNode]
    exact .container hOffence rfl (layAll_behind parser cs ctx.withStrikethrough {} _ rfl)
      fun inner => out.quiet_append inner
  | link url title cs =>
    rw [layNode]
    exact .container hOffence rfl (layAll_behind parser cs ctx {} _ rfl) fun inner =>
      (out.quiet_adopt inner).bind (quiet_pure _)
  | image url title alt =>
    rw [layNode, imageAt]
    rw [nodeOffence, Keyed.has] at hOffence
    cases hFound : ctx.images.find? url with
    | none =>
      rw [hFound] at hOffence
      rw [yieldNode_of_offence hOffence]
      exact .fail out _
    | some image =>
      rw [hFound] at hOffence
      refine .leaf hOffence rfl ?_ rfl
      rw [close, hFound]
      rfl
  | footnoteReference identifier label =>
    rw [layNode]
    by_cases hNumeral : Text.IsNumeral UInt32.size identifier.toList
    · obtain ⟨number, hNumber⟩ := footnoteNumber_of_isNumeral hNumeral
      rw [nodeOffence, if_pos hNumeral] at hOffence
      rw [hNumber]
      refine .leaf hOffence rfl ?_ rfl
      rw [close, hNumber]
      rfl
    · rw [nodeOffence, if_neg hNumeral] at hOffence
      rw [footnoteNumber_of_not_isNumeral hNumeral, yieldNode_of_offence hOffence]
      exact .fail out _
  | thematicBreak | table | html | code | math | text | inlineCode | lineBreak | inlineMath =>
    rw [layNode]
    exact .leaf hOffence rfl rfl rfl
  | yaml | toml | definition | linkReference | imageReference =>
    rw [layNode]
    exact .leaf hOffence rfl (congrArg Except.ok out.merge_empty.symm) rfl
  | listItem | tableRow | tableCell =>
    rw [layNode, yieldNode_of_offence hOffence]
    exact .fail out _

theorem layAll_behind (parser : LatexParser) (nodes : List Node) (ctx : Context) (out : Laid)
    (above : List Node) (hAbove : isInList above = false) :
    Behind out (layAll parser nodes ctx out) (yieldAll parser above (nodes.map (·, ctx))) := by
  cases nodes with
  | nil =>
    rw [layAll, List.map_nil, yieldAll_nil]
    exact .nil out
  | cons n rest =>
    rw [layAll, List.map_cons]
    exact .cons (layNode_behind parser n ctx out above hAbove) fun out =>
      layAll_behind parser rest ctx out above hAbove

theorem layItems_behind (parser : LatexParser) (nodes : List Node) (ctx : Context) (out : Laid)
    (above : List Node) (hAbove : isInList above = true) :
    Behind out (layItems parser nodes ctx out) (yieldAll parser above (nodes.map (·, ctx))) := by
  cases nodes with
  | nil =>
    rw [layItems, List.map_nil, yieldAll_nil]
    exact .nil out
  | cons n rest =>
    rw [layItems, List.map_cons]
    exact .cons (layItem_behind parser n ctx out above hAbove) fun out =>
      layItems_behind parser rest ctx out above hAbove

theorem layItem_behind (parser : LatexParser) (n : Node) (ctx : Context) (out : Laid)
    (above : List Node) (hAbove : isInList above = true) :
    Behind out (layItem parser n ctx out) (yieldNode parser above n ctx) := by
  have hOffence := offence_inList ctx.images n hAbove
  cases n with
  | listItem checked spread cs =>
    rw [layItem]
    exact .sameLevel hOffence rfl (fun _ => rfl)
      (layItemChildren_behind parser cs ctx checked out _ rfl)
  | _ =>
    rw [layItem, yieldNode_of_offence hOffence]
    · exact .fail out _
    · rintro _ _ _ ⟨⟩

theorem layItemChildren_behind (parser : LatexParser) (nodes : List Node) (ctx : Context)
    (checked : Option Bool) (out : Laid) (above : List Node) (hAbove : isInList above = false) :
    Behind out (layItemChildren parser nodes ctx checked out)
      (yieldAll parser above ((boxes checked nodes).map fun e => (e.1, ctx.withChecked e.2))) := by
  cases nodes with
  | nil =>
    rw [layItemChildren, boxes, List.map_nil, yieldAll_nil]
    exact .nil out
  | cons n rest =>
    rw [layItemChildren, boxes, List.map_cons]
    exact .cons (layNode_behind parser n _ out above hAbove) fun out =>
      layItemChildren_behind parser rest ctx _ out above hAbove

end

theorem layAll_behind_empty (parser : LatexParser) (nodes : List Node) (ctx : Context) :
    Behind {} (layAll parser nodes ctx {}) (yieldAll parser [] (nodes.map (·, ctx))) :=
  layAll_behind parser nodes ctx {} [] rfl

theorem result_layAll (parser : LatexParser) (nodes : List Node) (ctx : Context) :
    (layAll parser nodes ctx {}).result = (yieldAll parser [] (nodes.map (·, ctx))).result := by
  rw [(layAll_behind_empty parser nodes ctx).result]
  cases (yieldAll parser [] (nodes.map (·, ctx))).result with
  | error e => rfl
  | ok laid => exact congrArg Except.ok laid.empty_merge

/-! ## Induction on yields -/

section Induction

variable {P : List Node → Node → Context → Noted Laid → Prop}
  {Q : List Node → List (Node × Context) → Noted Laid → Prop}

mutual

theorem yieldNode_induct
    (refused : ∀ above n ctx e, offence ctx.images ⟨above, n⟩ = some e → P above n ctx (.fail e))
    (allowed : ∀ above n ctx inner, offence ctx.images ⟨above, n⟩ = none →
      Q (n :: above) (inside ctx n) inner →
        P above n ctx ⟨sources n ++ inner.notes, inner.result.map (close parser ctx n)⟩)
    (nil : ∀ above, Q above [] (pure {}))
    (cons : ∀ above n ctx rest first others, P above n ctx first → Q above rest others →
      Q above ((n, ctx) :: rest)
        (first >>= fun a => others >>= fun b => pure (a.merge b)))
    (n : Node) (above : List Node) (ctx : Context) :
    P above n ctx (yieldNode parser above n ctx) := by
  cases h : offence ctx.images ⟨above, n⟩ with
  | some e =>
    rw [yieldNode_of_offence h]
    exact refused above n ctx e h
  | none =>
    rw [yieldNode_of_allowed h]
    exact allowed above n ctx _ h
      (yieldAll_induct refused allowed nil cons (inside ctx n) (n :: above))
termination_by 2 * sizeOf n + 1
decreasing_by
  have := sizeOf_inside ctx n
  omega

theorem yieldAll_induct
    (refused : ∀ above n ctx e, offence ctx.images ⟨above, n⟩ = some e → P above n ctx (.fail e))
    (allowed : ∀ above n ctx inner, offence ctx.images ⟨above, n⟩ = none →
      Q (n :: above) (inside ctx n) inner →
        P above n ctx ⟨sources n ++ inner.notes, inner.result.map (close parser ctx n)⟩)
    (nil : ∀ above, Q above [] (pure {}))
    (cons : ∀ above n ctx rest first others, P above n ctx first → Q above rest others →
      Q above ((n, ctx) :: rest)
        (first >>= fun a => others >>= fun b => pure (a.merge b)))
    (nodes : List (Node × Context)) (above : List Node) :
    Q above nodes (yieldAll parser above nodes) := by
  cases nodes with
  | nil =>
    rw [yieldAll_nil]
    exact nil above
  | cons e rest =>
    rw [yieldAll_cons]
    exact cons above e.1 e.2 rest _ _ (yieldNode_induct refused allowed nil cons e.1 above e.2)
      (yieldAll_induct refused allowed nil cons rest above)
termination_by 2 * sizeOf (nodes.map Prod.fst)

end

end Induction

/-- Induction on the yields of nodes without an offence. -/
theorem yieldAll_induct_ok {P : List Node → Node → Context → Laid → Prop}
    {Q : List Node → List (Node × Context) → Laid → Prop}
    (node : ∀ above n ctx inner, offence ctx.images ⟨above, n⟩ = none →
      Q (n :: above) (inside ctx n) inner → P above n ctx (close parser ctx n inner))
    (nil : ∀ above, Q above [] {})
    (cons : ∀ above n ctx rest first others, P above n ctx first → Q above rest others →
      Q above ((n, ctx) :: rest) (first.merge others))
    {nodes : List (Node × Context)} {above : List Node} {laid : Laid}
    (h : (yieldAll parser above nodes).result = .ok laid) : Q above nodes laid := by
  revert laid
  refine yieldAll_induct (P := fun above n ctx m => ∀ laid, m.result = .ok laid → P above n ctx laid)
    (Q := fun above nodes m => ∀ {laid}, m.result = .ok laid → Q above nodes laid)
    ?_ ?_ ?_ ?_ nodes above
  · rintro above n ctx e - laid ⟨⟩
  · intro above n ctx inner hOffence ih laid hLaid
    obtain ⟨content, hInner, rfl⟩ := map_eq_ok_iff.mp hLaid
    exact node above n ctx content hOffence (ih hInner)
  · rintro above laid ⟨⟩
    exact nil above
  · rintro above n ctx rest ⟨notes, _ | first⟩ ⟨more, _ | others⟩ ihFirst ihRest laid ⟨⟩
    exact cons above n ctx rest first others (ihFirst _ rfl) (ihRest rfl)

/-- Induction on the yields of nodes without an offence, with what the nodes inside a node yield at
hand. -/
theorem yieldAll_induct_inner {P : List Node → Node → Context → Laid → Prop}
    {Q : List Node → List (Node × Context) → Laid → Prop}
    (node : ∀ above n ctx inner, offence ctx.images ⟨above, n⟩ = none →
      (yieldAll parser (n :: above) (inside ctx n)).result = .ok inner →
        Q (n :: above) (inside ctx n) inner → P above n ctx (close parser ctx n inner))
    (nil : ∀ above, Q above [] {})
    (cons : ∀ above n ctx rest first others, P above n ctx first → Q above rest others →
      Q above ((n, ctx) :: rest) (first.merge others))
    {nodes : List (Node × Context)} {above : List Node} {laid : Laid}
    (h : (yieldAll parser above nodes).result = .ok laid) : Q above nodes laid := by
  refine (yieldAll_induct_ok
    (P := fun above n ctx laid =>
      (yieldNode parser above n ctx).result = .ok laid ∧ P above n ctx laid)
    (Q := fun above nodes laid =>
      (yieldAll parser above nodes).result = .ok laid ∧ Q above nodes laid)
    ?_ ?_ ?_ h).2
  · rintro above n ctx inner hOffence ⟨hInner, ih⟩
    refine ⟨?_, node above n ctx inner hOffence hInner ih⟩
    rw [yieldNode_of_allowed hOffence, hInner]
    rfl
  · exact fun above => ⟨by rw [yieldAll_nil]; rfl, nil above⟩
  · rintro above n ctx rest first others ⟨hFirst, ihFirst⟩ ⟨hOthers, ihOthers⟩
    refine ⟨?_, cons above n ctx rest first others ihFirst ihOthers⟩
    rw [result_yieldAll_cons, hFirst, hOthers]
    rfl

/-- What nodes yield depends on the nodes around them only in that these may be a list. -/
theorem yieldAll_above (nodes : List (Node × Context)) {above other : List Node}
    (h : isInList other = isInList above) :
    yieldAll parser other nodes = yieldAll parser above nodes := by
  have hOffence : ∀ {above other : List Node} (images : ImageTable) (n : Node),
      isInList other = isInList above → offence images ⟨other, n⟩ = offence images ⟨above, n⟩ := by
    intro above other images n h
    rw [offence, offence, h]
  refine yieldAll_induct
    (P := fun above n ctx m => ∀ other, isInList other = isInList above →
      yieldNode parser other n ctx = m)
    (Q := fun above nodes m => ∀ other, isInList other = isInList above →
      yieldAll parser other nodes = m)
    ?_ ?_ ?_ ?_ nodes above other h
  · intro above n ctx e hRefused other h
    exact yieldNode_of_offence ((hOffence ctx.images n h).trans hRefused)
  · intro above n ctx inner hAllowed ih other h
    have hSame : isInList (n :: other) = isInList (n :: above) := by cases n <;> rfl
    rw [yieldNode_of_allowed ((hOffence ctx.images n h).trans hAllowed), ih (n :: other) hSame]
  · intro above other _
    exact yieldAll_nil
  · intro above n ctx rest first others ihFirst ihRest other h
    rw [yieldAll_cons, ihFirst other h, ihRest other h]

theorem result_layAll_inside {above : List Node} (nodes : List Node) (ctx : Context)
    (h : isInList above = false) :
    (layAll parser nodes ctx {}).result = (yieldAll parser above (nodes.map (·, ctx))).result := by
  -- The rules ask of the nodes above only whether they end in a list.
  have hAbove : isInList [] = isInList above := h.symm
  rw [result_layAll, yieldAll_above _ hAbove]

end Layout

end Manuscript
