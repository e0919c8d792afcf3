import Mathlib.Data.List.SplitBy
import Manuscript.Proofs.Layout.Blocks
import Manuscript.Proofs.Layout.Leaves

/-!
# Grouping content into paragraphs

Some content is cut into groups: a whole paragraph is a group of its own, and runs that are next to
each other make up one group, as long as there are more of them. Each group gives one paragraph.
Nothing is lost or added on the way, and where a whole paragraph stands at the border of two contents,
they can be grouped one after the other.
-/

namespace Manuscript.Content

/-- Whether two things that are next to each other belong into one paragraph. -/
def share : Content → Content → Bool
  | .inline _, .inline _ => true
  | _, _ => false

/-- The paragraph of a group. -/
def gather : List Content → Paragraph
  | [.block p] => p
  | group => { children := runs group }

/-! ## Groups -/

theorem gather_runs (run : Inline) (others : List Inline) :
    gather ((run :: others).map .inline) = { children := run :: others } := by
  have hRuns : runs ((run :: others).map .inline) = run :: others :=
    (Layout.runs_map_inline id (run :: others)).trans (List.map_id _)
  cases others <;> exact congrArg (fun children => ({ children } : Paragraph)) hRuns

theorem isChain_share_runs (runs : List Inline) :
    (runs.map Content.inline).IsChain fun x y => share x y = true := by
  rw [List.isChain_map, List.isChain_iff_getElem]
  exact fun _ _ => rfl

theorem wrap_eq_map_splitBy (pending : List Inline) :
    wrap pending = ((pending.map Content.inline).splitBy share).map gather := by
  cases pending with
  | nil => rfl
  | cons run others =>
    rw [List.splitBy_of_isChain (by simp) (isChain_share_runs _), List.map_singleton, gather_runs]
    rfl

theorem splitBy_append_block (content rest : List Content) (p : Paragraph) :
    (content ++ .block p :: rest).splitBy share =
      content.splitBy share ++ [.block p] :: rest.splitBy share := by
  have hBefore : ∀ x, share x (.block p) = false := by
    intro x
    cases x <;> rfl
  have hBehind : (Content.block p :: rest).splitBy share =
      [Content.block p].splitBy share ++ rest.splitBy share := by
    refine List.splitBy_append (l := [Content.block p]) fun x hx y _ => ?_
    obtain rfl := Option.some.inj hx
    rfl
  rw [List.splitBy_append_cons rest fun x _ => hBefore x, hBehind]
  rfl

/-- The runs that wait for a paragraph are those in front of what is left. -/
theorem paragraphsAfter_eq_map_splitBy (pending : List Inline) (content : List Content) :
    paragraphsAfter pending content =
      ((pending.map Content.inline ++ content).splitBy share).map gather := by
  induction content generalizing pending with
  | nil => rw [paragraphsAfter, wrap_eq_map_splitBy, List.append_nil]
  | cons item rest ih =>
    cases item with
    | block p =>
      rw [paragraphsAfter, ih, wrap_eq_map_splitBy, splitBy_append_block, List.map_append]
      rfl
    | inline run =>
      rw [paragraphsAfter, ih, List.map_append, List.append_assoc]
      rfl

theorem paragraphs_eq_map_splitBy (content : List Content) :
    paragraphs content = (content.splitBy share).map gather :=
  paragraphsAfter_eq_map_splitBy [] content

theorem eq_runs_of_isChain {run : Inline} {rest : List Content}
    (h : (.inline run :: rest).IsChain fun x y => share x y = true) :
    ∃ others, rest = List.map .inline others := by
  induction rest generalizing run with
  | nil => exact ⟨[], rfl⟩
  | cons item rest ih =>
    rw [List.isChain_cons_cons] at h
    cases item with
    | block p => cases h.1
    | inline next =>
      obtain ⟨others, rfl⟩ := ih h.2
      exact ⟨next :: others, rfl⟩

theorem group_cases {content group : List Content} (h : group ∈ content.splitBy share) :
    (∃ p, group = [.block p]) ∨ ∃ run others, group = (run :: others).map .inline := by
  have hChain := List.isChain_of_mem_splitBy h
  cases group with
  | nil => exact absurd h (List.nil_notMem_splitBy _ _)
  | cons item rest =>
    cases item with
    | block p =>
      cases rest with
      | nil => exact .inl ⟨p, rfl⟩
      | cons next others =>
        rw [List.isChain_cons_cons] at hChain
        cases hChain.1
    | inline run =>
      obtain ⟨others, rfl⟩ := eq_runs_of_isChain hChain
      exact .inr ⟨run, others, rfl⟩

/-- Two groups of runs are never next to each other. -/
theorem groups_apart (content : List Content) :
    (content.splitBy share).IsChain fun group next =>
      ∀ runs more : List Inline, group = runs.map .inline → next ≠ more.map .inline := by
  refine (List.isChain_getLast_head_splitBy share content).imp ?_
  rintro _ _ ⟨hLast, hHead, hBorder⟩ runs more rfl rfl
  rw [List.getLast_map, List.head_map] at hBorder
  cases hBorder

/-! ## How many paragraphs there are -/

/-- Whether the first thing is the end of runs that are next to each other. -/
def endsRuns : List Content → Bool
  | [.inline _] | .inline _ :: .block _ :: _ => true
  | _ => false

/-- How many times runs that are next to each other come to an end. -/
def runCount (content : List Content) : Nat :=
  content.tails.countP endsRuns

/-- Whether runs go on over the border of two contents. -/
def joins (content more : List Content) : Bool :=
  match content.getLast?, more.head? with
  | some x, some y => share x y
  | _, _ => false

theorem runCount_cons (item : Content) (rest : List Content) :
    runCount (item :: rest) = runCount rest + (endsRuns (item :: rest)).toNat := by
  rw [runCount, List.tails, List.countP_cons]
  cases endsRuns (item :: rest) <;> rfl

theorem runCount_block (p : Paragraph) (rest : List Content) :
    runCount (.block p :: rest) = runCount rest := by
  rw [runCount_cons]
  cases rest <;> rfl

theorem endsRuns_append (item next : Content) (others more : List Content) :
    endsRuns (item :: next :: others ++ more) = endsRuns (item :: next :: others) := by
  cases item <;> cases next <;> rfl

theorem runCount_append (content more : List Content) :
    runCount (content ++ more) + (joins content more).toNat = runCount content + runCount more := by
  induction content with
  | nil => exact (Nat.zero_add _).symm
  | cons item rest ih =>
    cases rest with
    | nil =>
      rw [List.singleton_append]
      cases item with
      | block p =>
        have hBorder : joins [.block p] more = false := by cases more <;> rfl
        rw [runCount_block, runCount_block, hBorder]
        exact (Nat.zero_add _).symm
      | inline run =>
        rw [runCount_cons, runCount_cons]
        cases more with
        | nil => rfl
        | cons next others => cases next <;> exact Nat.add_comm _ 1
    | cons next others =>
      have hBorder : joins (item :: next :: others) more = joins (next :: others) more := by
        rw [joins, joins, List.getLast?_cons_cons]
      rw [List.cons_append, runCount_cons, ← List.cons_append, endsRuns_append, hBorder,
        runCount_cons item]
      omega

theorem runCount_runs (pending : List Inline) :
    runCount (pending.map .inline) = (wrap pending).length := by
  induction pending with
  | nil => rfl
  | cons run others ih =>
    cases others with
    | nil => rfl
    | cons next others =>
      rw [List.map_cons, runCount_cons, ih]
      rfl

theorem length_paragraphsAfter (pending : List Inline) (content : List Content) :
    (paragraphsAfter pending content).length =
      (blocks content).length + runCount (pending.map .inline ++ content) := by
  induction content generalizing pending with
  | nil =>
    rw [paragraphsAfter, List.append_nil, runCount_runs]
    exact (Nat.zero_add _).symm
  | cons item rest ih =>
    cases item with
    | block p =>
      have hBorder : joins (pending.map .inline) (.block p :: rest) = false := by
        rw [joins]
        cases (pending.map Content.inline).getLast? with
        | none => rfl
        | some x => cases x <;> rfl
      have hRuns := runCount_append (pending.map .inline) (.block p :: rest)
      have hBlocks : (blocks (.block p :: rest)).length = (blocks rest).length + 1 := rfl
      rw [hBorder, runCount_runs, runCount_block, Bool.toNat_false] at hRuns
      rw [paragraphsAfter, List.length_append, List.length_cons, ih [], hBlocks, List.map_nil,
        List.nil_append]
      omega
    | inline run =>
      rw [paragraphsAfter, ih, List.map_append, List.append_assoc]
      rfl

theorem length_paragraphs (content : List Content) :
    (paragraphs content).length = (blocks content).length + runCount content :=
  length_paragraphsAfter [] content

/-! ## Contents one after the other -/

/-- A whole paragraph stands at the border of two contents, or one of them is empty. -/
def Parted (content more : List Content) : Prop :=
  content = [] ∨ more = [] ∨ (∃ p, content.getLast? = some (.block p)) ∨
    ∃ p, more.head? = some (.block p)

theorem parted_iff (content more : List Content) : Parted content more ↔ joins content more = false := by
  rw [Parted, joins, ← List.getLast?_eq_none_iff, ← List.head?_eq_none_iff]
  cases content.getLast? with
  | none => simp
  | some x =>
    cases more.head? with
    | none => simp
    | some y => cases x <;> cases y <;> simp [share]

theorem paragraphs_append_iff (content more : List Content) :
    paragraphs (content ++ more) = paragraphs content ++ paragraphs more ↔ Parted content more := by
  rw [parted_iff]
  constructor
  · intro h
    have hLength := congrArg List.length h
    have hRuns := runCount_append content more
    rw [List.length_append, length_paragraphs, length_paragraphs, length_paragraphs, blocks_append,
      List.length_append] at hLength
    cases hBorder : joins content more with
    | false => rfl
    | true =>
      rw [hBorder, Bool.toNat_true] at hRuns
      omega
  · intro h
    rw [paragraphs_eq_map_splitBy, paragraphs_eq_map_splitBy, paragraphs_eq_map_splitBy,
      ← List.map_append, List.splitBy_append]
    intro x hx y hy
    rwa [joins, Option.mem_def.mp hx, Option.mem_def.mp hy] at h

theorem paragraphs_map_block (ps : List Paragraph) : paragraphs (ps.map .block) = ps := by
  induction ps with
  | nil => rfl
  | cons p rest ih => exact congrArg (p :: ·) ih

/-- Content is grouped into paragraphs without loss, by the longest groups: the groups make up the
content, each of them is a whole paragraph or consists of runs, and runs are never next to runs of
another group. A whole paragraph stays as it is, and runs get a paragraph that says nothing else. So
there are as many paragraphs as there are whole ones and ends of runs, grouping the paragraphs again
changes nothing, and two contents can be grouped one after the other exactly if no runs go on over their
border. -/
theorem paragraphs_are_longest_groups (content : List Content) :
    (paragraphs content).flatMap Paragraph.children = runs content ∧
      (∃ groups : List (List Content), groups.flatten = content ∧
        paragraphs content = groups.map gather ∧
        (∀ group ∈ groups, (∃ p, group = [.block p] ∧ gather group = p) ∨
          ∃ run others, group = (run :: others).map .inline ∧
            gather group = { children := run :: others }) ∧
        groups.IsChain fun group next =>
          ∀ runs more : List Inline, group = runs.map .inline → next ≠ more.map .inline) ∧
      (paragraphs content).length = (blocks content).length + runCount content ∧
      paragraphs ((paragraphs content).map .block) = paragraphs content ∧
      ∀ more, paragraphs (content ++ more) = paragraphs content ++ paragraphs more ↔
        Parted content more := by
  refine ⟨flatMap_children_paragraphs content,
    ⟨content.splitBy share, List.flatten_splitBy share content, paragraphs_eq_map_splitBy content,
      fun group hGroup => ?_, groups_apart content⟩,
    length_paragraphs content, paragraphs_map_block _, paragraphs_append_iff content⟩
  rcases group_cases hGroup with ⟨p, rfl⟩ | ⟨run, others, rfl⟩
  · exact .inl ⟨p, rfl, rfl⟩
  · exact .inr ⟨run, others, rfl, gather_runs run others⟩

end Manuscript.Content
