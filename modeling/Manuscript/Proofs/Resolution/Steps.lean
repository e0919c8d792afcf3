import Mathlib.Data.List.TakeWhile
import Manuscript.Resolution.Pass

/-!
# Steps of a resolution

A step first makes new calls ready and then does one of five things: it makes a call that has to
wait, ends a call with an image, ends the resolution with the error of a call, moves time on, or ends
the resolution because nothing is left. What holds at the beginning and is kept by every step holds
whenever a resolution ends.
-/

namespace Manuscript.Resolution

theorem perm_enqueue (call : Waiting) (calls : List Waiting) :
    (enqueue call calls).Perm (call :: calls) := by
  induction calls with
  | nil => exact .refl _
  | cons other rest ih =>
    rw [enqueue]
    split
    · exact .refl _
    · exact (ih.cons other).trans (.swap call other rest)

theorem pairwise_enqueue (call : Waiting) {calls : List Waiting}
    (h : calls.Pairwise fun a b => a.moment ≤ b.moment) :
    (enqueue call calls).Pairwise fun a b => a.moment ≤ b.moment := by
  induction calls with
  | nil => exact List.pairwise_singleton _ _
  | cons other rest ih =>
    obtain ⟨hOther, hRest⟩ := List.pairwise_cons.mp h
    rw [enqueue]
    split
    · rename_i hBefore
      refine List.pairwise_cons.mpr ⟨fun later hLater => ?_, h⟩
      rcases List.mem_cons.mp hLater with rfl | hLater
      · omega
      · have := hOther later hLater
        omega
    · rename_i hBehind
      refine List.pairwise_cons.mpr ⟨fun later hLater => ?_, ih hRest⟩
      rcases List.mem_cons.mp ((perm_enqueue call rest).subset hLater) with rfl | hLater
      · omega
      · exact hOther later hLater

theorem moment_le_of_mem_takeWhile {now : Nat} {call : Waiting} {calls : List Waiting}
    (h : call ∈ calls.takeWhile (·.moment ≤ now)) : call.moment ≤ now := by
  have hEnds := List.mem_takeWhile_imp h
  exact of_decide_eq_true hEnds

namespace Ready

def url : Ready → String
  | .fresh url => url
  | .due url => url

/-- The address of a call for which the resolver has not been called yet. -/
def fresh? : Ready → Option String
  | .fresh url => some url
  | .due _ => none

def due? : Ready → Option String
  | .fresh _ => none
  | .due url => some url

/-- What is told when the call runs, before its end. -/
def opening : Ready → List Event
  | .fresh url => [.started url]
  | .due _ => []

/-- Whether the call ends when it runs. -/
def Ends (plan : Plan) : Ready → Prop
  | .fresh url => (plan.ending url).after = 0
  | .due _ => True

theorem filterMap_fresh?_map (urls : List String) :
    (urls.map Ready.fresh).filterMap fresh? = urls := by
  rw [List.filterMap_map]
  exact List.filterMap_some

theorem filterMap_due?_map (urls : List String) :
    (urls.map Ready.fresh).filterMap due? = [] := by
  rw [List.filterMap_map, List.filterMap_eq_nil_iff]
  intro url _
  rfl

theorem filterMap_fresh?_due (calls : List Waiting) :
    (calls.map (Ready.due ·.url)).filterMap fresh? = [] := by
  rw [List.filterMap_map, List.filterMap_eq_nil_iff]
  intro call _
  rfl

theorem filterMap_due?_due (calls : List Waiting) :
    (calls.map (Ready.due ·.url)).filterMap due? = calls.map Waiting.url := by
  rw [List.filterMap_map, ← List.filterMap_eq_map]
  rfl

end Ready

namespace Pass

/-- The ways in which a resolution goes on, once its new calls are ready. -/
inductive Moves (plan : Plan) (pass : Pass) : Next → Prop
  | wait {url rest} (hReady : pass.ready = .fresh url :: rest)
      (hAfter : (plan.ending url).after ≠ 0) :
      Moves plan pass
        (.running
          { pass with
            ready := rest
            waiting := enqueue ⟨url, pass.clock + (plan.ending url).after⟩ pass.waiting
            events := pass.events ++ [.started url] })
  | resolve {call rest image} (hReady : pass.ready = call :: rest) (hEnds : call.Ends plan)
      (hOutcome : (plan.ending call.url).outcome = .ok image) :
      Moves plan pass
        (.running
          { pass with
            ready := rest
            images := pass.images.insert call.url image
            events := pass.events ++ call.opening ++ [.resolved call.url image] })
  | fail {call rest e} (hReady : pass.ready = call :: rest) (hEnds : call.Ends plan)
      (hOutcome : (plan.ending call.url).outcome = .error e) :
      Moves plan pass
        (.ended ⟨pass.events ++ call.opening ++ [.failed call.url e], .error e⟩)
  | tick {call rest} (hReady : pass.ready = []) (hWaiting : pass.waiting = call :: rest) :
      Moves plan pass (.running (wake call.moment pass))
  | complete (hReady : pass.ready = []) (hWaiting : pass.waiting = []) :
      Moves plan pass (.ended ⟨pass.events, .ok pass.images⟩)

theorem moves_finish {plan : Plan} {pass : Pass} {call : Ready} {rest : List Ready}
    (hReady : pass.ready = call :: rest) (hEnds : call.Ends plan) :
    Moves plan pass
      (finish plan call.url { pass with ready := rest, events := pass.events ++ call.opening }) := by
  rw [finish]
  split
  · rename_i image hOutcome
    exact .resolve hReady hEnds hOutcome
  · rename_i e hOutcome
    exact .fail hReady hEnds hOutcome

theorem moves_advance (plan : Plan) (pass : Pass) : Moves plan pass (advance plan pass) := by
  rw [advance]
  split
  · rename_i call rest hReady
    cases call with
    | fresh url =>
      rw [runCall, start]
      split
      · rename_i hAfter
        exact moves_finish hReady hAfter
      · rename_i hAfter
        exact .wait hReady hAfter
    | due url =>
      have hFinish := @moves_finish plan pass (.due url) rest hReady trivial
      rwa [Ready.opening, List.append_nil] at hFinish
  · rename_i hReady
    split
    · rename_i call rest hWaiting
      exact .tick hReady hWaiting
    · rename_i hWaiting
      exact .complete hReady hWaiting

theorem moves_step (plan : Plan) (pass : Pass) :
    Moves plan (fill plan.limit pass) (step plan pass) :=
  moves_advance plan _

theorem inFlight_wake (now : Nat) (pass : Pass) : (wake now pass).inFlight = pass.inFlight := by
  have hWaiting := length_wake now pass.waiting
  simp only [inFlight, wake, List.length_append, List.length_map]
  omega

theorem fresh_wake (now : Nat) (pass : Pass) :
    (wake now pass).ready.filterMap Ready.fresh? = pass.ready.filterMap Ready.fresh? := by
  rw [wake, List.filterMap_append, Ready.filterMap_fresh?_due, List.append_nil]

/-- The calls that end now or wait are the same after time has moved on. -/
theorem due_wake (now : Nat) (pass : Pass) :
    (wake now pass).ready.filterMap Ready.due? ++ (wake now pass).waiting.map Waiting.url =
      pass.ready.filterMap Ready.due? ++ pass.waiting.map Waiting.url := by
  rw [wake, List.filterMap_append, Ready.filterMap_due?_due, List.append_assoc, ← List.map_append,
    List.takeWhile_append_dropWhile]

theorem fill_of_pending_eq_nil {pass : Pass} (h : pass.pending = []) (limit : Nat) :
    fill limit pass = pass := by
  rw [fill, h, List.take_nil, List.drop_nil, List.map_nil, List.append_nil, ← h]

theorem fill_of_full {pass : Pass} {limit : Nat} (h : limit ≤ pass.inFlight) :
    fill limit pass = pass := by
  rw [fill, Nat.sub_eq_zero_of_le h, List.take_zero, List.drop_zero, List.map_nil, List.append_nil]

/-- The calls that wait stand in the order of their ends, and none should have ended before. -/
structure Timed (pass : Pass) : Prop where
  sorted : pass.waiting.Pairwise fun a b => a.moment ≤ b.moment
  ahead : ∀ call ∈ pass.waiting, pass.clock ≤ call.moment

theorem timed_start (urls : List String) : Timed { pending := urls } where
  sorted := .nil
  ahead := nofun

theorem Timed.fill {pass : Pass} (h : Timed pass) (limit : Nat) : Timed (fill limit pass) where
  sorted := h.sorted
  ahead := h.ahead

/-- Time moves on to the first of the moments at which a call ends. -/
theorem Timed.first_le {pass : Pass} (h : Timed pass) {call other : Waiting} {rest : List Waiting}
    (hWaiting : pass.waiting = call :: rest) (hOther : other ∈ pass.waiting) :
    call.moment ≤ other.moment := by
  have hSorted := h.sorted
  rw [hWaiting] at hSorted hOther
  rcases List.mem_cons.mp hOther with rfl | hRest
  · exact Nat.le_refl _
  · exact (List.pairwise_cons.mp hSorted).1 other hRest

theorem Timed.moves {plan : Plan} {pass next : Pass} (h : Timed pass)
    (hMoves : Moves plan pass (.running next)) : Timed next := by
  cases hMoves with
  | wait hReady hAfter =>
    refine ⟨pairwise_enqueue _ h.sorted, fun call hCall => ?_⟩
    rcases List.mem_cons.mp ((perm_enqueue _ _).subset hCall) with rfl | hCall
    · exact Nat.le_add_right _ _
    · exact h.ahead call hCall
  | resolve hReady hEnds hOutcome => exact ⟨h.sorted, h.ahead⟩
  | @tick call rest hReady hWaiting =>
    have hLater : (wake call.moment pass).waiting.Sublist pass.waiting := List.dropWhile_sublist _
    exact ⟨h.sorted.sublist hLater, fun _ hMem => h.first_le hWaiting (hLater.subset hMem)⟩

/-- What every step keeps, as long as the resolution runs, and what follows from it at the end. -/
theorem run_induct {plan : Plan} {I : Pass → Prop} {R : Report → Prop}
    (hStep : ∀ pass next, I pass → step plan pass = .running next → I next)
    (hEnd : ∀ pass report, I pass → step plan pass = .ended report → R report)
    (pass : Pass) (hPass : I pass) : R (run plan pass) := by
  rw [run]
  split
  · rename_i next hNext
    exact run_induct hStep hEnd next (hStep pass next hPass hNext)
  · rename_i report hReport
    exact hEnd pass report hPass hReport
termination_by pass.work
decreasing_by exact work_step ‹_›

end Pass

end Manuscript.Resolution
