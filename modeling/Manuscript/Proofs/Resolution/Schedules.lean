import Manuscript.Proofs.Resolution.Reached

/-!
# Schedules of a resolution

A schedule says which ready call runs next, when a new call becomes ready, when a call that waits is
found to have ended, and how much time passes before all of this. No schedule can be stuck: an address
whose call has not ended waits for room, is ready or has a moment at which its call ends at the latest,
and there is room for at least one call. No schedule goes on forever: each turn takes a call at least
one of four steps further. The resolution itself follows one of the schedules.
-/

namespace Manuscript.Resolution

/-- A turn of some schedule. -/
inductive Turn (plan : Plan) (pass : Pass) : Next → Prop
  /-- A new call becomes ready where there is room. -/
  | enter {url rest} (hPending : pass.pending = url :: rest) (hRoom : pass.inFlight < plan.limit) :
      Turn plan pass
        (.running { pass with pending := rest, ready := pass.ready ++ [.fresh url] })
  /-- A ready call runs, whichever it is. -/
  | run {before call after now next} (hReady : pass.ready = before ++ call :: after)
      (hNow : pass.clock ≤ now)
      (hNext : Pass.runCall plan { pass with ready := before ++ after, clock := now } call = next) :
      Turn plan pass next
  /-- A call that waits becomes ready, at its moment or later. -/
  | wake {before call after now} (hWaiting : pass.waiting = before ++ call :: after)
      (hNow : pass.clock ≤ now) (hMoment : call.moment ≤ now) :
      Turn plan pass
        (.running
          { pass with
            ready := pass.ready ++ [.due call.url]
            waiting := before ++ after
            clock := now })
  | complete (hPending : pass.pending = []) (hReady : pass.ready = [])
      (hWaiting : pass.waiting = []) :
      Turn plan pass (.ended ⟨pass.events, .ok pass.images⟩)

/-- What a pass comes to by some number of turns. -/
inductive Schedule (plan : Plan) (pass : Pass) : Nat → Next → Prop
  | start : Schedule plan pass 0 (.running pass)
  | turn {turns : Nat} {mid : Pass} {next : Next} (h : Schedule plan pass turns (.running mid))
      (hTurn : Turn plan mid next) : Schedule plan pass (turns + 1) next

/-- How much a resolution still has to do, its end included. -/
def Next.work : Next → Nat
  | .running pass => pass.work + 1
  | .ended _ => 0

namespace Pass

variable {plan : Plan} {urls : List String} {pass next : Pass}

theorem readyWork_middle (before : List Ready) (call : Ready) (after : List Ready) :
    readyWork (before ++ call :: after) = readyWork [call] + readyWork (before ++ after) := by
  rw [← List.singleton_append]
  simp only [readyWork_append]
  omega

theorem work_runCall (plan : Plan) (pass : Pass) (call : Ready) :
    (runCall plan pass call).work ≤ pass.work + readyWork [call] := by
  cases hNext : runCall plan pass call with
  | ended report => exact Nat.zero_le _
  | running next =>
    cases call with
    | fresh url => exact Nat.succ_le_succ (work_start hNext)
    | due url => exact Nat.succ_le_succ (Nat.le_of_eq (work_finish hNext))

/-- Every turn leaves less to do. -/
theorem work_turn {last : Next} (h : Turn plan pass last) :
    last.work < (Next.running pass).work := by
  cases h with
  | @enter url rest hPending hRoom =>
    simp only [Next.work, work, readyWork_append, readyWork, hPending, List.length_cons]
    omega
  | @run before call after now last hReady hNow hNext =>
    have hWork := work_runCall plan { pass with ready := before ++ after, clock := now } call
    have hMiddle := readyWork_middle before call after
    rw [hNext] at hWork
    simp only [Next.work, work, hReady, hMiddle] at hWork ⊢
    omega
  | @wake before call after now hWaiting hNow hMoment =>
    simp only [Next.work, work, readyWork_append, readyWork, hWaiting, List.length_append,
      List.length_cons]
    omega
  | complete hPending hReady hWaiting => exact Nat.succ_pos _

theorem turns_le {turns : Nat} {last : Next} (h : Schedule plan pass turns last) :
    turns + last.work ≤ pass.work + 1 := by
  induction h with
  | start => exact Nat.le_of_eq (Nat.zero_add _)
  | turn h hTurn ih =>
    have := work_turn hTurn
    omega

theorem exists_turn (hLimit : 0 < plan.limit) (pass : Pass) : ∃ last, Turn plan pass last := by
  cases hReady : pass.ready with
  | cons call rest =>
    exact ⟨_, @Turn.run plan pass [] call rest pass.clock _ hReady (Nat.le_refl _) rfl⟩
  | nil =>
    cases hWaiting : pass.waiting with
    | cons call rest =>
      exact ⟨_, @Turn.wake plan pass [] call rest _ hWaiting (Nat.le_max_left _ call.moment)
        (Nat.le_max_right _ _)⟩
    | nil =>
      cases hPending : pass.pending with
      | cons url rest =>
        refine ⟨_, .enter hPending ?_⟩
        rw [inFlight, hReady, hWaiting]
        exact hLimit
      | nil => exact ⟨_, .complete hPending hReady hWaiting⟩

/-! ## Calls that have not ended -/

theorem after_le (plan : Plan) (url : String) : (plan.ending url).after ≤ 1000 * plan.secs := by
  rw [Plan.ending, Reply.ending]
  split
  · split
    · assumption
    · exact Nat.le_refl _
  · exact Nat.le_refl _

/-- The addresses of all calls: those that wait for room, that are ready, that wait for their end and
that have ended. -/
def addresses (pass : Pass) : List String :=
  pass.pending ++ pass.ready.map Ready.url ++ pass.waiting.map Waiting.url ++
    Event.settled pass.events

/-- No address gets lost, and no call waits for longer than it may take. -/
structure Attended (plan : Plan) (urls : List String) (pass : Pass) : Prop where
  placed : pass.addresses.Perm urls
  timers : ∀ call ∈ pass.waiting, call.moment ≤ pass.clock + 1000 * plan.secs

theorem attended_start (plan : Plan) (urls : List String) :
    Attended plan urls { pending := urls } where
  placed := by
    simp [addresses, Event.settled]
  timers := nofun

namespace Attended

theorem runs (h : Attended plan urls pass) {call : Ready} {rest : List Ready}
    (hReady : pass.ready = call :: rest) (hMoves : Moves plan pass (.running next)) :
    Attended plan urls next := by
  cases hMoves with
  | @wait url others hFresh hAfter =>
    have hPerm := perm_enqueue ⟨url, pass.clock + (plan.ending url).after⟩ pass.waiting
    constructor
    · refine List.Perm.trans (List.perm_iff_count.mpr fun other => ?_) h.placed
      have hCount := (hPerm.map Waiting.url).count_eq other
      simp only [addresses, hFresh, Chronicle.settled_call, List.map_cons, List.count_append,
        List.count_cons, Ready.url] at hCount ⊢
      omega
    · intro waiting hWaits
      rcases List.mem_cons.mp (hPerm.subset hWaits) with rfl | hWaits
      · exact Nat.add_le_add_left (after_le plan url) _
      · exact h.timers waiting hWaits
  | @resolve other others image hOther hEnds hOutcome =>
    refine ⟨List.Perm.trans (List.perm_iff_count.mpr fun url => ?_) h.placed, h.timers⟩
    have hSettled := Chronicle.settled_settle (e := .resolved other.url image) rfl
      (pass.events ++ other.opening)
    simp only [addresses, hOther, hSettled, Event.settled_append, Event.settled_opening,
      List.map_cons, List.count_append, List.count_cons, List.count_nil]
    omega
  | tick hNone hWaiting =>
    rw [hReady] at hNone
    cases hNone

theorem turn (h : Attended plan urls pass) (hTurn : Turn plan pass (.running next)) :
    Attended plan urls next := by
  cases hTurn with
  | @enter url rest hPending hRoom =>
    refine ⟨List.Perm.trans (List.perm_iff_count.mpr fun other => ?_) h.placed, h.timers⟩
    simp only [addresses, hPending, Ready.url, List.map_append, List.map_cons, List.map_nil,
      List.count_append, List.count_cons, List.count_nil]
    omega
  | @run before call after now last hReady hNow hNext =>
    -- The order of the ready calls does not matter, so the call may as well have been the first.
    have hFirst : Attended plan urls
        { pass with ready := call :: (before ++ after), clock := now } := by
      constructor
      · refine List.Perm.trans (List.perm_iff_count.mpr fun url => ?_) h.placed
        simp only [addresses, hReady, List.map_cons, List.map_append, List.count_append,
          List.count_cons]
        omega
      · intro waiting hWaits
        exact (h.timers waiting hWaits).trans (Nat.add_le_add_right hNow _)
    refine hFirst.runs rfl ?_
    rw [← hNext]
    exact moves_advance plan _
  | @wake before call after now hWaiting hNow hMoment =>
    constructor
    · refine List.Perm.trans (List.perm_iff_count.mpr fun url => ?_) h.placed
      simp only [addresses, hWaiting, Ready.url, List.map_append, List.map_cons, List.map_nil,
        List.count_append, List.count_cons, List.count_nil]
      omega
    · intro waiting hWaits
      have hMem : waiting ∈ pass.waiting := by
        rw [hWaiting]
        exact List.perm_middle.symm.subset (List.mem_cons_of_mem _ hWaits)
      exact (h.timers waiting hMem).trans (Nat.add_le_add_right hNow _)

theorem of_schedule {turns : Nat} (h : Schedule plan { pending := urls } turns (.running pass)) :
    Attended plan urls pass := by
  generalize hLast : Next.running pass = last at h
  induction h generalizing pass with
  | start =>
    obtain rfl := Next.running.inj hLast
    exact attended_start plan urls
  | turn h hTurn ih =>
    rw [← hLast] at hTurn
    exact (ih rfl).turn hTurn

/-- As long as a call has not ended, there is something to do: a call is ready, there is room for a
new one, or a call waits and ends in time. -/
theorem busy (h : Attended plan urls pass) (hLimit : 0 < plan.limit) {url : String}
    (hUrl : url ∈ urls) (hOpen : url ∉ Event.settled pass.events) :
    pass.ready ≠ [] ∨ (pass.pending ≠ [] ∧ pass.inFlight < plan.limit) ∨
      ∃ call ∈ pass.waiting, call.moment ≤ pass.clock + 1000 * plan.secs := by
  by_cases hReady : pass.ready = []
  · cases hWaiting : pass.waiting with
    | cons call rest =>
      have hMem : call ∈ pass.waiting := by
        rw [hWaiting]
        exact List.mem_cons_self
      exact .inr (.inr ⟨call, List.mem_cons_self, h.timers call hMem⟩)
    | nil =>
      have hPlaced := h.placed.mem_iff.mpr hUrl
      rw [addresses, hReady, hWaiting, List.map_nil, List.map_nil, List.append_nil,
        List.append_nil, List.mem_append] at hPlaced
      refine .inr (.inl ⟨List.ne_nil_of_mem (hPlaced.resolve_right hOpen), ?_⟩)
      rw [inFlight, hReady, hWaiting]
      exact hLimit
  · exact .inl hReady

end Attended

/-! ## The schedule of the resolution -/

/-- To make several calls ready at once is to do it in several turns. -/
theorem schedule_entering {start : Pass} {turns : Nat} {before after : List String}
    (h : Schedule plan start turns (.running pass)) (hPending : pass.pending = before ++ after)
    (hRoom : pass.inFlight + before.length ≤ plan.limit) :
    ∃ more, Schedule plan start more
      (.running { pass with pending := after, ready := pass.ready ++ before.map .fresh }) := by
  induction before generalizing pass turns with
  | nil =>
    obtain rfl : pass.pending = after := hPending
    rw [List.map_nil, List.append_nil]
    exact ⟨turns, h⟩
  | cons url rest ih =>
    rw [List.length_cons] at hRoom
    have hNext := h.turn (.enter hPending (by omega))
    have hMore := ih hNext rfl (by
      simp only [inFlight, List.length_append, List.length_singleton] at hRoom ⊢
      omega)
    simpa only [List.append_assoc, List.cons_append, List.nil_append, List.map_cons] using hMore

theorem schedule_fill {start : Pass} {turns : Nat}
    (h : Schedule plan start turns (.running pass)) :
    ∃ more, Schedule plan start more (.running (fill plan.limit pass)) := by
  by_cases hRoom : pass.inFlight ≤ plan.limit
  · refine schedule_entering h (List.take_append_drop _ _).symm ?_
    rw [List.length_take]
    omega
  · rw [fill_of_full (Nat.le_of_not_le hRoom)]
    exact ⟨turns, h⟩

/-- To find several calls ended at once is to find them ended in several turns. -/
theorem schedule_waking {start : Pass} {turns : Nat} {due later : List Waiting}
    (h : Schedule plan start turns (.running pass)) (hWaiting : pass.waiting = due ++ later)
    (hDue : ∀ call ∈ due, call.moment ≤ pass.clock) :
    ∃ more, Schedule plan start more
      (.running { pass with ready := pass.ready ++ due.map (.due ·.url), waiting := later }) := by
  induction due generalizing pass turns with
  | nil =>
    obtain rfl : pass.waiting = later := hWaiting
    rw [List.map_nil, List.append_nil]
    exact ⟨turns, h⟩
  | cons call rest ih =>
    obtain ⟨hFirst, hRest⟩ := List.forall_mem_cons.mp hDue
    have hNext := h.turn (@Turn.wake plan pass [] call (rest ++ later) _ hWaiting (Nat.le_refl _) hFirst)
    have hMore := ih hNext rfl hRest
    simpa only [List.append_assoc, List.cons_append, List.nil_append, List.map_cons] using hMore

theorem schedule_wake (hTimed : Timed pass) {start : Pass} {turns : Nat} {call : Waiting}
    {rest : List Waiting} (h : Schedule plan start turns (.running pass))
    (hWaiting : pass.waiting = call :: rest) :
    ∃ more, Schedule plan start more (.running (wake call.moment pass)) := by
  have hNow : pass.clock ≤ call.moment :=
    hTimed.ahead call (hWaiting ▸ List.mem_cons_self)
  -- The first of the calls moves time on, the others are found ended at the same moment.
  have hFirst := h.turn (@Turn.wake plan pass [] call rest _ hWaiting hNow (Nat.le_refl _))
  have hCut : rest = rest.takeWhile (·.moment ≤ call.moment) ++
      rest.dropWhile (·.moment ≤ call.moment) :=
    List.takeWhile_append_dropWhile.symm
  have hMore := schedule_waking hFirst hCut fun other => moment_le_of_mem_takeWhile
  simpa [wake, hWaiting] using hMore

theorem schedule_advance (hTimed : Timed pass)
    (hFull : pass.ready = [] → pass.waiting = [] → pass.pending = []) {start : Pass} {turns : Nat}
    (h : Schedule plan start turns (.running pass)) :
    ∃ more, Schedule plan start more (advance plan pass) := by
  rw [advance]
  split
  · rename_i call rest hReady
    exact ⟨_, h.turn (@Turn.run plan pass [] call rest pass.clock _ hReady (Nat.le_refl _) rfl)⟩
  · rename_i hReady
    split
    · rename_i call rest hWaiting
      exact schedule_wake hTimed h hWaiting
    · rename_i hWaiting
      exact ⟨_, h.turn (.complete (hFull hReady hWaiting) hReady hWaiting)⟩

/-- The resolution follows one of the schedules. -/
theorem exists_schedule (hLimit : 0 < plan.limit) {last : Next}
    (h : Reaches plan { pending := urls } last) :
    ∃ turns, Schedule plan { pending := urls } turns last := by
  induction h with
  | here => exact ⟨0, .start⟩
  | @step mid h ih =>
    obtain ⟨turns, hMid⟩ := ih
    obtain ⟨more, hFilled⟩ := schedule_fill hMid
    exact schedule_advance ((timed_of_reaches h).fill plan.limit) (pending_fill_eq_nil hLimit) hFilled

end Pass

/-- A resolution ends, whatever its resolver does, however many calls may be in flight and however
they are scheduled. As long as some call has not ended, a call is ready, there is room for a new one,
or a call waits, and its end comes at the latest when the time allowed is over. So a turn is always
possible, and each one leaves less to do: a schedule has at most four turns for each address and one
for its end. The resolution follows one of the schedules, and its result is the one at the end. -/
theorem every_schedule_ends (resolver : Resolver) (concurrency : Option Nat) (secs : Nat)
    (nodes : List Node) :
    let addresses := (Node.imageUrls nodes).eraseDups
    let plan : Plan := ⟨resolver, max 1 (concurrency.getD addresses.length), secs⟩
    let start : Pass := { pending := addresses }
    (∀ turns pass, Schedule plan start turns (.running pass) →
        (∀ url ∈ addresses, url ∉ Event.settled pass.events →
          pass.ready ≠ [] ∨ (pass.pending ≠ [] ∧ pass.inFlight < plan.limit) ∨
            ∃ call ∈ pass.waiting, call.moment ≤ pass.clock + 1000 * secs) ∧
          (∃ next, Turn plan pass next) ∧
          ∀ next, Turn plan pass next → next.work < (Next.running pass).work) ∧
      (∀ turns next, Schedule plan start turns next → turns ≤ 4 * addresses.length + 1) ∧
      (∀ next, Reaches plan start next → ∃ turns, Schedule plan start turns next) ∧
      ∃ turns report, Schedule plan start turns (.ended report) ∧
        (resolveImages (some resolver) concurrency secs nodes).result = report.result := by
  intro addresses plan start
  have hLimit : 0 < plan.limit := limitOf_pos concurrency addresses.length
  refine ⟨fun turns pass h => ⟨fun url => ?_, Pass.exists_turn hLimit pass, fun next => ?_⟩,
    fun turns next h => ?_, fun next => Pass.exists_schedule hLimit, ?_⟩
  · exact (Pass.Attended.of_schedule h).busy hLimit
  · exact Pass.work_turn
  · have hTurns := Pass.turns_le h
    have hWork : start.work = 4 * addresses.length := rfl
    omega
  · obtain ⟨turns, hSchedule⟩ := Pass.exists_schedule hLimit (Pass.reaches_run plan start)
    exact ⟨turns, _, hSchedule, result_resolveImages resolver concurrency secs nodes⟩

end Manuscript.Resolution
