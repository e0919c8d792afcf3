import Manuscript.Proofs.Resolution.Chronicle

/-!
# States that a resolution reaches

A resolution reaches what its steps lead to, and its report in the end. In every state that it
reaches its calls are the first of its addresses, no more of them are open than the limit allows,
and each has been answered, has failed or still waits. A failure is the last thing that happens.
-/

namespace Manuscript.Resolution

namespace Next

def events : Next → List Event
  | .running pass => pass.events
  | .ended report => report.events

/-- The addresses whose calls have not ended: they end now or wait, or were dropped at the end. -/
def unsettled : Next → List String
  | .running pass => pass.ready.filterMap Ready.due? ++ pass.waiting.map Waiting.url
  | .ended report =>
    (Event.calls report.events).filter fun url => url ∉ Event.settled report.events

end Next

/-- What a pass comes to by some steps. -/
inductive Reaches (plan : Plan) (pass : Pass) : Next → Prop
  | here : Reaches plan pass (.running pass)
  | step {mid : Pass} (h : Reaches plan pass (.running mid)) : Reaches plan pass (mid.step plan)

theorem Reaches.trans {plan : Plan} {pass mid : Pass} {next : Next}
    (h : Reaches plan pass (.running mid)) (hMid : Reaches plan mid next) :
    Reaches plan pass next := by
  induction hMid with
  | here => exact h
  | step _ ih => exact ih.step

/-- A report is reached by a last step. -/
theorem Reaches.exists_last {plan : Plan} {pass : Pass} {report : Report}
    (h : Reaches plan pass (.ended report)) :
    ∃ mid, Reaches plan pass (.running mid) ∧ mid.step plan = .ended report := by
  generalize hLast : Next.ended report = last at h ⊢
  cases h with
  | here => cases hLast
  | @step mid hMid => exact ⟨mid, hMid, rfl⟩

/-- The report in which a resolution ends from some state on. -/
def Next.report (plan : Plan) : Next → Report
  | .running pass => pass.run plan
  | .ended report => report

theorem Pass.report_step (plan : Plan) (pass : Pass) :
    (pass.step plan).report plan = pass.run plan := by
  rw [run]
  split
  · rename_i next hNext
    rw [hNext]
    rfl
  · rename_i report hReport
    rw [hReport]
    rfl

/-- All that a resolution reaches leads to one and the same report. -/
theorem Reaches.report_eq {plan : Plan} {pass : Pass} {next : Next} (h : Reaches plan pass next) :
    next.report plan = pass.run plan := by
  induction h with
  | here => rfl
  | @step mid _ ih => exact (mid.report_step plan).trans ih

namespace Pass

variable {plan : Plan} {urls : List String} {pass next : Pass} {call : Ready} {rest : List Ready}

theorem reaches_run (plan : Plan) (pass : Pass) : Reaches plan pass (.ended (pass.run plan)) := by
  refine run_induct (I := fun mid => Reaches plan pass (.running mid))
    (R := fun report => Reaches plan pass (.ended report))
    (fun mid next h hNext => ?_) (fun mid report h hReport => ?_) pass .here
  · exact hNext ▸ h.step
  · exact hReport ▸ h.step

/-- What every step keeps holds of every state that is reached. -/
theorem reaches_induct {I : Pass → Prop}
    (hStep : ∀ mid next, I mid → Moves plan (Pass.fill plan.limit mid) (.running next) → I next)
    (hPass : I pass) (h : Reaches plan pass (.running next)) : I next := by
  generalize hNext : Next.running next = last at h
  induction h generalizing next with
  | here =>
    cases hNext
    exact hPass
  | @step mid h ih =>
    have hMoves := moves_step plan mid
    rw [← hNext] at hMoves
    exact hStep mid next (ih rfl) hMoves

theorem timed_of_reaches (h : Reaches plan { pending := urls } (.running pass)) : Timed pass :=
  reaches_induct (fun _ _ hMid hMoves => (hMid.fill plan.limit).moves hMoves) (timed_start urls) h

/-- What holds of a pass under way, besides the account of its addresses. -/
structure UnderWay (plan : Plan) (urls : List String) (pass : Pass) : Prop where
  accounted : Accounted plan urls pass
  chronicle : Chronicle plan.limit pass.events
  unfailed : Event.failures pass.events = []
  room : pass.inFlight ≤ plan.limit

theorem underWay_start (plan : Plan) (urls : List String) :
    UnderWay plan urls { pending := urls } where
  accounted := accounted_start plan urls
  chronicle := .nil
  unfailed := rfl
  room := Nat.zero_le _

namespace UnderWay

theorem fill (h : UnderWay plan urls pass) : UnderWay plan urls (fill plan.limit pass) where
  accounted := h.accounted.fill plan.limit
  chronicle := h.chronicle
  unfailed := h.unfailed
  room := by
    have hRoom := h.room
    simp only [inFlight, Pass.fill, List.length_append, List.length_map, List.length_take]
      at hRoom ⊢
    omega

theorem settled_perm (h : UnderWay plan urls pass) :
    ((Event.found pass.events).map Prod.fst).Perm (Event.settled pass.events) :=
  Event.settled_of_unfailed h.unfailed

/-- The calls that have not ended leave room for the first one that is ready. -/
theorem length_calls_lt (h : UnderWay plan urls pass) {url : String}
    (hReady : pass.ready = .fresh url :: rest) :
    (Event.calls pass.events).length < (Event.settled pass.events).length + plan.limit := by
  have hRoom := h.room
  have hMade := h.accounted.made.length_eq
  have hSettled := h.settled_perm.length_eq
  have hDue : (rest.filterMap Ready.due?).length ≤ rest.length := List.length_filterMap_le _ _
  rw [hReady, List.filterMap_cons_none rfl] at hMade
  rw [inFlight, hReady, List.length_cons] at hRoom
  simp only [List.length_append, List.length_map] at hMade hSettled
  omega

theorem not_mem_calls (h : UnderWay plan urls pass) (hUrls : urls.Nodup) {url : String}
    (hReady : pass.ready = .fresh url :: rest) : url ∉ Event.calls pass.events := by
  have hOrder := h.accounted.order
  rw [hReady, List.filterMap_cons_some (f := Ready.fresh?) rfl, List.cons_append] at hOrder
  rw [← hOrder] at hUrls
  exact fun hMem => (List.nodup_append.mp hUrls).2.2 _ hMem _ List.mem_cons_self rfl

theorem calls_prefix (h : UnderWay plan urls pass) : Event.calls pass.events <+: urls :=
  ⟨_, h.accounted.order⟩

/-- A call that is ready to end has been made and has not ended. -/
theorem open_of_due (h : UnderWay plan urls pass) (hUrls : urls.Nodup) {url : String}
    (hReady : pass.ready = .due url :: rest) :
    url ∈ Event.calls pass.events ∧ url ∉ Event.settled pass.events := by
  have hMade := h.accounted.made
  rw [hReady, List.filterMap_cons_some (f := Ready.due?) rfl, List.cons_append] at hMade
  have hNodup := hMade.nodup_iff.mpr (h.calls_prefix.sublist.nodup hUrls)
  refine ⟨hMade.subset (List.mem_append_right _ List.mem_cons_self), fun hMem => ?_⟩
  exact (List.nodup_append.mp hNodup).2.2 _ (h.settled_perm.mem_iff.mpr hMem) _
    List.mem_cons_self rfl

/-- When a ready call runs, it is made if it was not made before, and then it is open. -/
theorem opening (h : UnderWay plan urls pass) (hUrls : urls.Nodup)
    (hReady : pass.ready = call :: rest) :
    Chronicle plan.limit (pass.events ++ call.opening) ∧
      call.url ∈ Event.calls (pass.events ++ call.opening) ∧
      call.url ∉ Event.settled (pass.events ++ call.opening) := by
  cases call with
  | fresh url =>
    have hNew := h.not_mem_calls hUrls hReady
    refine ⟨h.chronicle.call hNew (h.length_calls_lt hReady), ?_, ?_⟩
    · exact Event.mem_calls_iff.mpr (List.mem_append_right _ List.mem_cons_self)
    · rw [Ready.opening, Chronicle.settled_call]
      exact fun hMem => hNew (h.chronicle.settled_subset hMem)
  | due url =>
    rw [Ready.opening, List.append_nil]
    exact ⟨h.chronicle, h.open_of_due hUrls hReady⟩

theorem settle (h : UnderWay plan urls pass) (hUrls : urls.Nodup)
    (hReady : pass.ready = call :: rest) {e : Event} (hEnd : e.settled? = some call.url) :
    Chronicle plan.limit (pass.events ++ call.opening ++ [e]) := by
  obtain ⟨hLog, hCalled, hOpen⟩ := h.opening hUrls hReady
  exact hLog.settle hEnd hCalled hOpen

theorem moves (h : UnderWay plan urls pass) (hUrls : urls.Nodup)
    (hMoves : Moves plan pass (.running next)) : UnderWay plan urls next where
  accounted := h.accounted.moves hMoves
  chronicle := by
    cases hMoves with
    | wait hReady hAfter => exact (h.opening hUrls hReady).1
    | resolve hReady hEnds hOutcome => exact h.settle hUrls hReady rfl
    | tick hReady hWaiting => exact h.chronicle
  unfailed := by
    cases hMoves with
    | wait hReady hAfter =>
      rw [Event.failures_append, h.unfailed]
      rfl
    | resolve hReady hEnds hOutcome =>
      rw [Event.failures_append, Event.failures_append, h.unfailed, Event.failures_opening]
      rfl
    | tick hReady hWaiting => exact h.unfailed
  room := by
    have hRoom := h.room
    cases hMoves with
    | wait hReady hAfter =>
      simp only [inFlight, hReady, List.length_cons, length_enqueue] at hRoom ⊢
      omega
    | resolve hReady hEnds hOutcome =>
      simp only [inFlight, hReady, List.length_cons] at hRoom ⊢
      omega
    | tick hReady hWaiting =>
      rw [inFlight_wake]
      exact hRoom

theorem unsettled_perm (h : UnderWay plan urls pass) :
    ((Next.running pass).unsettled ++ (Event.found pass.events).map Prod.fst ++
      (Event.failures pass.events).map Prod.fst).Perm (Event.calls pass.events) := by
  rw [h.unfailed, List.map_nil, List.append_nil]
  exact List.perm_append_comm.trans h.accounted.made

end UnderWay

/-- How a resolution of some addresses ends. -/
inductive Closes (plan : Plan) (urls : List String) : Report → Prop
  | completed {events : List Event} (hLog : Chronicle plan.limit events)
      (hUnfailed : Event.failures events = []) (hCalls : Event.calls events = urls)
      (hFound : ((Event.found events).map Prod.fst).Perm urls) :
      Closes plan urls ⟨events, .ok (Keyed.ofList (Event.found events))⟩
  | aborted {before : List Event} {url : String} {e : Error}
      (hLog : Chronicle plan.limit (before ++ [.failed url e]))
      (hUnfailed : Event.failures before = []) (hCalls : Event.calls before <+: urls)
      (hUrl : url ∈ Event.calls before) (hOutcome : (plan.ending url).outcome = .error e) :
      Closes plan urls ⟨before ++ [.failed url e], .error e⟩

variable {report : Report}

/-- The calls made are the first addresses also after the first ready call. -/
theorem UnderWay.calls_opening_prefix (h : UnderWay plan urls pass)
    (hReady : pass.ready = call :: rest) :
    Event.calls (pass.events ++ call.opening) <+: urls := by
  have hOrder := h.accounted.order
  rw [hReady] at hOrder
  rw [Event.calls_append, Event.calls_opening]
  cases call with
  | fresh url => exact ⟨_, (List.append_assoc ..).trans hOrder⟩
  | due url =>
    rw [Ready.fresh?, Option.toList_none, List.append_nil]
    exact h.calls_prefix

theorem UnderWay.closes (h : UnderWay plan urls (Pass.fill plan.limit pass)) (hUrls : urls.Nodup)
    (hLimit : 0 < plan.limit) (hMoves : Moves plan (Pass.fill plan.limit pass) (.ended report)) :
    Closes plan urls report := by
  cases hMoves with
  | fail hReady hEnds hOutcome =>
    refine .aborted (h.settle hUrls hReady rfl) ?_ (h.calls_opening_prefix hReady)
      (h.opening hUrls hReady).2.1 hOutcome
    rw [Event.failures_append, h.unfailed, Event.failures_opening]
    rfl
  | complete hReady hWaiting =>
    have hOrder := h.accounted.order
    have hMade := h.accounted.made
    rw [hReady, pending_fill_eq_nil hLimit hReady hWaiting, List.filterMap_nil, List.append_nil,
      List.append_nil] at hOrder
    rw [hReady, hWaiting, List.filterMap_nil, List.map_nil, List.append_nil, List.append_nil,
      hOrder] at hMade
    rw [h.accounted.images]
    exact .completed h.chronicle h.unfailed hOrder hMade

/-- What holds of a state that a resolution reaches. -/
def Holds (plan : Plan) (urls : List String) : Next → Prop
  | .running pass => UnderWay plan urls pass
  | .ended report => Closes plan urls report

theorem holds_of_reaches (hUrls : urls.Nodup) (hLimit : 0 < plan.limit) {next : Next}
    (h : Reaches plan { pending := urls } next) : Holds plan urls next := by
  generalize hStart : ({ pending := urls } : Pass) = start at h
  induction h with
  | here =>
    rw [← hStart]
    exact underWay_start plan urls
  | @step mid h ih =>
    have hMid : UnderWay plan urls mid := ih
    have hMoves := moves_step plan mid
    cases hStep : mid.step plan with
    | running next =>
      rw [hStep] at hMoves
      exact hMid.fill.moves hUrls hMoves
    | ended report =>
      rw [hStep] at hMoves
      exact hMid.fill.closes hUrls hLimit hMoves

theorem not_failed_of_unfailed {events : List Event} (h : Event.failures events = [])
    {url : String} {e : Error} : .failed url e ∉ events := by
  intro hMem
  have hFailure := Event.mem_failures_iff.mpr hMem
  rw [h] at hFailure
  cases hFailure

namespace Closes

theorem chronicle (h : Closes plan urls report) : Chronicle plan.limit report.events := by
  cases h with
  | completed hLog hUnfailed hCalls hFound => exact hLog
  | aborted hLog hUnfailed hCalls hUrl hOutcome => exact hLog

theorem calls_prefix (h : Closes plan urls report) : Event.calls report.events <+: urls := by
  cases h with
  | completed hLog hUnfailed hCalls hFound => exact ⟨[], by rw [hCalls, List.append_nil]⟩
  | aborted hLog hUnfailed hCalls hUrl hOutcome => rwa [Chronicle.calls_settle rfl]

/-- A failure is told last, and its error is the result. -/
theorem failure_is_last (h : Closes plan urls report) {before after : List Event} {url : String}
    {e : Error} (hEvents : report.events = before ++ .failed url e :: after) :
    after = [] ∧ Event.failures before = [] ∧ report.result = .error e := by
  cases h with
  | @completed events hLog hUnfailed hCalls hFound =>
    have hMem : Event.failed url e ∈ events := by
      rw [show events = _ from hEvents]
      exact List.mem_append_right _ List.mem_cons_self
    exact absurd hMem (not_failed_of_unfailed hUnfailed)
  | @aborted first other error hLog hUnfailed hCalls hUrl hOutcome =>
    rcases List.eq_nil_or_concat after with rfl | ⟨more, last, rfl⟩
    · obtain ⟨rfl, hLast⟩ := List.append_inj' hEvents rfl
      obtain ⟨-, rfl⟩ := Event.failed.inj (List.cons.inj hLast).1
      exact ⟨rfl, hUnfailed, rfl⟩
    · have hFirst : first = before ++ .failed url e :: more := by
        rw [List.concat_eq_append, ← List.cons_append, ← List.append_assoc] at hEvents
        exact (List.append_inj' hEvents rfl).1
      rw [hFirst] at hUnfailed
      exact absurd (List.mem_append_right _ List.mem_cons_self) (not_failed_of_unfailed hUnfailed)

theorem calls_of_ok (h : Closes plan urls report) {images : ImageTable}
    (hResult : report.result = .ok images) : Event.calls report.events = urls := by
  cases h with
  | completed hLog hUnfailed hCalls hFound => exact hCalls
  | aborted => cases hResult

theorem unsettled_perm (h : Closes plan urls report) :
    ((Next.ended report).unsettled ++ (Event.found report.events).map Prod.fst ++
      (Event.failures report.events).map Prod.fst).Perm (Event.calls report.events) := by
  rw [List.append_assoc]
  exact ((Event.found_failures_perm_settled report.events).append_left _).trans
    h.chronicle.calls_perm

end Closes

theorem closes_run (plan : Plan) (hUrls : urls.Nodup) (hLimit : 0 < plan.limit) :
    Closes plan urls (run plan { pending := urls }) :=
  holds_of_reaches hUrls hLimit (reaches_run plan { pending := urls })

end Pass

/-! ## All addresses of a tree -/

/-- What is told at the end of a resolution. -/
def Event.closing (addresses : Nat) : Except Error ImageTable → List Event
  | .ok _ => [.completed addresses]
  | .error _ => []

theorem events_resolveAll (resolver : Resolver) (concurrency : Option Nat) (secs : Nat)
    (urls : List String) :
    let report := Pass.run ⟨resolver, limitOf concurrency urls.length, secs⟩ { pending := urls }
    (resolveAll resolver concurrency secs urls).events =
      .began urls.length :: (report.events ++ Event.closing urls.length report.result) := by
  intro report
  rw [resolveAll]
  split
  · rename_i images hResult
    rw [show report.result = .ok images from hResult]
    rfl
  · rename_i e hResult
    rw [show report.result = .error e from hResult, Event.closing, List.append_nil]

theorem calls_resolveAll (resolver : Resolver) (concurrency : Option Nat) (secs : Nat)
    (urls : List String) :
    Event.calls (resolveAll resolver concurrency secs urls).events =
      Event.calls
        (Pass.run ⟨resolver, limitOf concurrency urls.length, secs⟩ { pending := urls }).events := by
  have hClosing : ∀ result, Event.calls (Event.closing urls.length result) = [] := by
    intro result
    cases result <;> rfl
  rw [events_resolveAll]
  change Event.calls (_ ++ Event.closing _ _) = _
  rw [Event.calls_append, hClosing, List.append_nil]

theorem resolveImages_eq_resolveAll (resolver : Resolver) (concurrency : Option Nat) (secs : Nat)
    {nodes : List Node} (h : Node.imageUrls nodes ≠ []) :
    resolveImages (some resolver) concurrency secs nodes =
      resolveAll resolver concurrency secs (Node.imageUrls nodes).eraseDups := by
  rw [resolveImages]
  split
  · rename_i hNone
    exact absurd hNone h
  · rename_i url rest hUrls
    rw [hUrls]

theorem result_resolveImages (resolver : Resolver) (concurrency : Option Nat) (secs : Nat)
    (nodes : List Node) :
    let addresses := (Node.imageUrls nodes).eraseDups
    (resolveImages (some resolver) concurrency secs nodes).result =
      (Pass.run ⟨resolver, limitOf concurrency addresses.length, secs⟩
        { pending := addresses }).result := by
  intro addresses
  by_cases hUrls : Node.imageUrls nodes = []
  · have hNone : addresses = [] := by
      change (Node.imageUrls nodes).eraseDups = []
      rw [hUrls]
      rfl
    rw [resolveImages, hUrls, hNone, ← Pass.report_step, Pass.step, Pass.fill_of_pending_eq_nil rfl]
    rfl
  · rw [resolveImages_eq_resolveAll resolver concurrency secs hUrls, result_resolveAll]

/-- In every state that a resolution reaches, the calls made are the first of the different
addresses, and at no moment were more of them open than the limit allows. The calls made, none of
them twice, are those that have not ended, those with an image and those that failed. A failure is
the end: nothing is told behind it, and the state is the report of its error. The report of the
resolution is reached, and if it has no error, all addresses were called. -/
theorem calls_follow_addresses (resolver : Resolver) (concurrency : Option Nat) (secs : Nat)
    (urls : List String) :
    let addresses := urls.eraseDups
    let limit := max 1 (concurrency.getD addresses.length)
    let plan : Plan := ⟨resolver, limit, secs⟩
    let report := resolveAll resolver concurrency secs addresses
    (∀ next, Reaches plan { pending := addresses } next →
        Event.calls next.events <+: addresses ∧
          (Event.calls next.events).Nodup ∧
          (∀ moment, moment <+: next.events →
            (Event.calls moment).length ≤ (Event.settled moment).length + limit) ∧
          (next.unsettled ++ (Event.found next.events).map Prod.fst ++
            (Event.failures next.events).map Prod.fst).Perm (Event.calls next.events) ∧
          ∀ before url e after, next.events = before ++ .failed url e :: after →
            after = [] ∧ Event.failures before = [] ∧ next = .ended ⟨next.events, .error e⟩) ∧
      (∃ last, Reaches plan { pending := addresses } (.ended last) ∧
        report.result = last.result ∧ Event.calls report.events = Event.calls last.events) ∧
      ∀ images, report.result = .ok images → Event.calls report.events = addresses := by
  intro addresses limit plan report
  have hUrls : addresses.Nodup := nodup_eraseDups urls
  have hLimit : 0 < limit := limitOf_pos concurrency addresses.length
  have hResult : report.result = (Pass.run plan { pending := addresses }).result :=
    result_resolveAll resolver concurrency secs addresses
  have hCalls : Event.calls report.events =
      Event.calls (Pass.run plan { pending := addresses }).events :=
    calls_resolveAll resolver concurrency secs addresses
  refine ⟨fun next hNext => ?_, ⟨_, Pass.reaches_run plan _, hResult, hCalls⟩, fun images hOk => ?_⟩
  · have hHolds := Pass.holds_of_reaches hUrls hLimit hNext
    cases next with
    | running pass =>
      have hPass : Pass.UnderWay plan addresses pass := hHolds
      refine ⟨hPass.calls_prefix, hPass.chronicle.nodup_calls,
        fun moment => hPass.chronicle.within_limit, hPass.unsettled_perm,
        fun before url e after hEvents => ?_⟩
      have hMem : Event.failed url e ∈ (Next.running pass).events := by
        rw [hEvents]
        exact List.mem_append_right _ List.mem_cons_self
      exact absurd hMem (Pass.not_failed_of_unfailed hPass.unfailed)
    | ended last =>
      have hLast : Pass.Closes plan addresses last := hHolds
      refine ⟨hLast.calls_prefix, hLast.chronicle.nodup_calls,
        fun moment => hLast.chronicle.within_limit, hLast.unsettled_perm,
        fun before url e after hEvents => ?_⟩
      obtain ⟨hNone, hBefore, hError⟩ := hLast.failure_is_last hEvents
      exact ⟨hNone, hBefore, by rw [← hError]; rfl⟩
  · rw [hCalls]
    exact (Pass.closes_run plan hUrls hLimit).calls_of_ok (hResult ▸ hOk)

end Manuscript.Resolution
