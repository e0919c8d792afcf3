import Manuscript.Proofs.Resolution.Reached

/-!
# The race of all calls

With room for all calls, none waits for another: all calls are made before time moves on, and then
time moves on from the end of one call to the end of the next. So the first failure that comes without
waiting decides, or else the failure that comes first, and the images found by then are those that
came before it.
-/

namespace Manuscript.Resolution

namespace Resolver

variable (resolver : Resolver) (secs : Nat)

/-- How long the call for an address takes: until its answer, or all the time allowed if that is
less. -/
def completion (url : String) : Nat :=
  let reply := resolver.reply url
  match reply.answer with
  | some _ => min reply.latency (1000 * secs)
  | none => 1000 * secs

def FailsAtOnce (url : String) : Prop :=
  resolver.completion secs url = 0 ∧ ∃ e, resolver.outcome secs url = .error e

/-- No two calls that wait take equally long. -/
def Apart (urls : List String) : Prop :=
  ∀ url ∈ urls, ∀ other ∈ urls, resolver.completion secs url ≠ 0 →
    resolver.completion secs other = resolver.completion secs url → other = url

end Resolver

theorem after_ending (resolver : Resolver) (limit secs : Nat) (url : String) :
    ((⟨resolver, limit, secs⟩ : Plan).ending url).after = resolver.completion secs url := by
  rw [Plan.ending, Reply.ending, Resolver.completion]
  cases (resolver.reply url).answer with
  | none => rfl
  | some answer =>
    dsimp only
    split
    · rename_i hInTime
      exact (Nat.min_eq_left hInTime).symm
    · rename_i hLate
      exact (Nat.min_eq_right (Nat.le_of_not_le hLate)).symm

theorem not_failsAtOnce {resolver : Resolver} {limit secs : Nat} {url : String}
    (h : ((⟨resolver, limit, secs⟩ : Plan).ending url).after = 0 →
      ∃ image, ((⟨resolver, limit, secs⟩ : Plan).ending url).outcome = .ok image) :
    ¬resolver.FailsAtOnce secs url := by
  rintro ⟨hAfter, e, hOutcome⟩
  rw [after_ending, outcome_ending] at h
  obtain ⟨image, hImage⟩ := h hAfter
  rw [hOutcome] at hImage
  cases hImage

namespace Pass

/-- How a pass stands in time that had room for all calls from the beginning. -/
structure Racing (plan : Plan) (pass : Pass) : Prop extends Timed pass where
  entered : pass.pending = []
  /-- Time moves on only when all calls have been made. -/
  unmoved : ∀ url, .fresh url ∈ pass.ready → pass.clock = 0
  found : ∀ e ∈ Event.found pass.events, (plan.ending e.1).after ≤ pass.clock
  due : ∀ url, .due url ∈ pass.ready → (plan.ending url).after = pass.clock ∧ pass.clock ≠ 0
  waiting : ∀ call ∈ pass.waiting, (plan.ending call.url).after = call.moment ∧ call.moment ≠ 0

variable {plan : Plan} {urls : List String} {pass next : Pass}

theorem racing_start (hRoom : urls.length ≤ plan.limit) :
    Racing plan (fill plan.limit { pending := urls }) where
  toTimed := (timed_start urls).fill plan.limit
  entered := List.drop_eq_nil_of_le hRoom
  unmoved _ _ := rfl
  found := nofun
  due url hDue := by
    obtain ⟨_, -, hFresh⟩ := List.mem_map.mp hDue
    cases hFresh
  waiting := nofun

theorem Racing.moves (h : Racing plan pass) (hMoves : Moves plan pass (.running next)) :
    Racing plan next := by
  have hTimed := h.toTimed.moves hMoves
  cases hMoves with
  | @wait url rest hReady hAfter =>
    have hLater : rest ⊆ pass.ready := hReady ▸ List.subset_cons_self _ rest
    have hClock : pass.clock = 0 := h.unmoved url (hReady ▸ List.mem_cons_self)
    refine ⟨hTimed, h.entered, fun _ _ => hClock, fun e he => ?_,
      fun other hDue => h.due other (hLater hDue), fun call hCall => ?_⟩
    · rw [Event.found_append] at he
      exact h.found e ((List.mem_append.mp he).resolve_right List.not_mem_nil)
    · rcases List.mem_cons.mp ((perm_enqueue _ _).subset hCall) with rfl | hCall
      · rw [hClock, Nat.zero_add]
        exact ⟨rfl, hAfter⟩
      · exact h.waiting call hCall
  | @resolve call rest image hReady hEnds hOutcome =>
    have hLater : rest ⊆ pass.ready := hReady ▸ List.subset_cons_self call rest
    refine ⟨hTimed, h.entered, fun url hFresh => h.unmoved url (hLater hFresh), fun e he => ?_,
      fun url hDue => h.due url (hLater hDue), h.waiting⟩
    rw [Event.found_resolve] at he
    rcases List.mem_append.mp he with he | he
    · exact h.found e he
    · obtain rfl := List.mem_singleton.mp he
      cases call with
      | fresh url => exact Nat.le_trans (Nat.le_of_eq hEnds) (Nat.zero_le _)
      | due url => exact Nat.le_of_eq (h.due url (hReady ▸ List.mem_cons_self)).1
  | @tick call rest hReady hWaiting =>
    have hFirst : call ∈ pass.waiting := hWaiting ▸ List.mem_cons_self
    have hLater : (wake call.moment pass).waiting ⊆ pass.waiting := List.dropWhile_subset _
    have hAwake : (wake call.moment pass).ready =
        (pass.waiting.takeWhile (·.moment ≤ call.moment)).map (.due ·.url) := by
      rw [wake, hReady, List.nil_append]
    refine ⟨hTimed, h.entered, fun url hFresh => ?_,
      fun e he => (h.found e he).trans (h.ahead call hFirst), fun url hDue => ?_,
      fun other hOther => h.waiting other (hLater hOther)⟩
    · obtain ⟨_, -, hUrl⟩ := List.mem_map.mp (hAwake ▸ hFresh)
      cases hUrl
    · obtain ⟨other, hOther, hUrl⟩ := List.mem_map.mp (hAwake ▸ hDue)
      obtain rfl := Ready.due.inj hUrl
      have hWaits : other ∈ pass.waiting := List.takeWhile_subset _ hOther
      have hNow : other.moment = call.moment :=
        Nat.le_antisymm (moment_le_of_mem_takeWhile hOther) (h.first_le hWaiting hWaits)
      rw [← hNow]
      exact h.waiting other hWaits

theorem racing_of_reaches (hRoom : urls.length ≤ plan.limit)
    (h : Reaches plan { pending := urls } (.running pass)) :
    Racing plan (fill plan.limit pass) := by
  refine reaches_induct (I := fun mid => Racing plan (fill plan.limit mid))
    (fun mid next hMid hMoves => ?_) (racing_start hRoom) h
  have hNext := hMid.moves hMoves
  rw [fill_of_pending_eq_nil hNext.entered]
  exact hNext

theorem Accounted.placed (h : Accounted plan urls pass) {url : String}
    (hCalled : url ∈ Event.calls pass.events) :
    (∃ image, (url, image) ∈ Event.found pass.events) ∨ .due url ∈ pass.ready ∨
      ∃ call ∈ pass.waiting, call.url = url := by
  rcases List.mem_append.mp (h.made.mem_iff.mpr hCalled) with hFound | hOpen
  · obtain ⟨⟨_, image⟩, hImage, rfl⟩ := List.mem_map.mp hFound
    exact .inl ⟨image, hImage⟩
  rcases List.mem_append.mp hOpen with hDue | hWaiting
  · obtain ⟨call, hCall, hUrl⟩ := List.mem_filterMap.mp hDue
    cases call with
    | fresh => cases hUrl
    | due other =>
      obtain rfl := Option.some.inj hUrl
      exact .inr (.inl hCall)
  · exact .inr (.inr (List.mem_map.mp hWaiting))

namespace Racing

theorem calls_eq (h : Racing plan pass) (hPass : UnderWay plan urls pass)
    (hMade : ∀ url, .fresh url ∉ pass.ready) : Event.calls pass.events = urls := by
  have hNone : pass.ready.filterMap Ready.fresh? = [] := by
    refine List.filterMap_eq_nil_iff.mpr fun call hCall => ?_
    cases call with
    | fresh url => exact absurd hCall (hMade url)
    | due url => rfl
  have hOrder := hPass.accounted.order
  rwa [hNone, h.entered, List.append_nil, List.append_nil] at hOrder

/-- A call that was made has its image, or it has to wait and does not end before now. -/
theorem found_or_waits (h : Racing plan pass) (hPass : UnderWay plan urls pass) {url : String}
    (hCalled : url ∈ Event.calls pass.events) :
    (∃ image, (plan.ending url).outcome = .ok image ∧ (url, image) ∈ Event.found pass.events) ∨
      (pass.clock ≤ (plan.ending url).after ∧ (plan.ending url).after ≠ 0) := by
  rcases hPass.accounted.placed hCalled with ⟨image, hFound⟩ | hDue | ⟨call, hCall, rfl⟩
  · exact .inl ⟨image, hPass.accounted.outcomes _ hFound, hFound⟩
  · obtain ⟨hMoment, hMoved⟩ := h.due url hDue
    exact .inr ⟨Nat.le_of_eq hMoment.symm, hMoment ▸ hMoved⟩
  · obtain ⟨hMoment, hWaits⟩ := h.waiting call hCall
    exact .inr ⟨hMoment ▸ h.ahead call hCall, hMoment ▸ hWaits⟩

theorem image_at_once (h : Racing plan pass) (hPass : UnderWay plan urls pass) {url : String}
    (hCalled : url ∈ Event.calls pass.events) (hAfter : (plan.ending url).after = 0) :
    ∃ image, (plan.ending url).outcome = .ok image := by
  rcases h.found_or_waits hPass hCalled with ⟨image, hOutcome, -⟩ | ⟨-, hWaits⟩
  · exact ⟨image, hOutcome⟩
  · exact absurd hAfter hWaits

/-- When a call fails without waiting, no call before it has. -/
theorem fresh_fails (h : Racing plan pass) (hPass : UnderWay plan urls pass) {url : String}
    {rest : List Ready} (hReady : pass.ready = .fresh url :: rest) :
    (∃ after, urls = Event.calls pass.events ++ url :: after) ∧
      ∀ other ∈ Event.calls pass.events, (plan.ending other).after = 0 →
        ∃ image, (plan.ending other).outcome = .ok image := by
  refine ⟨⟨rest.filterMap Ready.fresh?, ?_⟩, fun other => h.image_at_once hPass⟩
  have hOrder := hPass.accounted.order
  rw [hReady, h.entered, List.append_nil] at hOrder
  exact hOrder.symm

variable {url : String} {rest : List Ready}

theorem calls_eq_of_due (h : Racing plan pass) (hPass : UnderWay plan urls pass)
    (hReady : pass.ready = .due url :: rest) : Event.calls pass.events = urls := by
  have hDue := h.due url (hReady ▸ List.mem_cons_self)
  exact h.calls_eq hPass fun other hFresh => hDue.2 (h.unmoved other hFresh)

/-- When a call ends that had to wait, all other calls that fail take longer. -/
theorem lt_of_due (h : Racing plan pass) (hPass : UnderWay plan urls pass)
    (hReady : pass.ready = .due url :: rest) {other : String} (hOther : other ∈ urls)
    (hApart : (plan.ending other).after ≠ (plan.ending url).after) {e : Error}
    (hOutcome : (plan.ending other).outcome = .error e) :
    (plan.ending url).after < (plan.ending other).after := by
  have hDue := h.due url (hReady ▸ List.mem_cons_self)
  rw [← h.calls_eq_of_due hPass hReady] at hOther
  rcases h.found_or_waits hPass hOther with ⟨image, hImage, -⟩ | ⟨hNow, -⟩
  · rw [hOutcome] at hImage
    cases hImage
  · exact lt_of_le_of_ne (hDue.1 ▸ hNow) hApart.symm

/-- When a call ends that had to wait, the images found are those of the calls that take less. -/
theorem found_iff_of_due (h : Racing plan pass) (hPass : UnderWay plan urls pass)
    (hUrls : urls.Nodup) (hReady : pass.ready = .due url :: rest)
    (hApart : ∀ other ∈ urls, (plan.ending other).after = (plan.ending url).after → other = url)
    {other : String} {image : ImageData} :
    (other, image) ∈ Event.found pass.events ↔
      other ∈ urls ∧ (plan.ending other).outcome = .ok image ∧
        (plan.ending other).after < (plan.ending url).after := by
  have hDue := (h.due url (hReady ▸ List.mem_cons_self)).1
  have hCalls := h.calls_eq_of_due hPass hReady
  constructor
  · intro hFound
    have hEnded : other ∈ Event.settled pass.events :=
      hPass.settled_perm.subset (List.mem_map_of_mem hFound)
    have hOther : other ∈ urls := hCalls ▸ hPass.chronicle.settled_subset hEnded
    refine ⟨hOther, hPass.accounted.outcomes _ hFound, hDue ▸ lt_of_le_of_ne (h.found _ hFound) ?_⟩
    intro hSame
    obtain rfl := hApart other hOther (hSame.trans hDue.symm)
    exact (hPass.open_of_due hUrls hReady).2 hEnded
  · rintro ⟨hOther, hOutcome, hBefore⟩
    rcases h.found_or_waits hPass (hCalls ▸ hOther) with ⟨found, hImage, hFound⟩ | ⟨hNow, -⟩
    · rw [hOutcome] at hImage
      obtain rfl := Except.ok.inj hImage
      exact hFound
    · rw [hDue] at hBefore
      exact absurd hNow (Nat.not_le_of_lt hBefore)

end Racing

theorem calls_of_moved (hUrls : urls.Nodup) (hLimit : 0 < plan.limit)
    (hRoom : urls.length ≤ plan.limit) (h : Reaches plan { pending := urls } (.running pass))
    (hMoved : pass.clock ≠ 0) : Event.calls pass.events = urls := by
  have hPass : UnderWay plan urls pass := holds_of_reaches hUrls hLimit h
  have hRacing := racing_of_reaches hRoom h
  exact hRacing.calls_eq hPass.fill fun url hFresh => hMoved (hRacing.unmoved url hFresh)

/-- The last state before the end. -/
theorem exists_racing (hUrls : urls.Nodup) (hLimit : 0 < plan.limit)
    (hRoom : urls.length ≤ plan.limit) :
    ∃ pass, UnderWay plan urls pass ∧ Racing plan pass ∧
      Moves plan pass (.ended (run plan { pending := urls })) := by
  obtain ⟨last, hLast, hStep⟩ := (reaches_run plan { pending := urls }).exists_last
  have hPass : UnderWay plan urls last := holds_of_reaches hUrls hLimit hLast
  refine ⟨fill plan.limit last, hPass.fill, racing_of_reaches hRoom hLast, ?_⟩
  exact hStep ▸ moves_step plan last

/-- How the race of some calls ends. -/
inductive Won (plan : Plan) (urls : List String) : Report → Prop
  | atOnce {before : List String} {url : String} {after : List String} {e : Error}
      {events : List Event} (hUrls : urls = before ++ url :: after)
      (hBefore : ∀ other ∈ before, (plan.ending other).after = 0 →
        ∃ image, (plan.ending other).outcome = .ok image)
      (hAfter : (plan.ending url).after = 0) (hOutcome : (plan.ending url).outcome = .error e)
      (hCalls : Event.calls events = before ++ [url]) : Won plan urls ⟨events, .error e⟩
  | later {url : String} {e : Error} {log : List Event} (hUrl : url ∈ urls)
      (hOutcome : (plan.ending url).outcome = .error e)
      (hNone : ∀ other ∈ urls, (plan.ending other).after = 0 →
        ∃ image, (plan.ending other).outcome = .ok image)
      (hLeast : ∀ other ∈ urls, other ≠ url → (∃ e, (plan.ending other).outcome = .error e) →
        (plan.ending url).after < (plan.ending other).after)
      (hCalls : Event.calls log = urls)
      (hFound : ∀ other image, (other, image) ∈ Event.found log ↔
        other ∈ urls ∧ (plan.ending other).outcome = .ok image ∧
          (plan.ending other).after < (plan.ending url).after) :
      Won plan urls ⟨log ++ [.failed url e], .error e⟩

theorem won_run (hUrls : urls.Nodup) (hRoom : urls.length ≤ plan.limit)
    (hApart : ∀ url ∈ urls, ∀ other ∈ urls, (plan.ending url).after ≠ 0 →
      (plan.ending other).after = (plan.ending url).after → other = url)
    (hFails : ∃ url ∈ urls, ∃ e, (plan.ending url).outcome = .error e) :
    Won plan urls (run plan { pending := urls }) := by
  obtain ⟨failing, hFailing, error, hError⟩ := hFails
  have hLimit : 0 < plan.limit := (List.length_pos_of_mem hFailing).trans_le hRoom
  obtain ⟨pass, hPass, hRacing, hMoves⟩ := exists_racing hUrls hLimit hRoom
  have hSettles := settles_run plan hLimit urls
  generalize run plan { pending := urls } = report at hMoves hSettles ⊢
  cases hMoves with
  | @fail call rest e hReady hEnds hOutcome =>
    cases call with
    | fresh url =>
      obtain ⟨⟨after, hSplit⟩, hBefore⟩ := hRacing.fresh_fails hPass hReady
      refine .atOnce hSplit hBefore hEnds hOutcome ?_
      rw [Chronicle.calls_settle rfl, Event.calls_append, Event.calls_opening]
      rfl
    | due url =>
      have hCalls := hRacing.calls_eq_of_due hPass hReady
      have hUrl : url ∈ urls := hCalls ▸ (hPass.open_of_due hUrls hReady).1
      obtain ⟨hDue, hMoved⟩ := hRacing.due url (hReady ▸ List.mem_cons_self)
      have hSame := fun other hOther => hApart url hUrl other hOther (hDue ▸ hMoved)
      rw [Ready.opening, List.append_nil]
      refine .later hUrl hOutcome (fun other hOther => ?_) (fun other hOther hOtherwise => ?_)
        hCalls fun other image => hRacing.found_iff_of_due hPass hUrls hReady hSame
      · exact hRacing.image_at_once hPass (hCalls ▸ hOther)
      · rintro ⟨f, hFails⟩
        exact hRacing.lt_of_due hPass hReady hOther (mt (hSame other hOther) hOtherwise) hFails
  | complete hReady hWaiting =>
    obtain ⟨image, hImage⟩ := hSettles.exists_ok_iff.mp ⟨_, rfl⟩ failing hFailing
    rw [hError] at hImage
    cases hImage

end Pass

/-- If there is room for all calls and some call fails, the resolution is a race that the fastest
failure wins. Time moves on only when all calls have been made. If some call fails without waiting,
the first such call is the last one made, and its error is the result. Otherwise all calls are made,
and the result is the error of the failing call that takes the least time; the images found before
it are those of all calls that take less. -/
theorem fastest_failure_wins (resolver : Resolver) (concurrency : Option Nat) (secs : Nat)
    {nodes : List Node}
    (hRoom : ∀ limit, concurrency = some limit →
      (Node.imageUrls nodes).eraseDups.length ≤ limit)
    (hApart : resolver.Apart secs (Node.imageUrls nodes))
    (hFails : ∃ url ∈ Node.imageUrls nodes, ∃ e, resolver.outcome secs url = .error e) :
    let addresses := (Node.imageUrls nodes).eraseDups
    let plan : Plan := ⟨resolver, max 1 (concurrency.getD addresses.length), secs⟩
    let report := resolveImages (some resolver) concurrency secs nodes
    (∀ pass, Reaches plan { pending := addresses } (.running pass) → pass.clock ≠ 0 →
        Event.calls pass.events = addresses) ∧
      ((∃ url ∈ addresses, resolver.FailsAtOnce secs url) →
        ∃ before url after e, addresses = before ++ url :: after ∧
          (∀ other ∈ before, ¬resolver.FailsAtOnce secs other) ∧
          resolver.completion secs url = 0 ∧ resolver.outcome secs url = .error e ∧
          report.result = .error e ∧ Event.calls report.events = before ++ [url]) ∧
      ((∀ url ∈ addresses, ¬resolver.FailsAtOnce secs url) →
        ∃ url ∈ addresses, ∃ e log, resolver.outcome secs url = .error e ∧
          (∀ other ∈ addresses, other ≠ url → (∃ e, resolver.outcome secs other = .error e) →
            resolver.completion secs url < resolver.completion secs other) ∧
          report.result = .error e ∧ report.events = log ++ [.failed url e] ∧
          Event.calls log = addresses ∧
          ∀ other image, .resolved other image ∈ log ↔
            other ∈ addresses ∧ resolver.outcome secs other = .ok image ∧
              resolver.completion secs other < resolver.completion secs url) := by
  intro addresses plan report
  have hUrls : addresses.Nodup := nodup_eraseDups _
  have hMem : ∀ url, url ∈ addresses ↔ url ∈ Node.imageUrls nodes := fun url =>
    List.mem_eraseDups
  have hLimit : addresses.length ≤ plan.limit := by
    refine Nat.le_trans ?_ (Nat.le_max_right _ _)
    cases concurrency with
    | none => exact Nat.le_refl _
    | some limit => exact hRoom limit rfl
  obtain ⟨run, hRun⟩ : ∃ run, Pass.run plan { pending := addresses } = run := ⟨_, rfl⟩
  have hWon : Pass.Won plan addresses run := by
    rw [← hRun]
    refine Pass.won_run hUrls hLimit (fun url hUrl other hOther => ?_) ?_
    · simp only [plan, after_ending]
      exact hApart url ((hMem url).mp hUrl) other ((hMem other).mp hOther)
    · obtain ⟨url, hUrl, e, hOutcome⟩ := hFails
      exact ⟨url, (hMem url).mpr hUrl, e, (outcome_ending ..).trans hOutcome⟩
  have hReport : report = resolveAll resolver concurrency secs addresses := by
    obtain ⟨url, hUrl, -⟩ := hFails
    exact resolveImages_eq_resolveAll resolver concurrency secs (List.ne_nil_of_mem hUrl)
  have hEvents : report.events = .began addresses.length ::
      (run.events ++ Event.closing addresses.length run.result) := by
    rw [hReport, ← hRun]
    exact events_resolveAll resolver concurrency secs addresses
  have hResult : report.result = run.result := by
    rw [← hRun]
    exact result_resolveImages resolver concurrency secs nodes
  have hCalls : Event.calls report.events = Event.calls run.events := by
    rw [hReport, ← hRun]
    exact calls_resolveAll resolver concurrency secs addresses
  refine ⟨fun pass => Pass.calls_of_moved hUrls (limitOf_pos ..) hLimit, ?_⟩
  cases hWon with
  | @atOnce before url after e events hSplit hBefore hAfter hOutcome hCalled =>
    rw [after_ending] at hAfter
    rw [outcome_ending] at hOutcome
    refine ⟨fun _ => ⟨before, url, after, e, hSplit, fun other hOther => ?_, hAfter, hOutcome,
      hResult, hCalls.trans hCalled⟩, fun hNone => ?_⟩
    · exact not_failsAtOnce (hBefore other hOther)
    · have hUrl : url ∈ addresses := hSplit ▸ List.mem_append_right _ List.mem_cons_self
      exact absurd ⟨hAfter, e, hOutcome⟩ (hNone url hUrl)
  | @later url e log hUrl hOutcome hNone hLeast hCalled hFound =>
    simp only [plan, after_ending, outcome_ending] at hOutcome hLeast hFound
    refine ⟨fun hSome => ?_, fun _ => ⟨url, hUrl, e, .began addresses.length :: log, hOutcome,
      hLeast, hResult, ?_, hCalled, fun other image => ?_⟩⟩
    · obtain ⟨other, hOther, hAtOnce⟩ := hSome
      exact absurd hAtOnce (not_failsAtOnce (hNone other hOther))
    · rw [hEvents, Event.closing, List.append_nil]
      rfl
    · rw [← hFound, Event.mem_found_iff, List.mem_cons]
      refine or_iff_right fun hBegan => ?_
      cases hBegan

theorem race_of_four_calls :
    let image : ImageData := ⟨[1], 2, 3⟩
    let gone : Error := .imageResolveFailed "c" "gone"
    let resolver : Resolver :=
      { reply url :=
          if url = "a" then ⟨1500, some (.ok image)⟩
          else if url = "c" then ⟨700, some (.error gone)⟩
          else if url = "d" then ⟨300, some (.ok image)⟩
          else ⟨0, none⟩ }
    let nodes : List Node :=
      [.paragraph [.image "a" none none, .image "b" none none], .image "c" none none,
        .image "a" none none, .image "d" none none]
    let report := resolveImages (some resolver) none 2 nodes
    resolver.Apart 2 (Node.imageUrls nodes) ∧
      (∃ url ∈ Node.imageUrls nodes, ∃ e, resolver.outcome 2 url = .error e) ∧
      report.result = .error gone ∧ Event.calls report.events = ["a", "b", "c", "d"] ∧
      ∀ other found, .resolved other found ∈ report.events ↔ other = "d" ∧ found = image := by
  intro image gone resolver nodes report
  have hUrls : Node.imageUrls nodes = ["a", "b", "c", "a", "d"] := by
    simp [nodes, Node.imageUrls, Node.preorderAll, Node.preorder, Node.children, Node.imageUrl?]
  have hAddresses : (Node.imageUrls nodes).eraseDups = ["a", "b", "c", "d"] := by
    rw [hUrls]
    decide
  have hApart : resolver.Apart 2 (Node.imageUrls nodes) := by
    rw [hUrls, Resolver.Apart]
    decide
  have hFails : ∃ url ∈ Node.imageUrls nodes, ∃ e, resolver.outcome 2 url = .error e := by
    rw [hUrls]
    exact ⟨"c", by decide, gone, rfl⟩
  have hRoom : ∀ limit, none = some limit → (Node.imageUrls nodes).eraseDups.length ≤ limit := by
    rintro limit ⟨⟩
  obtain ⟨-, -, hLater⟩ := fastest_failure_wins resolver none 2 hRoom hApart hFails
  rw [hAddresses] at hLater
  have hWaits : ∀ url ∈ ["a", "b", "c", "d"], resolver.completion 2 url ≠ 0 := by decide
  have hSooner : ∀ url ∈ ["a", "b", "c", "d"],
      resolver.completion 2 url < resolver.completion 2 "c" → url = "d" := by decide
  obtain ⟨url, hUrl, e, log, hOutcome, hLeast, hResult, hEvents, hCalls, hFound⟩ :=
    hLater fun url hUrl hAtOnce => hWaits url hUrl hAtOnce.1
  obtain rfl : url = "c" := by
    by_contra hOther
    have hBefore := hLeast "c" (by decide) (Ne.symm hOther) ⟨gone, rfl⟩
    obtain rfl := hSooner url hUrl hBefore
    cases hOutcome
  obtain rfl : gone = e := Except.error.inj hOutcome
  refine ⟨hApart, hFails, hResult, ?_, fun other found => ?_⟩
  · rw [hEvents, Chronicle.calls_settle rfl, hCalls]
  · rw [hEvents, List.mem_append, or_iff_left (by simp), hFound]
    constructor
    · rintro ⟨hOther, hImage, hBefore⟩
      obtain rfl := hSooner other hOther hBefore
      exact ⟨rfl, (Except.ok.inj hImage).symm⟩
    · rintro ⟨rfl, rfl⟩
      exact ⟨by decide, rfl, by decide⟩

end Manuscript.Resolution
