import Mathlib.Data.Finset.Card
import Manuscript.Proofs.Keyed
import Manuscript.Proofs.Resolution.Steps
import Manuscript.Proofs.Tree.Sites

/-!
# Outcomes of a resolution

The outcome of an address depends on the resolver and the time allowed alone: it is the answer of the
resolver if that comes in time, and a timeout otherwise. However many calls are in flight and however
they overlap, a resolution gives the table of all outcomes if they are images, and else the error of
one of them. The invariant behind this accounts for every address: calls are made in the order of the
addresses, and a call that was made has ended with its outcome, ends now, or waits.
-/

namespace Manuscript.Resolution

/-- The outcome of an address: the answer of the resolver within the time allowed, or a timeout. -/
def Resolver.outcome (resolver : Resolver) (secs : Nat) (url : String) : Except Error ImageData :=
  let reply := resolver.reply url
  match reply.answer with
  | some answer =>
    if reply.latency ≤ 1000 * secs then answer else .error (.imageTimeout url secs)
  | none => .error (.imageTimeout url secs)

theorem outcome_ending (resolver : Resolver) (limit secs : Nat) (url : String) :
    ((⟨resolver, limit, secs⟩ : Plan).ending url).outcome = resolver.outcome secs url := by
  rw [Plan.ending, Reply.ending, Resolver.outcome]
  cases (resolver.reply url).answer with
  | none => rfl
  | some answer =>
    dsimp only
    split <;> rfl

/-- An error is the answer of the resolver unless it is a timeout. -/
theorem answer_of_outcome {resolver : Resolver} {secs : Nat} {url : String} {e : Error}
    (h : resolver.outcome secs url = .error e) (hTimeout : e ≠ .imageTimeout url secs) :
    (resolver.reply url).answer = some (.error e) := by
  rw [Resolver.outcome] at h
  split at h
  · rename_i answer hAnswer
    split at h
    · rw [hAnswer, h]
    · exact absurd (Except.error.inj h).symm hTimeout
  · exact absurd (Except.error.inj h).symm hTimeout

/-- The images found so far with their addresses. -/
def Event.found (events : List Event) : List (String × ImageData) :=
  events.filterMap fun
    | .resolved url image => some (url, image)
    | _ => none

theorem Event.calls_append (events more : List Event) :
    calls (events ++ more) = calls events ++ calls more :=
  List.filterMap_append

theorem Event.found_append (events more : List Event) :
    found (events ++ more) = found events ++ found more :=
  List.filterMap_append

@[simp]
theorem Event.found_opening (call : Ready) : found call.opening = [] := by
  cases call <;> rfl

theorem Event.found_resolve (events : List Event) (call : Ready) (image : ImageData) :
    found (events ++ call.opening ++ [.resolved call.url image]) =
      found events ++ [(call.url, image)] := by
  rw [found_append, found_append, found_opening, List.append_nil]
  rfl

@[simp]
theorem Event.calls_opening (call : Ready) : calls call.opening = call.fresh?.toList := by
  cases call <;> rfl

namespace Pass

structure Accounted (plan : Plan) (urls : List String) (pass : Pass) : Prop where
  /-- Calls were made in the order of the addresses; the others follow in that order. -/
  order : Event.calls pass.events ++ (pass.ready.filterMap Ready.fresh? ++ pass.pending) = urls
  /-- A call that was made has ended with an image, ends now, or waits. -/
  made : ((Event.found pass.events).map Prod.fst ++
    (pass.ready.filterMap Ready.due? ++ pass.waiting.map Waiting.url)).Perm
      (Event.calls pass.events)
  outcomes : ∀ e ∈ Event.found pass.events, (plan.ending e.1).outcome = .ok e.2
  images : pass.images = Keyed.ofList (Event.found pass.events)

variable {plan : Plan} {urls : List String} {pass next : Pass}

theorem accounted_start (plan : Plan) (urls : List String) :
    Accounted plan urls { pending := urls } where
  order := rfl
  made := .refl _
  outcomes := by
    rintro e ⟨⟩
  images := rfl

theorem Accounted.fill (h : Accounted plan urls pass) (limit : Nat) :
    Accounted plan urls (fill limit pass) where
  order := by
    have hOrder := h.order
    simp only [Pass.fill, List.filterMap_append, Ready.filterMap_fresh?_map, List.append_assoc,
      List.take_append_drop]
    exact hOrder
  made := by
    simp only [Pass.fill, List.filterMap_append, Ready.filterMap_due?_map, List.append_nil]
    exact h.made
  outcomes := h.outcomes
  images := h.images

theorem Accounted.wait (h : Accounted plan urls pass) {url : String} {rest : List Ready}
    (hReady : pass.ready = .fresh url :: rest) (moment : Nat) :
    Accounted plan urls
      { pass with
        ready := rest
        waiting := enqueue ⟨url, moment⟩ pass.waiting
        events := pass.events ++ [.started url] } := by
  have hOrder := h.order
  have hMade := h.made
  rw [hReady] at hOrder hMade
  have hFound : Event.found (pass.events ++ [.started url]) = Event.found pass.events := by
    rw [Event.found_append]
    exact List.append_nil _
  refine ⟨?_, ?_, ?_, ?_⟩
  · rw [Event.calls_append, List.append_assoc]
    exact hOrder
  · rw [hFound, Event.calls_append, ← List.append_assoc]
    -- The queue keeps its own order, so the new call is only somewhere among those that wait.
    calc
      List.Perm _ ((Event.found pass.events).map Prod.fst ++ rest.filterMap Ready.due? ++
            url :: pass.waiting.map Waiting.url) :=
        ((perm_enqueue _ _).map Waiting.url).append_left _
      List.Perm _ (url :: ((Event.found pass.events).map Prod.fst ++
            rest.filterMap Ready.due? ++ pass.waiting.map Waiting.url)) :=
        List.perm_middle
      List.Perm _ (url :: Event.calls pass.events) := by
        rw [List.append_assoc]
        exact hMade.cons url
      List.Perm _ (Event.calls pass.events ++ [url]) :=
        (List.perm_append_singleton _ _).symm
  · rw [hFound]
    exact h.outcomes
  · rw [hFound]
    exact h.images

theorem Accounted.resolve (h : Accounted plan urls pass) {call : Ready} {rest : List Ready}
    {image : ImageData} (hReady : pass.ready = call :: rest)
    (hOutcome : (plan.ending call.url).outcome = .ok image) :
    Accounted plan urls
      { pass with
        ready := rest
        images := pass.images.insert call.url image
        events := pass.events ++ call.opening ++ [.resolved call.url image] } := by
  have hOrder := h.order
  have hMade := h.made
  rw [hReady] at hOrder hMade
  have hCalls : Event.calls (pass.events ++ call.opening ++ [.resolved call.url image]) =
      Event.calls pass.events ++ call.fresh?.toList := by
    rw [Event.calls_append, Event.calls_append, Event.calls_opening]
    exact List.append_nil _
  have hFound : Event.found (pass.events ++ call.opening ++ [.resolved call.url image]) =
      Event.found pass.events ++ [(call.url, image)] :=
    Event.found_resolve pass.events call image
  refine ⟨?_, ?_, ?_, ?_⟩
  · rw [hCalls]
    cases call with
    | fresh url =>
      rw [List.append_assoc]
      exact hOrder
    | due url =>
      rw [Ready.fresh?, Option.toList_none, List.append_nil]
      exact hOrder
  · rw [hCalls, hFound, List.map_append, List.append_assoc]
    cases call with
    | fresh url =>
      calc
        List.Perm _ (url :: ((Event.found pass.events).map Prod.fst ++
              (rest.filterMap Ready.due? ++ pass.waiting.map Waiting.url))) :=
          List.perm_middle
        List.Perm _ (url :: Event.calls pass.events) := hMade.cons url
        List.Perm _ (Event.calls pass.events ++ [url]) :=
          (List.perm_append_singleton _ _).symm
    | due url =>
      rw [Ready.fresh?, Option.toList_none, List.append_nil]
      exact hMade
  · rw [hFound]
    intro e he
    rcases List.mem_append.mp he with he | he
    · exact h.outcomes e he
    · obtain rfl := List.mem_singleton.mp he
      exact hOutcome
  · rw [hFound, Keyed.ofList_append_singleton, ← h.images]

theorem Accounted.moves (h : Accounted plan urls pass) (hMoves : Moves plan pass (.running next)) :
    Accounted plan urls next := by
  cases hMoves with
  | wait hReady hAfter => exact h.wait hReady _
  | resolve hReady hEnds hOutcome => exact h.resolve hReady hOutcome
  | tick hReady hWaiting =>
    refine ⟨?_, ?_, h.outcomes, h.images⟩
    · rw [fresh_wake]
      exact h.order
    · rw [due_wake]
      exact h.made

/-- Nothing is ready or waits only if no address waits for room. -/
theorem pending_fill_eq_nil {limit : Nat} (hLimit : 0 < limit)
    (hReady : (fill limit pass).ready = []) (hWaiting : (fill limit pass).waiting = []) :
    (fill limit pass).pending = [] := by
  have hIdle : pass.ready = [] ∧ (pass.pending.take (limit - pass.inFlight)).map Ready.fresh = [] :=
    List.append_eq_nil_iff.mp hReady
  have hNone : pass.waiting = [] := hWaiting
  have hRoom : limit - pass.inFlight = limit := by
    simp [inFlight, hIdle.1, hNone]
  have hTake := hIdle.2
  rw [hRoom, List.map_eq_nil_iff, List.take_eq_nil_iff] at hTake
  rcases hTake with hZero | hNil
  · omega
  · simp [fill, hNil]

end Pass

/-- What the outcomes of some addresses come to. -/
inductive Settles (outcome : String → Except Error ImageData) (urls : List String) :
    Except Error ImageTable → Prop
  | found {entries : List (String × ImageData)} (hKeys : (entries.map Prod.fst).Perm urls)
      (hOutcomes : ∀ e ∈ entries, outcome e.1 = .ok e.2) :
      Settles outcome urls (.ok (Keyed.ofList entries))
  | failed {url e} (hUrl : url ∈ urls) (hOutcome : outcome url = .error e) :
      Settles outcome urls (.error e)

namespace Pass

variable {plan : Plan} {urls : List String} {pass : Pass} {report : Report}

theorem Accounted.settles (h : Accounted plan urls (Pass.fill plan.limit pass)) (hLimit : 0 < plan.limit)
    (hMoves : Moves plan (Pass.fill plan.limit pass) (.ended report)) :
    Settles (fun url => (plan.ending url).outcome) urls report.result := by
  have hOrder := h.order
  have hMade := h.made
  cases hMoves with
  | @fail call rest e hReady hEnds hOutcome =>
    refine .failed ?_ hOutcome
    rw [hReady] at hOrder hMade
    cases call with
    | fresh url =>
      rw [← hOrder]
      exact List.mem_append_right _ (List.mem_append_left _ List.mem_cons_self)
    | due url =>
      have hCall : url ∈ Event.calls (Pass.fill plan.limit pass).events :=
        hMade.subset (List.mem_append_right _ (List.mem_append_left _ List.mem_cons_self))
      rw [← hOrder]
      exact List.mem_append_left _ hCall
  | complete hReady hWaiting =>
    -- Nothing is in flight, so all calls have ended; that all addresses were called needs the limit.
    rw [hReady, hWaiting, List.filterMap_nil, List.map_nil, List.append_nil, List.append_nil] at hMade
    rw [hReady, pending_fill_eq_nil hLimit hReady hWaiting, List.filterMap_nil, List.append_nil,
      List.append_nil] at hOrder
    rw [hOrder] at hMade
    rw [h.images]
    exact .found hMade h.outcomes

theorem settles_run (plan : Plan) (hLimit : 0 < plan.limit) (urls : List String) :
    Settles (fun url => (plan.ending url).outcome) urls (run plan { pending := urls }).result := by
  refine run_induct (I := Accounted plan urls)
    (R := fun report => Settles (fun url => (plan.ending url).outcome) urls report.result)
    (fun pass next h hNext => ?_) (fun pass report h hReport => ?_) _ (accounted_start plan urls)
  · have hMoves := moves_step plan pass
    rw [hNext] at hMoves
    exact (h.fill plan.limit).moves hMoves
  · have hMoves := moves_step plan pass
    rw [hReport] at hMoves
    exact (h.fill plan.limit).settles hLimit hMoves

end Pass

theorem limitOf_pos (concurrency : Option Nat) (addresses : Nat) :
    0 < limitOf concurrency addresses :=
  Nat.lt_of_lt_of_le Nat.one_pos (Nat.le_max_left _ _)

theorem result_resolveAll (resolver : Resolver) (concurrency : Option Nat) (secs : Nat)
    (urls : List String) :
    (resolveAll resolver concurrency secs urls).result =
      (Pass.run ⟨resolver, limitOf concurrency urls.length, secs⟩ { pending := urls }).result := by
  rw [resolveAll]
  split
  · rename_i images hResult
    exact hResult.symm
  · rename_i e hResult
    exact hResult.symm

theorem settles_resolveAll (resolver : Resolver) (concurrency : Option Nat) (secs : Nat)
    (urls : List String) :
    Settles (resolver.outcome secs) urls (resolveAll resolver concurrency secs urls).result := by
  rw [result_resolveAll]
  have h := Pass.settles_run ⟨resolver, limitOf concurrency urls.length, secs⟩
    (limitOf_pos concurrency urls.length) urls
  simpa only [outcome_ending] using h

theorem settles_resolveImages (resolver : Resolver) (concurrency : Option Nat) (secs : Nat)
    (nodes : List Node) :
    Settles (resolver.outcome secs) (Node.imageUrls nodes).eraseDups
      (resolveImages (some resolver) concurrency secs nodes).result := by
  rw [resolveImages]
  split
  · rename_i hUrls
    have hKeys : (([] : List (String × ImageData)).map Prod.fst).Perm [] := .refl _
    rw [hUrls]
    exact .found hKeys fun e he => absurd he List.not_mem_nil
  · rename_i url rest hUrls
    rw [hUrls]
    exact settles_resolveAll resolver concurrency secs _

theorem nodup_eraseDups (urls : List String) : urls.eraseDups.Nodup := by
  cases urls with
  | nil => exact .nil
  | cons url rest =>
    rw [List.eraseDups_cons, List.nodup_cons]
    refine ⟨fun hMem => ?_, nodup_eraseDups (rest.filter fun other => !other == url)⟩
    rw [List.mem_eraseDups, List.mem_filter] at hMem
    simp at hMem
termination_by urls.length
decreasing_by exact Nat.lt_succ_of_le (List.length_filter_le _ _)

namespace Settles

variable {outcome : String → Except Error ImageData} {urls : List String}

theorem exists_ok_iff {result : Except Error ImageTable} (h : Settles outcome urls result) :
    (∃ images, result = .ok images) ↔ ∀ url ∈ urls, ∃ image, outcome url = .ok image := by
  cases h with
  | @found entries hKeys hOutcomes =>
    refine ⟨fun _ url hUrl => ?_, fun _ => ⟨_, rfl⟩⟩
    obtain ⟨e, he, rfl⟩ := List.mem_map.mp (hKeys.mem_iff.mpr hUrl)
    exact ⟨e.2, hOutcomes e he⟩
  | @failed url e hUrl hOutcome =>
    constructor
    · rintro ⟨images, ⟨⟩⟩
    · intro hAll
      obtain ⟨image, hImage⟩ := hAll url hUrl
      rw [hOutcome] at hImage
      cases hImage

theorem find?_eq_some_iff {images : ImageTable} (h : Settles outcome urls (.ok images))
    (hUrls : urls.Nodup) {url : String} {image : ImageData} :
    images.find? url = some image ↔ url ∈ urls ∧ outcome url = .ok image := by
  cases h with
  | @found entries hKeys hOutcomes =>
    have hNodup : (entries.map Prod.fst).Nodup := hKeys.nodup_iff.mpr hUrls
    rw [Keyed.find?_ofList hNodup, Keyed.lookup_eq_some_iff_mem hNodup, ← hKeys.mem_iff]
    constructor
    · exact fun hMem => ⟨List.mem_map.mpr ⟨_, hMem, rfl⟩, hOutcomes _ hMem⟩
    · rintro ⟨hUrl, hOutcome⟩
      obtain ⟨⟨_, found⟩, hMem, rfl⟩ := List.mem_map.mp hUrl
      have hFound : outcome _ = .ok found := hOutcomes _ hMem
      rw [hOutcome] at hFound
      obtain rfl : image = found := Except.ok.inj hFound
      exact hMem

end Settles

/-! ## The table of all outcomes -/

/-- The images among the outcomes of some addresses. -/
def Resolver.table (resolver : Resolver) (secs : Nat) (urls : List String) : ImageTable :=
  .ofList (urls.filterMap fun url => (resolver.outcome secs url).toOption.map (url, ·))

theorem find?_table (resolver : Resolver) (secs : Nat) (urls : List String) (url : String) :
    (resolver.table secs urls).find? url =
      if url ∈ urls then (resolver.outcome secs url).toOption else none := by
  induction urls with
  | nil => rfl
  | cons first rest ih =>
    rw [Resolver.table] at ih ⊢
    cases hOutcome : (resolver.outcome secs first).toOption with
    | none =>
      rw [List.filterMap_cons_none (by rw [hOutcome]; rfl), ih]
      by_cases hUrl : url = first
      · rw [hUrl, hOutcome]
        split <;> simp
      · simp [hUrl]
    | some image =>
      rw [List.filterMap_cons_some (by rw [hOutcome]; rfl), Keyed.ofList_eq_insertAll,
        Keyed.insertAll_cons, Keyed.find?_insertAll, ih, Keyed.find?_insert, Keyed.find?_empty]
      by_cases hUrl : url = first
      · rw [hUrl, hOutcome]
        split <;> simp
      · simp [hUrl]

theorem find?_table_eq_some_iff {resolver : Resolver} {secs : Nat} {urls : List String}
    {url : String} {image : ImageData} :
    (resolver.table secs urls).find? url = some image ↔
      url ∈ urls ∧ resolver.outcome secs url = .ok image := by
  rw [find?_table]
  split
  · rename_i hUrl
    cases resolver.outcome secs url <;> simp [hUrl, Except.toOption]
  · rename_i hUrl
    simp [hUrl]

end Manuscript.Resolution
