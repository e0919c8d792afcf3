import Manuscript.Conversion.Run
import Manuscript.Proofs.Resolution.Reached

/-!
# What is told about the images of a conversion

Whoever follows the resolution of the images of a tree is told a log that shows how it went: it
begins with the number of addresses, tells one story about each address, and ends with the
completion if and only if all images are there, and with the only failure if and only if there is an
error.
-/

namespace Manuscript

open Resolution (Chronicle Event Pass Plan Report)

namespace Resolution

namespace Event

theorem Story.eq_resolved {url : String} {image : ImageData} {events : List Event}
    (h : Story url events) (hMem : .resolved url image ∈ events) :
    events = [.started url, .resolved url image] := by
  cases h with
  | untold => cases hMem
  | called => simp at hMem
  | resolved other =>
    obtain rfl : image = other := by simpa using hMem
    rfl
  | failed e => simp at hMem

/-! ## The first and the last event -/

/-- What is told about single images, between the beginning and the end. -/
def enclosed (addresses : Nat) (events : List Event) (result : Except Error ImageTable) :
    List Event :=
  .began addresses :: (events ++ closing addresses result)

variable (addresses : Nat) (events : List Event) (result : Except Error ImageTable)

theorem about_enclosed (url : String) :
    about url (enclosed addresses events result) = about url events := by
  change about url (events ++ closing addresses result) = _
  rw [about_append]
  cases result <;> exact List.append_nil _

theorem failures_enclosed : failures (enclosed addresses events result) = failures events := by
  change failures (events ++ closing addresses result) = _
  rw [failures_append]
  cases result <;> exact List.append_nil _

theorem getLast?_enclosed_ok (images : ImageTable) :
    (enclosed addresses events (.ok images)).getLast? = some (.completed addresses) := by
  rw [enclosed, closing, ← List.cons_append, List.getLast?_concat]

theorem getLast?_enclosed_error (last : Event) (e : Error) :
    (enclosed addresses (events ++ [last]) (.error e)).getLast? = some last := by
  rw [enclosed, closing, List.append_nil, ← List.cons_append, List.getLast?_concat]

end Event

theorem Chronicle.isSome_url? {limit : Nat} {log : List Event} (h : Chronicle limit log) {e : Event}
    (hMem : e ∈ log) : e.url?.isSome := by
  induction h with
  | nil => cases hMem
  | @call log url h hNew hRoom ih =>
    rcases List.mem_append.mp hMem with hMem | hMem
    · exact ih hMem
    · obtain rfl := List.mem_singleton.mp hMem
      rfl
  | @settle log last url h hEnd hCalled hOpen ih =>
    rcases List.mem_append.mp hMem with hMem | hMem
    · exact ih hMem
    · obtain rfl := List.mem_singleton.mp hMem
      rw [Event.url?_of_settled? hEnd]
      rfl

namespace Pass.Closes

variable {plan : Plan} {urls : List String} {report : Report}

theorem failures_of_ok (h : Closes plan urls report) {images : ImageTable}
    (hResult : report.result = .ok images) : Event.failures report.events = [] := by
  cases h with
  | completed hLog hUnfailed hCalls hFound => exact hUnfailed
  | aborted => cases hResult

/-- With all images there, the log tells of each address that it was called and then found. -/
theorem story_of_ok (h : Closes plan urls report) (hUrls : urls.Nodup) {images : ImageTable}
    (hResult : report.result = .ok images) {url : String} (hUrl : url ∈ urls) :
    ∃ image, images.find? url = some image ∧
      Event.about url report.events = [.started url, .resolved url image] := by
  cases h with
  | @completed events hLog hUnfailed hCalls hFound =>
    obtain rfl := Except.ok.inj hResult
    obtain ⟨⟨_, image⟩, hMem, rfl⟩ := List.mem_map.mp (hFound.mem_iff.mpr hUrl)
    have hNodup : ((Event.found events).map Prod.fst).Nodup := hFound.nodup_iff.mpr hUrls
    refine ⟨image, ?_, (hLog.story _).eq_resolved ?_⟩
    · rw [Keyed.find?_ofList hNodup, Keyed.lookup_eq_some_iff_mem hNodup]
      exact hMem
    · exact List.mem_filter.mpr ⟨Event.mem_found_iff.mp hMem, decide_eq_true rfl⟩
  | aborted => cases hResult

/-- An error is told last, and nothing else fails. -/
theorem failure_of_error (h : Closes plan urls report) {e : Error}
    (hResult : report.result = .error e) :
    ∃ before url, report.events = before ++ [.failed url e] ∧
      Event.failures report.events = [(url, e)] ∧ url ∈ urls ∧
        (plan.ending url).outcome = .error e := by
  cases h with
  | completed => cases hResult
  | @aborted before url error hLog hUnfailed hCalls hUrl hOutcome =>
    obtain rfl := Except.error.inj hResult
    refine ⟨before, url, rfl, ?_, hCalls.subset hUrl, hOutcome⟩
    rw [Event.failures_append, hUnfailed]
    rfl

end Pass.Closes

end Resolution

namespace Config

/-- The configuration for someone who follows the progress. -/
def withProgress (config : Config) : Config :=
  { config with progress := true }

/-- What is told to someone who follows the progress. -/
def log (config : Config) (tree : Tree) : List Event :=
  (config.withProgress.resolveImages tree).told config.withProgress

/-- The resolution of the images of a tree. -/
def report (config : Config) (tree : Tree) : Report :=
  Resolution.resolveImages config.resolver config.concurrency config.timeoutSecs tree.children

theorem log_eq_events (config : Config) (tree : Tree) :
    config.log tree = (config.report tree).events := rfl

theorem result_withProgress (config : Config) (tree : Tree) :
    (config.withProgress.resolveImages tree).result = (config.report tree).result := rfl

theorem calls_withProgress (config : Config) (tree : Tree) :
    (config.withProgress.resolveImages tree).calls = Event.calls (config.report tree).events := rfl

theorem report_without_images (config : Config) {tree : Tree}
    (h : Node.imageUrls tree.children = []) : config.report tree = ⟨[], .ok .empty⟩ := by
  rw [report, Resolution.resolveImages, h]

theorem report_without_resolver {config : Config} {tree : Tree}
    (hUrls : Node.imageUrls tree.children ≠ []) (hResolver : config.resolver = none) :
    config.report tree =
      ⟨[], .error (.missingImageResolver (Node.imageUrls tree.children).length)⟩ := by
  rw [report, hResolver, Resolution.resolveImages]
  split
  · rename_i hNone
    exact absurd hNone hUrls
  · rename_i url rest hSome
    rw [hSome]

theorem exists_closes_report {config : Config} {tree : Tree} {resolver : Resolution.Resolver}
    (hUrls : Node.imageUrls tree.children ≠ []) (hResolver : config.resolver = some resolver) :
    let addresses := (Node.imageUrls tree.children).eraseDups
    ∃ (limit : Nat) (pass : Report),
      Pass.Closes ⟨resolver, limit, config.timeoutSecs⟩ addresses pass ∧
        (config.report tree).events = Event.enclosed addresses.length pass.events pass.result ∧
          (config.report tree).result = pass.result := by
  intro addresses
  rw [report, hResolver, Resolution.resolveImages_eq_resolveAll _ _ _ hUrls]
  exact ⟨_, _, Pass.closes_run _ (Resolution.nodup_eraseDups _) (Resolution.limitOf_pos _ _),
    Resolution.events_resolveAll _ _ _ _, Resolution.result_resolveAll _ _ _ _⟩

/-- Without an image nothing is told, and without a resolver for images nothing but the error comes
of it. Otherwise the log begins with the number of addresses, and all that follows is about images
but for the end. It tells one story about each address: nothing, a call, or a call and its image or
failure. The images are there if and only if the completion is told last, and then every address was
called and found with the bytes that the table has for it. There is an error if and only if a failure
is told, which then is the only one, comes last, and has that error. -/
theorem log_shows_result (config : Config) (tree : Tree) :
    let urls := Node.imageUrls tree.children
    let run := config.withProgress.resolveImages tree
    let log := config.log tree
    (urls = [] → log = [] ∧ run.calls = [] ∧ run.result = .ok .empty) ∧
      (urls ≠ [] → config.resolver = none →
        log = [] ∧ run.calls = [] ∧ run.result = .error (.missingImageResolver urls.length)) ∧
      ∀ resolver, urls ≠ [] → config.resolver = some resolver →
        let total := urls.eraseDups.length
        (∃ inner, log = .began total :: (inner ++ Event.closing total run.result) ∧
            ∀ e ∈ inner, e.url?.isSome) ∧
          (∀ url, Event.Story url (Event.about url log)) ∧
          ((∃ images, run.result = .ok images) ↔ log.getLast? = some (.completed total)) ∧
          (∀ images, run.result = .ok images →
            Event.failures log = [] ∧ ∀ url ∈ urls, ∃ image, images.find? url = some image ∧
              Event.about url log = [.started url, .resolved url image]) ∧
          ((∃ e, run.result = .error e) ↔ Event.failures log ≠ []) ∧
          ∀ e, run.result = .error e →
            ∃ before url, log = before ++ [.failed url e] ∧ Event.failures log = [(url, e)] ∧
              url ∈ urls ∧ resolver.outcome config.timeoutSecs url = .error e := by
  intro urls run log
  have hRunCalls : run.calls = Event.calls (config.report tree).events :=
    calls_withProgress config tree
  have hRunResult : run.result = (config.report tree).result := result_withProgress config tree
  have hReported : log = (config.report tree).events := log_eq_events config tree
  refine ⟨fun hNone => ?_, fun hUrls hResolver => ?_, fun resolver hUrls hResolver => ?_⟩
  · rw [hReported, hRunCalls, hRunResult, report_without_images config hNone]
    exact ⟨rfl, rfl, rfl⟩
  · rw [hReported, hRunCalls, hRunResult, report_without_resolver hUrls hResolver]
    exact ⟨rfl, rfl, rfl⟩
  · intro total
    obtain ⟨limit, pass, hCloses, hEvents, hPass⟩ := exists_closes_report hUrls hResolver
    have hLog : log = Event.enclosed total pass.events pass.result := hReported.trans hEvents
    have hResult : run.result = pass.result := hRunResult.trans hPass
    have hFailures : Event.failures log = Event.failures pass.events :=
      hLog ▸ Event.failures_enclosed _ _ _
    have hAbout : ∀ url, Event.about url log = Event.about url pass.events :=
      fun url => hLog ▸ Event.about_enclosed _ _ _ url
    rw [hResult, hFailures]
    simp only [hAbout]
    refine ⟨⟨pass.events, hLog, fun e => hCloses.chronicle.isSome_url?⟩, hCloses.chronicle.story,
      ?_, fun images hOk => ⟨hCloses.failures_of_ok hOk, fun url hUrl => ?_⟩, ?_,
      fun e hError => ?_⟩
    · rw [hLog]
      cases hOutcome : pass.result with
      | ok images => exact ⟨fun _ => Event.getLast?_enclosed_ok .., fun _ => ⟨images, rfl⟩⟩
      | error e =>
        obtain ⟨before, url, hLast, _⟩ := hCloses.failure_of_error hOutcome
        rw [hLast, Event.getLast?_enclosed_error]
        exact ⟨nofun, nofun⟩
    · exact hCloses.story_of_ok (Resolution.nodup_eraseDups urls) hOk (List.mem_eraseDups.mpr hUrl)
    · cases hOutcome : pass.result with
      | ok images =>
        rw [hCloses.failures_of_ok hOutcome]
        exact ⟨nofun, fun hSome => absurd rfl hSome⟩
      | error e =>
        obtain ⟨before, url, hLast, hOnly, _⟩ := hCloses.failure_of_error hOutcome
        rw [hOnly]
        exact ⟨nofun, fun _ => ⟨e, rfl⟩⟩
    · obtain ⟨before, url, hLast, hOnly, hUrl, hOutcome⟩ := hCloses.failure_of_error hError
      refine ⟨.began total :: before, url, ?_, hOnly, List.mem_eraseDups.mp hUrl, ?_⟩
      · rw [hLog, Event.enclosed, hError, hLast, Event.closing, List.append_nil, List.cons_append]
      · rw [← hOutcome, Resolution.outcome_ending]

end Config

end Manuscript
