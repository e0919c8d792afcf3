import Manuscript.Proofs.Resolution.Reached

/-!
# One call at a time

With room for one call, a resolution is the loop over its addresses: a call starts when the one before
it has ended, has all the time allowed from then on, and the first failure ends the loop.
-/

namespace Manuscript.Resolution

/-- What is told when a call ends. -/
def Event.ending (url : String) : Except Error ImageData → Event
  | .ok image => .resolved url image
  | .error e => .failed url e

namespace Resolver

variable (resolver : Resolver) (secs : Nat)

/-- The loop over some addresses, with the images found before. -/
def inTurn (images : ImageTable) : List String → Report
  | [] => ⟨[], .ok images⟩
  | url :: rest =>
    match resolver.outcome secs url with
    | .ok image =>
      let later := inTurn (images.insert url image) rest
      ⟨.started url :: .resolved url image :: later.events, later.result⟩
    | .error e => ⟨[.started url, .failed url e], .error e⟩

/-- What is told about some calls, each from its start to its end. -/
def told (urls : List String) : List Event :=
  urls.flatMap fun url => [.started url, Event.ending url (resolver.outcome secs url)]

/-- Whether all calls for some addresses give images. -/
def Answers (urls : List String) : Prop :=
  ∀ url ∈ urls, ∃ image, resolver.outcome secs url = .ok image

/-- How long it takes to call for some addresses one after the other. -/
def duration : List String → Nat
  | [] => 0
  | url :: rest => ((resolver.reply url).ending url secs).after + duration rest

/-- The images for some addresses, put to others. -/
def putAll (images : ImageTable) (urls : List String) : ImageTable :=
  images.insertAll (urls.filterMap fun url => (resolver.outcome secs url).toOption.map (url, ·))

variable {resolver secs}

theorem answers_cons {url : String} {rest : List String} :
    resolver.Answers secs (url :: rest) ↔
      (∃ image, resolver.outcome secs url = .ok image) ∧ resolver.Answers secs rest :=
  List.forall_mem_cons

theorem inTurn_cons_ok (images : ImageTable) {url : String} {image : ImageData}
    (h : resolver.outcome secs url = .ok image) (rest : List String) :
    resolver.inTurn secs images (url :: rest) =
      ⟨[.started url, .resolved url image] ++
          (resolver.inTurn secs (images.insert url image) rest).events,
        (resolver.inTurn secs (images.insert url image) rest).result⟩ := by
  rw [inTurn, h]
  rfl

theorem inTurn_cons_error (images : ImageTable) {url : String} {e : Error}
    (h : resolver.outcome secs url = .error e) (rest : List String) :
    resolver.inTurn secs images (url :: rest) = ⟨[.started url, .failed url e], .error e⟩ := by
  rw [inTurn, h]

theorem told_cons_ok {url : String} {image : ImageData}
    (h : resolver.outcome secs url = .ok image) (rest : List String) :
    resolver.told secs (url :: rest) =
      [.started url, .resolved url image] ++ resolver.told secs rest := by
  rw [told, List.flatMap_cons, h]
  rfl

theorem putAll_cons_ok (images : ImageTable) {url : String} {image : ImageData}
    (h : resolver.outcome secs url = .ok image) (rest : List String) :
    resolver.putAll secs images (url :: rest) =
      resolver.putAll secs (images.insert url image) rest := by
  rw [putAll, List.filterMap_cons_some (by rw [h]; rfl), Keyed.insertAll_cons]
  rfl

theorem calls_told (urls : List String) : Event.calls (resolver.told secs urls) = urls := by
  induction urls with
  | nil => rfl
  | cons url rest ih =>
    rw [told, List.flatMap_cons, Event.calls_append]
    rw [told] at ih
    rw [ih]
    cases resolver.outcome secs url <;> rfl

/-- The loop goes past addresses with images to those behind them. -/
theorem inTurn_append {before : List String} (h : resolver.Answers secs before)
    (images : ImageTable) (after : List String) :
    resolver.inTurn secs images (before ++ after) =
      ⟨resolver.told secs before ++
          (resolver.inTurn secs (resolver.putAll secs images before) after).events,
        (resolver.inTurn secs (resolver.putAll secs images before) after).result⟩ := by
  induction before generalizing images with
  | nil => rfl
  | cons url rest ih =>
    obtain ⟨⟨image, hImage⟩, hRest⟩ := answers_cons.mp h
    rw [List.cons_append, inTurn_cons_ok images hImage, ih hRest, told_cons_ok hImage,
      putAll_cons_ok images hImage, List.append_assoc]

/-- The loop tells of each call from its start to its end before it makes the next one. -/
theorem events_inTurn (images : ImageTable) (urls : List String) :
    (resolver.inTurn secs images urls).events =
      resolver.told secs (Event.calls (resolver.inTurn secs images urls).events) := by
  induction urls generalizing images with
  | nil => rfl
  | cons url rest ih =>
    cases hOutcome : resolver.outcome secs url with
    | error e =>
      rw [inTurn_cons_error images hOutcome]
      change _ = resolver.told secs [url]
      rw [told, List.flatMap_singleton, hOutcome]
      rfl
    | ok image =>
      rw [inTurn_cons_ok images hOutcome, Event.calls_append]
      change _ = resolver.told secs (url :: Event.calls _)
      rw [told_cons_ok hOutcome, ← ih]

end Resolver

/-! ## Runs -/

namespace Pass

theorem step_of_waiting {plan : Plan} {pass : Pass} {call : Waiting} (hLimit : plan.limit = 1)
    (hReady : pass.ready = []) (hWaiting : pass.waiting = [call]) :
    step plan pass =
      .running { pass with ready := [.due call.url], waiting := [], clock := call.moment } := by
  have hFull : fill plan.limit pass = pass := by
    apply fill_of_full
    rw [hLimit, inFlight, hReady, hWaiting]
    exact Nat.le_refl 1
  rw [step, hFull, advance, hReady, hWaiting]
  simp [wake, hReady, hWaiting]

/-- A single call runs from its start to its end, and time moves on by what it takes. -/
theorem reaches_finish (resolver : Resolver) (secs : Nat) (url : String) (rest : List String)
    (clock : Nat) (images : ImageTable) (events : List Event) :
    let plan : Plan := ⟨resolver, 1, secs⟩
    Reaches plan { pending := url :: rest, clock := clock, images := images, events := events }
      (finish plan url
        { pending := rest
          clock := clock + (plan.ending url).after
          images := images
          events := events ++ [.started url] }) := by
  intro plan
  have hFirst :
      Reaches plan { pending := url :: rest, clock := clock, images := images, events := events }
        (start plan url { pending := rest, clock := clock, images := images, events := events }) :=
    .step .here
  rw [start] at hFirst
  split at hFirst
  · rename_i hAfter
    rw [hAfter]
    exact hFirst
  · -- The call waits, time moves on to its end, and it ends. No other call gets in between.
    have hDue := hFirst.step
    rw [step_of_waiting rfl rfl rfl] at hDue
    exact hDue.step

variable {resolver : Resolver} {secs : Nat}

/-- The resolution comes by every state of the loop: its calls so far have ended with images, no call
is in flight, and time has moved on by what they took. -/
theorem reaches_between {before : List String} (h : resolver.Answers secs before)
    (after : List String) (clock : Nat) (images : ImageTable) (events : List Event) :
    Reaches ⟨resolver, 1, secs⟩
      { pending := before ++ after, clock := clock, images := images, events := events }
      (.running
        { pending := after
          clock := clock + resolver.duration secs before
          images := resolver.putAll secs images before
          events := events ++ resolver.told secs before }) := by
  induction before generalizing clock images events with
  | nil =>
    rw [Resolver.told, List.flatMap_nil, List.append_nil]
    exact .here
  | cons url rest ih =>
    obtain ⟨⟨image, hImage⟩, hRest⟩ := Resolver.answers_cons.mp h
    have hFirst := reaches_finish resolver secs url (rest ++ after) clock images events
    simp only [finish, outcome_ending, hImage] at hFirst
    have hLater := hFirst.trans (ih hRest _ _ _)
    rw [Resolver.told_cons_ok hImage, Resolver.putAll_cons_ok images hImage, Resolver.duration,
      ← Nat.add_assoc]
    simp only [List.append_assoc, List.cons_append, List.nil_append] at hLater ⊢
    exact hLater

theorem run_eq_inTurn (urls : List String) (clock : Nat) (images : ImageTable)
    (events : List Event) :
    run ⟨resolver, 1, secs⟩
        { pending := urls, clock := clock, images := images, events := events } =
      ⟨events ++ (resolver.inTurn secs images urls).events,
        (resolver.inTurn secs images urls).result⟩ := by
  induction urls generalizing clock images events with
  | nil =>
    rw [← report_step, Resolver.inTurn, List.append_nil]
    rfl
  | cons url rest ih =>
    rw [← (reaches_finish resolver secs url rest clock images events).report_eq, finish,
      outcome_ending]
    cases hOutcome : resolver.outcome secs url with
    | error e =>
      rw [Resolver.inTurn_cons_error images hOutcome]
      exact congrArg (Report.mk · _) (List.append_assoc _ _ _)
    | ok image =>
      rw [Resolver.inTurn_cons_ok images hOutcome]
      refine (ih _ _ _).trans ?_
      rw [List.append_assoc, List.append_assoc]
      rfl

end Pass

/-- With room for one call, resolving the images of a tree is the loop over their different addresses:
what is told and what comes of it. The loop tells of each call from its start to its end before it
makes the next one, and all calls have the whole time allowed, however late they start. So all
addresses are called if all have an image, which gives the whole table, and else those up to the first
one without an image, which gives its error. -/
theorem resolving_in_turn_is_loop (resolver : Resolver) (secs : Nat) {nodes : List Node}
    (h : Node.imageUrls nodes ≠ []) :
    let addresses := (Node.imageUrls nodes).eraseDups
    let plan : Plan := ⟨resolver, 1, secs⟩
    let loop := resolver.inTurn secs .empty addresses
    let report := resolveImages (some resolver) (some 1) secs nodes
    report.events = .began addresses.length ::
        (loop.events ++ Event.closing addresses.length loop.result) ∧
      report.result = loop.result ∧
      loop.events = resolver.told secs (Event.calls report.events) ∧
      (resolver.Answers secs addresses →
        Event.calls report.events = addresses ∧
          report.result = .ok (resolver.table secs addresses)) ∧
      (∀ before url after e, addresses = before ++ url :: after → resolver.Answers secs before →
        resolver.outcome secs url = .error e →
          Event.calls report.events = before ++ [url] ∧ report.result = .error e) ∧
      ∀ before after, addresses = before ++ after → resolver.Answers secs before →
        Reaches plan { pending := addresses }
          (.running
            { pending := after
              clock := resolver.duration secs before
              images := resolver.table secs before
              events := resolver.told secs before }) := by
  intro addresses plan loop report
  have hReport : report = resolveAll resolver (some 1) secs addresses :=
    resolveImages_eq_resolveAll resolver (some 1) secs h
  have hRun : Pass.run plan { pending := addresses } = loop := Pass.run_eq_inTurn addresses 0 .empty []
  have hResult : report.result = loop.result := by
    rw [hReport, result_resolveAll, ← hRun]
    rfl
  have hCalls : Event.calls report.events = Event.calls loop.events := by
    rw [hReport, calls_resolveAll, ← hRun]
    rfl
  refine ⟨?_, hResult, ?_, ?_, ?_, ?_⟩
  · rw [hReport, events_resolveAll, ← hRun]
    rfl
  · rw [hCalls]
    exact Resolver.events_inTurn .empty addresses
  · intro hAnswers
    have hLoop := Resolver.inTurn_append hAnswers .empty []
    rw [List.append_nil] at hLoop
    rw [hCalls, hResult, show loop = _ from hLoop]
    exact ⟨(congrArg Event.calls (List.append_nil _)).trans (Resolver.calls_told addresses), rfl⟩
  · intro before url after e hSplit hBefore hError
    have hLoop := Resolver.inTurn_append hBefore .empty (url :: after)
    rw [← hSplit, Resolver.inTurn_cons_error _ hError] at hLoop
    rw [hCalls, hResult, show loop = _ from hLoop, Event.calls_append, Resolver.calls_told]
    exact ⟨rfl, rfl⟩
  · intro before after hSplit hBefore
    have hReaches := Pass.reaches_between hBefore after 0 .empty []
    rw [← hSplit, Nat.zero_add] at hReaches
    exact hReaches

theorem second_call_in_turn_times_out :
    let image : ImageData := ⟨[1], 2, 3⟩
    let resolver : Resolver :=
      { reply url := if url = "a" then ⟨1500, some (.ok image)⟩ else ⟨0, none⟩ }
    let nodes : List Node :=
      [.paragraph [.image "a" none none, .image "b" none none], .image "a" none none,
        .image "c" none none]
    let report := resolveImages (some resolver) (some 1) 2 nodes
    Node.imageUrls nodes ≠ [] ∧ Event.calls report.events = ["a", "b"] ∧
      report.result = .error (.imageTimeout "b" 2) ∧
        Reaches ⟨resolver, 1, 2⟩ { pending := ["a", "b", "c"] }
          (.running
            { pending := ["b", "c"]
              clock := 1500
              images := Keyed.empty.insert "a" image
              events := [.started "a", .resolved "a" image] }) := by
  intro image resolver nodes report
  have hUrls : Node.imageUrls nodes = ["a", "b", "a", "c"] := by
    simp [nodes, Node.imageUrls, Node.preorderAll, Node.preorder, Node.children, Node.imageUrl?]
  have hAddresses : (Node.imageUrls nodes).eraseDups = ["a", "b", "c"] := by
    rw [hUrls]
    decide
  have hImages : Node.imageUrls nodes ≠ [] := by
    rw [hUrls]
    exact List.cons_ne_nil _ _
  have hBefore : resolver.Answers 2 ["a"] := by
    intro url hUrl
    rw [List.mem_singleton.mp hUrl]
    exact ⟨image, rfl⟩
  obtain ⟨-, -, -, -, hFails, hReaches⟩ := resolving_in_turn_is_loop resolver 2 hImages
  obtain ⟨hCalls, hResult⟩ := hFails ["a"] "b" ["c"] _ hAddresses hBefore rfl
  have hBetween := hReaches ["a"] ["b", "c"] hAddresses hBefore
  rw [hAddresses] at hBetween
  exact ⟨hImages, hCalls, hResult, hBetween⟩

end Manuscript.Resolution
