import Manuscript.Proofs.Resolution.Outcomes

/-!
# Chronicles of a resolution

The log of a resolution is a chronicle: every address is called at most once, while less than the
limit of calls are open, and a call that is open is settled at most once, by an image or a failure.
So the log tells one of four stories about each address. Whatever state a resolution reaches, its
calls are the first of the addresses, each of them open or settled, and it goes on only as long as
no call has failed.
-/

namespace Manuscript.Resolution

namespace Event

/-- The address whose call ends here. -/
def settled? : Event → Option String
  | .resolved url _ | .failed url _ => some url
  | .began _ | .started _ | .completed _ => none

/-- The addresses whose calls have ended, in the order of their ends. -/
def settled (events : List Event) : List String :=
  events.filterMap settled?

/-- The failures so far with their addresses. -/
def failures (events : List Event) : List (String × Error) :=
  events.filterMap fun
    | .failed url e => some (url, e)
    | _ => none

def url? : Event → Option String
  | .started url | .resolved url _ | .failed url _ => some url
  | .began _ | .completed _ => none

/-- What is told about one address. -/
def about (url : String) (events : List Event) : List Event :=
  events.filter fun e => e.url? = some url

theorem settled_append (events more : List Event) :
    settled (events ++ more) = settled events ++ settled more :=
  List.filterMap_append

theorem failures_append (events more : List Event) :
    failures (events ++ more) = failures events ++ failures more :=
  List.filterMap_append

theorem about_append (url : String) (events more : List Event) :
    about url (events ++ more) = about url events ++ about url more :=
  List.filter_append ..

@[simp]
theorem failures_opening (call : Ready) : failures call.opening = [] := by
  cases call <;> rfl

@[simp]
theorem settled_opening (call : Ready) : settled call.opening = [] := by
  cases call <;> rfl

theorem mem_calls_iff {url : String} {events : List Event} :
    url ∈ calls events ↔ .started url ∈ events := by
  rw [calls, List.mem_filterMap]
  constructor
  · rintro ⟨e, hMem, hUrl⟩
    cases e with
    | started other =>
      obtain rfl := Option.some.inj hUrl
      exact hMem
    | began | resolved | failed | completed => cases hUrl
  · exact fun hMem => ⟨_, hMem, rfl⟩

theorem mem_found_iff {url : String} {image : ImageData} {events : List Event} :
    (url, image) ∈ found events ↔ .resolved url image ∈ events := by
  rw [found, List.mem_filterMap]
  constructor
  · rintro ⟨e, hMem, hUrl⟩
    cases e with
    | resolved other found =>
      obtain ⟨rfl, rfl⟩ := Prod.mk.inj (Option.some.inj hUrl)
      exact hMem
    | began | started | failed | completed => cases hUrl
  · exact fun hMem => ⟨_, hMem, rfl⟩

theorem mem_failures_iff {url : String} {error : Error} {events : List Event} :
    (url, error) ∈ failures events ↔ .failed url error ∈ events := by
  rw [failures, List.mem_filterMap]
  constructor
  · rintro ⟨e, hMem, hUrl⟩
    cases e with
    | failed other error =>
      obtain ⟨rfl, rfl⟩ := Prod.mk.inj (Option.some.inj hUrl)
      exact hMem
    | began | started | resolved | completed => cases hUrl
  · exact fun hMem => ⟨_, hMem, rfl⟩

theorem url?_of_settled? {e : Event} {url : String} (h : e.settled? = some url) :
    e.url? = some url := by
  cases e with
  | resolved | failed => exact h
  | began | started | completed => cases h

/-- The calls that have ended are those with an image and those that failed. -/
theorem found_failures_perm_settled (events : List Event) :
    ((found events).map Prod.fst ++ (failures events).map Prod.fst).Perm (settled events) := by
  induction events with
  | nil => exact .refl _
  | cons e rest ih =>
    cases e with
    | resolved url image => exact ih.cons url
    | failed url error => exact List.perm_middle.trans (ih.cons url)
    | began | started | completed => exact ih

theorem settled_of_unfailed {events : List Event} (h : failures events = []) :
    ((found events).map Prod.fst).Perm (settled events) := by
  have hPerm := found_failures_perm_settled events
  rwa [h, List.map_nil, List.append_nil] at hPerm

/-! ## Stories -/

/-- What a resolution can tell about one address. -/
inductive Story (url : String) : List Event → Prop
  | untold : Story url []
  | called : Story url [.started url]
  | resolved (image : ImageData) : Story url [.started url, .resolved url image]
  | failed (error : Error) : Story url [.started url, .failed url error]

namespace Story

variable {url : String} {events : List Event}

theorem eq_nil (h : Story url events) (hNew : .started url ∉ events) : events = [] := by
  cases h with
  | untold => rfl
  | called | resolved | failed => exact absurd List.mem_cons_self hNew

theorem eq_called (h : Story url events) (hCalled : .started url ∈ events)
    (hOpen : url ∉ settled events) : events = [.started url] := by
  cases h with
  | untold => cases hCalled
  | called => rfl
  | resolved | failed => exact absurd List.mem_cons_self hOpen

end Story

end Event

open Event (Story)

/-! ## Chronicles -/

/-- A log as it grows: what each event needs to stand behind the ones before it. -/
inductive Chronicle (limit : Nat) : List Event → Prop
  | nil : Chronicle limit []
  | call {log url} (h : Chronicle limit log) (hNew : url ∉ Event.calls log)
      (hRoom : (Event.calls log).length < (Event.settled log).length + limit) :
      Chronicle limit (log ++ [.started url])
  | settle {log e url} (h : Chronicle limit log) (hEnd : e.settled? = some url)
      (hCalled : url ∈ Event.calls log) (hOpen : url ∉ Event.settled log) :
      Chronicle limit (log ++ [e])

namespace Chronicle

variable {limit : Nat} {log : List Event}

theorem calls_settle {e : Event} {url : String} (h : e.settled? = some url) (log : List Event) :
    Event.calls (log ++ [e]) = Event.calls log := by
  rw [Event.calls_append]
  cases e with
  | resolved | failed => exact List.append_nil _
  | began | started | completed => cases h

theorem settled_settle {e : Event} {url : String} (h : e.settled? = some url) (log : List Event) :
    Event.settled (log ++ [e]) = Event.settled log ++ [url] := by
  rw [Event.settled_append, Event.settled, Event.settled, List.filterMap_cons_some h]
  rfl

theorem settled_call (url : String) (log : List Event) :
    Event.settled (log ++ [.started url]) = Event.settled log := by
  rw [Event.settled_append]
  exact List.append_nil _

theorem settled_subset (h : Chronicle limit log) : Event.settled log ⊆ Event.calls log := by
  induction h with
  | nil => exact List.Subset.refl _
  | @call log url h hNew hRoom ih =>
    rw [settled_call, Event.calls_append]
    exact List.Subset.trans ih (List.subset_append_left _ _)
  | @settle log e url h hEnd hCalled hOpen ih =>
    rw [settled_settle hEnd, calls_settle hEnd]
    exact List.append_subset.mpr ⟨ih, List.cons_subset.mpr ⟨hCalled, List.nil_subset _⟩⟩

theorem nodup_settled (h : Chronicle limit log) : (Event.settled log).Nodup := by
  induction h with
  | nil => exact .nil
  | @call log url h hNew hRoom ih => rwa [settled_call]
  | @settle log e url h hEnd hCalled hOpen ih =>
    rw [settled_settle hEnd]
    exact List.nodup_append_comm.mp (List.nodup_cons.mpr ⟨hOpen, ih⟩ : ([url] ++ _).Nodup)

theorem nodup_calls (h : Chronicle limit log) : (Event.calls log).Nodup := by
  induction h with
  | nil => exact .nil
  | @call log url h hNew hRoom ih =>
    rw [Event.calls_append]
    exact List.nodup_append_comm.mp (List.nodup_cons.mpr ⟨hNew, ih⟩ : ([url] ++ _).Nodup)
  | @settle log e url h hEnd hCalled hOpen ih => rwa [calls_settle hEnd]

/-- The calls made are those that have not ended and those that have. -/
theorem calls_perm (h : Chronicle limit log) :
    ((Event.calls log).filter (· ∉ Event.settled log) ++ Event.settled log).Perm
      (Event.calls log) := by
  have hSettled : (Event.settled log).Perm ((Event.calls log).filter (· ∈ Event.settled log)) := by
    refine (List.perm_ext_iff_of_nodup h.nodup_settled (h.nodup_calls.filter _)).mpr fun url => ?_
    rw [List.mem_filter, decide_eq_true_iff]
    exact ⟨fun hMem => ⟨h.settled_subset hMem, hMem⟩, And.right⟩
  refine (List.perm_append_comm.trans (hSettled.append_right _)).trans ?_
  have hPerm := List.filter_append_perm (· ∈ Event.settled log) (Event.calls log)
  simpa only [decide_not] using hPerm

/-- At no moment are more calls open than the limit allows. -/
theorem within_limit (h : Chronicle limit log) {moment : List Event} (hMoment : moment <+: log) :
    (Event.calls moment).length ≤ (Event.settled moment).length + limit := by
  induction h generalizing moment with
  | nil =>
    rw [List.prefix_nil.mp hMoment]
    exact Nat.zero_le _
  | @call log url h hNew hRoom ih =>
    rcases List.prefix_concat_iff.mp hMoment with rfl | hBefore
    · rw [settled_call, Event.calls_append, List.length_append]
      exact hRoom
    · exact ih hBefore
  | @settle log e url h hEnd hCalled hOpen ih =>
    rcases List.prefix_concat_iff.mp hMoment with rfl | hBefore
    · have hLog := ih (List.prefix_refl log)
      rw [settled_settle hEnd, calls_settle hEnd, List.length_append]
      omega
    · exact ih hBefore

theorem about_concat (url : String) (log : List Event) (e : Event) :
    Event.about url (log ++ [e]) =
      if e.url? = some url then Event.about url log ++ [e] else Event.about url log := by
  rw [Event.about_append, Event.about, Event.about, List.filter_singleton]
  by_cases hUrl : e.url? = some url <;> simp [hUrl]

theorem story (h : Chronicle limit log) (url : String) : Story url (Event.about url log) := by
  induction h with
  | nil => exact .untold
  | @call log other h hNew hRoom ih =>
    rw [about_concat]
    split
    · rename_i hUrl
      obtain rfl : other = url := Option.some.inj hUrl
      have hNone : Event.about other log = [] := by
        refine ih.eq_nil fun hMem => hNew ?_
        exact Event.mem_calls_iff.mpr (List.mem_of_mem_filter hMem)
      rw [hNone]
      exact .called
    · exact ih
  | @settle log e other h hEnd hCalled hOpen ih =>
    rw [about_concat, Event.url?_of_settled? hEnd]
    split
    · rename_i hUrl
      obtain rfl : other = url := Option.some.inj hUrl
      have hBefore : Event.about other log = [.started other] := by
        refine ih.eq_called (List.mem_filter.mpr ⟨Event.mem_calls_iff.mp hCalled, ?_⟩)
          fun hMem => ?_
        · exact decide_eq_true rfl
        · obtain ⟨e, hAbout, hSettled⟩ := List.mem_filterMap.mp hMem
          exact hOpen (List.mem_filterMap.mpr ⟨e, List.mem_of_mem_filter hAbout, hSettled⟩)
      rw [hBefore]
      cases e with
      | resolved url image =>
        obtain rfl := Option.some.inj hEnd
        exact .resolved image
      | failed url error =>
        obtain rfl := Option.some.inj hEnd
        exact .failed error
      | began | started | completed => cases hEnd
    · exact ih

end Chronicle

end Manuscript.Resolution
