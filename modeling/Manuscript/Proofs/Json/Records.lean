import Manuscript.Json.Tagged
import Manuscript.Proofs.Json.Values
import Manuscript.Proofs.Keyed

/-!
# Records from their members

A record does not depend on the order in which an object names its members. Fields are read one by
one: each finds its own member and skips the others, and two groups of fields with different names do
not disturb each other. A tagged record is the same once its tag is taken out, wherever it stood.
-/

namespace Manuscript.Json

variable {ν σ τ α β : Type}

/-- Members whose keys are texts. -/
def given (ms : List (String × Offer ν)) : List (Key × Offer ν) :=
  ms.map fun m => (.ok m.1, m.2)

namespace Fields

theorem visit_own {f : Fields ν σ α} {origin : Origin} {found : σ} {m : String × Offer ν}
    {rest : List (String × Offer ν)} (h : m.1 ∈ f.names) :
    f.visit origin found (given (m :: rest)) =
      if f.has found m.1 then .error (.repeatedMember m.1)
      else f.put origin found m.1 m.2 >>= fun after => f.visit origin after (given rest) := by
  have hContains : f.names.contains m.1 = true := List.contains_iff_mem.mpr h
  rw [given, List.map_cons, visit]
  change (if f.names.contains m.1 then _ else _) = _
  rw [if_pos hContains]
  rfl

theorem visit_other {f : Fields ν σ α} {origin : Origin} {found : σ} {m : String × Offer ν}
    {rest : List (String × Offer ν)} (h : m.1 ∉ f.names) (hSkip : m.2.outline.skip = .ok ()) :
    f.visit origin found (given (m :: rest)) = f.visit origin found (given rest) := by
  rw [given, List.map_cons, visit]
  change (if f.names.contains m.1 then _ else wellFormed m.2.outline.skip >>= _) = _
  rw [if_neg fun hContains => h (List.contains_iff_mem.mp hContains), hSkip]
  rfl

/-- The fields come to a value on some members, and have found nothing but members of theirs. -/
structure Reads (f : Fields ν σ α) (origin : Origin) (ms : List (String × Offer ν)) (x : α) :
    Prop where
  names : ∀ found key, f.has found key = true → key ∈ f.names
  skips : ∀ m ∈ ms, m.2.outline.skip = .ok ()
  visits : ∃ found, f.visit origin f.start (given ms) = .ok found ∧ f.finish found = .ok x

theorem visit_others {f : Fields ν σ α} {ms : List (String × Offer ν)}
    (hNames : ∀ m ∈ ms, m.1 ∉ f.names) (hSkips : ∀ m ∈ ms, m.2.outline.skip = .ok ())
    (origin : Origin) (found : σ) : f.visit origin found (given ms) = .ok found := by
  induction ms with
  | nil => rfl
  | cons m rest ih =>
    rw [visit_other (hNames m List.mem_cons_self) (hSkips m List.mem_cons_self)]
    exact ih (fun m hm => hNames m (List.mem_cons_of_mem _ hm))
      fun m hm => hSkips m (List.mem_cons_of_mem _ hm)

theorem names_one {name : String} {absence : Absence α}
    {read : Origin → Offer ν → Except Fault α} (found : Option α) (key : String)
    (h : (one name absence read).has found key = true) : key ∈ (one name absence read).names :=
  List.mem_singleton.mpr (beq_iff_eq.mp (Bool.and_eq_true_iff.mp h).1)

theorem reads_empty {ms : List (String × Offer ν)} (hSkips : ∀ m ∈ ms, m.2.outline.skip = .ok ())
    (origin : Origin) : Reads empty origin ms () where
  names _ _ h := by cases h
  skips := hSkips
  visits := ⟨(), visit_others (fun _ _ => List.not_mem_nil) hSkips origin (), rfl⟩

/-- A field finds its member wherever it stands. -/
theorem visit_one {name : String} (absence : Absence α) (read : Origin → Offer ν → Except Fault α)
    (origin : Origin) {ms : List (String × Offer ν)} {offer : Offer ν}
    (hKeys : (ms.map Prod.fst).Nodup) (hSkips : ∀ m ∈ ms, m.2.outline.skip = .ok ())
    (hMem : (name, offer) ∈ ms) :
    (one name absence read).visit origin none (given ms) = (read origin offer).map some := by
  have hName : ∀ key, key ∈ (one name absence read).names ↔ key = name :=
    fun key => List.mem_singleton
  induction ms with
  | nil => cases hMem
  | cons m rest ih =>
    rw [List.map_cons, List.nodup_cons] at hKeys
    have hRest : ∀ m ∈ rest, m.2.outline.skip = .ok () :=
      fun m hm => hSkips m (List.mem_cons_of_mem _ hm)
    rcases List.mem_cons.mp hMem with rfl | hMem
    · have hOthers : ∀ m ∈ rest, m.1 ∉ (one name absence read).names := by
        intro m hm hOwn
        exact hKeys.1 (List.mem_map.mpr ⟨m, hm, (hName m.1).mp hOwn⟩)
      rw [visit_own ((hName name).mpr rfl)]
      change (if (name == name && false) then _ else (read origin offer).map some >>= _) = _
      rw [Bool.and_false]
      cases read origin offer with
      | error e => rfl
      | ok x => exact visit_others hOthers hRest origin (some x)
    · have hOther : m.1 ∉ (one name absence read).names := by
        intro hOwn
        exact hKeys.1 (List.mem_map.mpr ⟨_, hMem, ((hName m.1).mp hOwn).symm⟩)
      rw [visit_other hOther (hSkips m List.mem_cons_self)]
      exact ih hKeys.2 hRest hMem

theorem reads_one_iff {name : String} {absence : Absence α}
    {read : Origin → Offer ν → Except Fault α} {origin : Origin} {ms : List (String × Offer ν)}
    {offer : Offer ν} {x : α} (hKeys : (ms.map Prod.fst).Nodup)
    (hSkips : ∀ m ∈ ms, m.2.outline.skip = .ok ()) (hMem : (name, offer) ∈ ms) :
    Reads (one name absence read) origin ms x ↔ read origin offer = .ok x := by
  have hVisit := visit_one absence read origin hKeys hSkips hMem
  constructor
  · intro h
    obtain ⟨found, hFound, hFinish⟩ := h.visits
    obtain ⟨y, hRead, rfl⟩ := map_eq_ok_iff.mp (hVisit.symm.trans hFound)
    obtain rfl := Except.ok.inj hFinish
    exact hRead
  · intro hRead
    exact ⟨names_one, hSkips, some x, hVisit.trans (congrArg _ hRead), rfl⟩

theorem reads_one {name : String} {absence : Absence α} {read : Origin → Offer ν → Except Fault α}
    {origin : Origin} {ms : List (String × Offer ν)} {offer : Offer ν} {x : α}
    (hKeys : (ms.map Prod.fst).Nodup) (hSkips : ∀ m ∈ ms, m.2.outline.skip = .ok ())
    (hMem : (name, offer) ∈ ms) (hRead : read origin offer = .ok x) :
    Reads (one name absence read) origin ms x :=
  (reads_one_iff hKeys hSkips hMem).mpr hRead

theorem reads_absent_iff {name : String} {absence : Absence α}
    {read : Origin → Offer ν → Except Fault α} {origin : Origin} {ms : List (String × Offer ν)}
    {x : α} (hSkips : ∀ m ∈ ms, m.2.outline.skip = .ok ()) (hAbsent : ∀ m ∈ ms, m.1 ≠ name) :
    Reads (one name absence read) origin ms x ↔ absence.inObject? = some x := by
  have hVisit : (one name absence read).visit origin none (given ms) = .ok none :=
    visit_others (fun m hm hOwn => hAbsent m hm (List.mem_singleton.mp hOwn)) hSkips origin none
  have hFinish : (one name absence read).finish none = .ok x ↔ absence.inObject? = some x := by
    rw [one]
    dsimp only
    cases absence.inObject? with
    | none => simp
    | some y => simp
  rw [← hFinish]
  constructor
  · intro h
    obtain ⟨found, hFound, hFinish⟩ := h.visits
    obtain rfl := Except.ok.inj (hVisit.symm.trans hFound)
    exact hFinish
  · intro hFinish
    exact ⟨names_one, hSkips, none, hVisit, hFinish⟩

theorem names_and {f : Fields ν σ α} {g : Fields ν τ β}
    (hFirst : ∀ found key, f.has found key = true → key ∈ f.names)
    (hSecond : ∀ found key, g.has found key = true → key ∈ g.names) (found : σ × τ) (key : String)
    (h : (f.and g).has found key = true) : key ∈ (f.and g).names := by
  rcases Bool.or_eq_true_iff.mp h with h | h
  · exact List.mem_append_left _ (hFirst _ _ h)
  · exact List.mem_append_right _ (hSecond _ _ h)

/-- Two groups of fields with different names are read side by side. -/
theorem visit_and_iff {f : Fields ν σ α} {g : Fields ν τ β} {origin : Origin}
    {ms : List (String × Offer ν)} {s s' : σ} {t t' : τ}
    (hFirst : ∀ found key, f.has found key = true → key ∈ f.names)
    (hSecond : ∀ found key, g.has found key = true → key ∈ g.names)
    (hNames : (f.names ++ g.names).Nodup) (hSkips : ∀ m ∈ ms, m.2.outline.skip = .ok ()) :
    (f.and g).visit origin (s, t) (given ms) = .ok (s', t') ↔
      f.visit origin s (given ms) = .ok s' ∧ g.visit origin t (given ms) = .ok t' := by
  induction ms generalizing s t with
  | nil =>
    change Except.ok (s, t) = .ok (s', t') ↔ Except.ok s = .ok s' ∧ Except.ok t = .ok t'
    simp
  | cons m rest ih =>
    have hSkip := hSkips m List.mem_cons_self
    have ih := fun {s t} => ih (s := s) (t := t) fun m hm => hSkips m (List.mem_cons_of_mem _ hm)
    -- The group that the member belongs to takes it, and the other group passes it over.
    have hDisjoint : m.1 ∈ f.names → m.1 ∉ g.names :=
      fun hOwn hOther => (List.nodup_append.mp hNames).2.2 _ hOwn _ hOther rfl
    have hHas : (f.and g).has (s, t) m.1 = (f.has s m.1 || g.has t m.1) := rfl
    by_cases hOwn : m.1 ∈ f.names
    · have hOther := hDisjoint hOwn
      have hAbsent : g.has t m.1 = false := Bool.eq_false_iff.mpr fun h => hOther (hSecond _ _ h)
      have hPut : (f.and g).put origin (s, t) m.1 m.2 = (f.put origin s m.1 m.2).map (·, t) :=
        if_pos (List.contains_iff_mem.mpr hOwn)
      rw [visit_own (List.mem_append_left _ hOwn), visit_own hOwn, visit_other hOther hSkip, hHas,
        hAbsent, Bool.or_false, hPut]
      cases f.has s m.1 with
      | true => exact ⟨nofun, fun h => nomatch h.1⟩
      | false =>
        cases f.put origin s m.1 m.2 with
        | error e => exact ⟨nofun, fun h => nomatch h.1⟩
        | ok after => exact ih
    · have hAbsent : f.has s m.1 = false := Bool.eq_false_iff.mpr fun h => hOwn (hFirst _ _ h)
      rw [visit_other hOwn hSkip]
      by_cases hOther : m.1 ∈ g.names
      · have hPut : (f.and g).put origin (s, t) m.1 m.2 = (g.put origin t m.1 m.2).map (s, ·) :=
          if_neg fun h => hOwn (List.contains_iff_mem.mp h)
        rw [visit_own (List.mem_append_right _ hOther), visit_own hOther, hHas, hAbsent,
          Bool.false_or, hPut]
        cases g.has t m.1 with
        | true => exact ⟨nofun, fun h => nomatch h.2⟩
        | false =>
          cases g.put origin t m.1 m.2 with
          | error e => exact ⟨nofun, fun h => nomatch h.2⟩
          | ok after => exact ih
      · rw [visit_other (fun h => (List.mem_append.mp h).elim hOwn hOther) hSkip,
          visit_other hOther hSkip]
        exact ih

theorem reads_and_iff {f : Fields ν σ α} {g : Fields ν τ β} {origin : Origin}
    {ms : List (String × Offer ν)} {x : α} {y : β}
    (hFirst : ∀ found key, f.has found key = true → key ∈ f.names)
    (hSecond : ∀ found key, g.has found key = true → key ∈ g.names)
    (hNames : (f.names ++ g.names).Nodup) :
    Reads (f.and g) origin ms (x, y) ↔ Reads f origin ms x ∧ Reads g origin ms y := by
  have hFinish : ∀ found, (f.and g).finish found = .ok (x, y) ↔
      f.finish found.1 = .ok x ∧ g.finish found.2 = .ok y := by
    intro found
    change (do let x ← f.finish found.1; let y ← g.finish found.2; pure (x, y)) = _ ↔ _
    cases f.finish found.1 with
    | error e => exact ⟨nofun, fun h => nomatch h.1⟩
    | ok a =>
      cases g.finish found.2 with
      | error e => exact ⟨nofun, fun h => nomatch h.2⟩
      | ok b =>
        change Except.ok (a, b) = _ ↔ _
        simp
  constructor
  · rintro ⟨-, hSkips, ⟨first, second⟩, hVisit, hDone⟩
    obtain ⟨hVisitFirst, hVisitSecond⟩ := (visit_and_iff hFirst hSecond hNames hSkips).mp hVisit
    obtain ⟨hDoneFirst, hDoneSecond⟩ := (hFinish _).mp hDone
    exact ⟨⟨hFirst, hSkips, first, hVisitFirst, hDoneFirst⟩,
      ⟨hSecond, hSkips, second, hVisitSecond, hDoneSecond⟩⟩
  · rintro ⟨⟨-, hSkips, first, hVisitFirst, hDoneFirst⟩, -, -, second, hVisitSecond, hDoneSecond⟩
    exact ⟨names_and hFirst hSecond, hSkips, (first, second),
      (visit_and_iff hFirst hSecond hNames hSkips).mpr ⟨hVisitFirst, hVisitSecond⟩,
      (hFinish _).mpr ⟨hDoneFirst, hDoneSecond⟩⟩

theorem Reads.and {f : Fields ν σ α} {g : Fields ν τ β} {origin : Origin}
    {ms : List (String × Offer ν)} {x : α} {y : β} (hf : Reads f origin ms x)
    (hg : Reads g origin ms y) (hNames : (f.names ++ g.names).Nodup) :
    Reads (f.and g) origin ms (x, y) :=
  (reads_and_iff hf.names hg.names hNames).mpr ⟨hf, hg⟩

theorem visit_map (h : α → β) (f : Fields ν σ α) (origin : Origin) (found : σ)
    (ms : List (Key × Offer ν)) : (f.map h).visit origin found ms = f.visit origin found ms := by
  induction ms generalizing found with
  | nil => rfl
  | cons m rest ih =>
    rw [visit, visit]
    simp only [ih]
    rfl

theorem reads_map_iff {f : Fields ν σ α} {origin : Origin} {ms : List (String × Offer ν)}
    {h : α → β} {y : β} :
    Reads (f.map h) origin ms y ↔ ∃ x, Reads f origin ms x ∧ h x = y := by
  have hFinish : ∀ found, (f.map h).finish found = .ok y ↔
      ∃ x, f.finish found = .ok x ∧ h x = y := fun _ => map_eq_ok_iff
  constructor
  · rintro ⟨hNames, hSkips, found, hVisit, hDone⟩
    obtain ⟨x, hx, hy⟩ := (hFinish found).mp hDone
    exact ⟨x, ⟨hNames, hSkips, found, (visit_map h f origin f.start _).symm.trans hVisit, hx⟩, hy⟩
  · rintro ⟨x, ⟨hNames, hSkips, found, hVisit, hx⟩, hy⟩
    exact ⟨hNames, hSkips, found, (visit_map h f origin f.start _).trans hVisit,
      (hFinish found).mpr ⟨x, hx, hy⟩⟩

theorem Reads.map {f : Fields ν σ α} {origin : Origin} {ms : List (String × Offer ν)} {x : α}
    (hReads : Reads f origin ms x) (h : α → β) : Reads (f.map h) origin ms (h x) :=
  reads_map_iff.mpr ⟨x, hReads, rfl⟩

theorem readInside_object_iff {f : Fields ν σ α} {origin : Origin} {ms : List (String × Offer ν)}
    {x : α} {title : String} (hNames : ∀ found key, f.has found key = true → key ∈ f.names)
    (hSkips : ∀ m ∈ ms, m.2.outline.skip = .ok ()) :
    f.readInside title origin (.object (given ms) .closed) = .ok x ↔ Reads f origin ms x := by
  rw [Fields.readInside]
  change (f.visit origin f.start (given ms) >>= fun found => f.finish found) = _ ↔ _
  rw [bind_eq_ok_iff]
  constructor
  · exact fun hVisits => ⟨hNames, hSkips, hVisits⟩
  · exact fun hReads => hReads.visits

theorem Reads.readInside {f : Fields ν σ α} {origin : Origin} {ms : List (String × Offer ν)} {x : α}
    (hReads : Reads f origin ms x) (title : String) (h : α → β) :
    (f.map h).readInside title origin (.object (given ms) .closed) = .ok (h x) :=
  (readInside_object_iff (hReads.map h).names hReads.skips).mpr (hReads.map h)

end Fields

theorem Variant.read_ofFields {f : Fields ν σ α} {ms : List (String × Offer ν)} {x : α}
    (hReads : f.Reads .buffered ms x) (tag title : String) (build : α → ν) :
    (Variant.ofFields tag title f build).read (.object (given ms) .closed) = .ok (build x) :=
  hReads.readInside title build

/-! ## Tags -/

namespace Tagged

def offer (t : Tagged ν) (j : Json) : Offer ν :=
  ⟨.ofJson j, (Outline.ofJson j).nestedList t⟩

def offers (t : Tagged ν) (members : List (String × Json)) : List (String × Offer ν) :=
  members.map fun m => (m.1, t.offer m.2)

theorem offerMembers_ofJson (t : Tagged ν) (members : List (String × Json)) :
    Outline.offerMembers t (members.map fun m => (.ok m.1, .ofJson m.2)) =
      given (t.offers members) := by
  induction members with
  | nil => rfl
  | cons m rest ih =>
    rw [List.map_cons, Outline.offerMembers, ih]
    rfl

theorem buffer_ofJson (origin : Origin) (j : Json) :
    buffer origin (.ofJson j) = origin.limit j.depth := by
  cases origin with
  | buffered => rfl
  | text room => exact Outline.sound_ofJson j (.text room)
  | value => exact Outline.sound_ofJson j .value

theorem bufferAll_eq_ok_iff {t : Tagged ν} {origin : Origin} {items : List Json} :
    bufferAll origin (items.map t.offer) = .ok () ↔
      ∀ item ∈ items, origin.limit item.depth = .ok () := by
  induction items with
  | nil => simp [bufferAll]
  | cons item rest ih =>
    rw [List.map_cons, bufferAll, bind_eq_ok_iff, List.forall_mem_cons, ← ih, ← buffer_ofJson]
    constructor
    · rintro ⟨_, h⟩
      exact h
    · intro h
      exact ⟨(), h⟩

theorem bufferAll_ofJson (t : Tagged ν) {origin : Origin} (items : List Json)
    (h : origin.limit (depthItems items) = .ok ()) :
    bufferAll origin (items.map t.offer) = .ok () :=
  bufferAll_eq_ok_iff.mpr (Origin.limit_items h)

theorem offerItems_ofJson (t : Tagged ν) (items : List Json) :
    Outline.offerItems t (items.map .ofJson) = items.map t.offer := by
  induction items with
  | nil => rfl
  | cons item rest ih =>
    rw [List.map_cons, Outline.offerItems, ih]
    rfl

theorem reader_array_nil (t : Tagged ν) (origin : Origin) :
    t.reader origin (.ofJson (.array [])) =
      origin.enter >>= fun _ => .error (.missingMember "type") :=
  rfl

theorem reader_array_cons (t : Tagged ν) (origin : Origin) (tag : Json) (rest : List Json) :
    t.reader origin (.ofJson (.array (tag :: rest))) = origin.enter >>= fun inside =>
      t.variant inside (.ofJson tag) >>= fun v =>
        bufferAll inside (rest.map t.offer) >>= fun _ =>
          v.read (.array (rest.map t.offer) .closed) := by
  rw [Outline.ofJson_array]
  change t.assemble origin (.array (Outline.offerItems t _) .closed) = _
  rw [offerItems_ofJson]
  rfl

/-- Read the parts of a record as its tag says. -/
def readAs (found : Option (Variant ν)) (others : List (Key × Offer ν)) : Except Fault ν :=
  match found with
  | some v => v.read (.object others .closed)
  | none => .error (.missingMember "type")

theorem reader_object (t : Tagged ν) (origin : Origin) (members : List (String × Json)) :
    t.reader origin (.ofJson (.object members)) = origin.enter >>= fun inside =>
      t.split inside none (given (t.offers members)) >>= fun r => readAs r.1 r.2 := by
  rw [Outline.ofJson_object]
  change t.assemble origin (.object (Outline.offerMembers t _) .closed) = _
  rw [offerMembers_ofJson]
  rfl

theorem split_cons_other (t : Tagged ν) (origin : Origin) (found : Option (Variant ν))
    {m : String × Json} (rest : List (String × Json)) (hOther : m.1 ≠ "type") :
    t.split origin found (given (t.offers (m :: rest))) =
      origin.limit m.2.depth >>= fun _ =>
        (t.split origin found (given (t.offers rest))).map fun r =>
          (r.1, (.ok m.1, t.offer m.2) :: r.2) := by
  change t.split origin found ((.ok m.1, t.offer m.2) :: given (t.offers rest)) = _
  rw [split]
  change (if m.1 = "type" then _ else _) = _
  rw [if_neg hOther, ← buffer_ofJson]
  change (buffer origin (.ofJson m.2) >>= _) = _
  cases buffer origin (.ofJson m.2) with
  | error e => rfl
  | ok => cases t.split origin found (given (t.offers rest)) <;> rfl

theorem split_cons_tag (t : Tagged ν) (origin : Origin) (found : Option (Variant ν)) (tag : Json)
    (rest : List (String × Json)) :
    t.split origin found (given (t.offers (("type", tag) :: rest))) =
      if found.isSome then .error (.repeatedMember "type")
      else t.variant origin (.ofJson tag) >>= fun v =>
        t.split origin (some v) (given (t.offers rest)) := by
  change t.split origin found ((.ok "type", t.offer tag) :: given (t.offers rest)) = _
  rw [split]
  change (if found.isSome then _ else _ >>= _) = _
  rfl

theorem split_others (t : Tagged ν) (origin : Origin) (found : Option (Variant ν))
    {members : List (String × Json)} (h : "type" ∉ members.map Prod.fst) :
    t.split origin found (given (t.offers members)) =
      origin.limit (depthMembers members) >>= fun _ => .ok (found, given (t.offers members)) := by
  induction members with
  | nil =>
    rw [depthMembers, origin.limit_zero]
    rfl
  | cons m rest ih =>
    rw [List.map_cons, List.mem_cons, not_or] at h
    rw [split_cons_other t origin found rest (Ne.symm h.1), ih h.2, depthMembers, origin.limit_max]
    cases origin.limit m.2.depth with
    | error e => rfl
    | ok => cases origin.limit (depthMembers rest) <;> rfl

theorem filter_others {key : String} {rest : List (String × Json)}
    (h : key ∉ rest.map Prod.fst) : rest.filter (fun m => m.1 ≠ key) = rest := by
  rw [List.filter_eq_self]
  intro m hm
  exact decide_eq_true fun hKey => h (List.mem_map.mpr ⟨m, hm, hKey⟩)

/-- The tag is taken out wherever it stands. -/
theorem split_tag (t : Tagged ν) (origin : Origin) {members : List (String × Json)} {tag : String}
    {v : Variant ν} (hKeys : (members.map Prod.fst).Nodup)
    (hMem : ("type", .string tag) ∈ members)
    (hVariant : t.variants.find? (·.tag == tag) = some v) :
    t.split origin none (given (t.offers members)) =
      origin.limit (depthMembers members) >>= fun _ =>
        .ok (some v, given (t.offers (members.filter fun m => m.1 ≠ "type"))) := by
  induction members with
  | nil => cases hMem
  | cons m rest ih =>
    rw [List.map_cons, List.nodup_cons] at hKeys
    -- Members in front of the tag are checked and kept, those behind it follow `split_others`.
    rcases List.mem_cons.mp hMem with rfl | hMem
    · have hTag : t.variant origin (.ofJson (.string tag)) = .ok v := by
        change t.variant origin (.string (.ok tag)) = _
        rw [variant, hVariant]
      rw [split_cons_tag, hTag, depthMembers, origin.limit_max,
        List.filter_cons_of_neg (by simp), filter_others hKeys.1]
      change t.split origin (some v) (given (t.offers rest)) = (origin.limit 0 >>= _) >>= _
      rw [split_others t origin (some v) hKeys.1, origin.limit_zero]
      rfl
    · have hOther : m.1 ≠ "type" := by
        intro hType
        exact hKeys.1 (List.mem_map.mpr ⟨_, hMem, hType.symm⟩)
      rw [split_cons_other t origin none rest hOther, ih hKeys.2 hMem, depthMembers,
        origin.limit_max, List.filter_cons_of_pos (by simpa using hOther)]
      cases origin.limit m.2.depth with
      | error e => rfl
      | ok => cases origin.limit (depthMembers rest) <;> rfl

/-- The variant that the tag names, if there is one. -/
def chosen (t : Tagged ν) (origin : Origin) : Option Json → Except Fault (Option (Variant ν))
  | some tag => (t.variant origin (.ofJson tag)).map some
  | none => .ok none

/-- What is not too deep is split into the tag and the members of other names. -/
theorem split_lookup (t : Tagged ν) {origin : Origin} {members : List (String × Json)}
    (hKeys : (members.map Prod.fst).Nodup) (hLimit : origin.limit (depthMembers members) = .ok ()) :
    t.split origin none (given (t.offers members)) =
      (t.chosen origin (members.lookup "type")).map fun found =>
        (found, given (t.offers (members.filter fun m => m.1 ≠ "type"))) := by
  induction members with
  | nil => rfl
  | cons m rest ih =>
    obtain ⟨key, value⟩ := m
    rw [List.map_cons, List.nodup_cons] at hKeys
    rw [depthMembers, Origin.limit_max_iff] at hLimit
    by_cases hKey : key = "type"
    · subst hKey
      rw [split_cons_tag, List.lookup_cons_self, List.filter_cons_of_neg (by simp),
        filter_others hKeys.1]
      change (t.variant origin (.ofJson value) >>= _) =
        ((t.variant origin (.ofJson value)).map some).map _
      cases t.variant origin (.ofJson value) with
      | error e => rfl
      | ok v =>
        change t.split origin (some v) (given (t.offers rest)) = _
        rw [split_others t origin (some v) hKeys.1, hLimit.2]
        rfl
    · rw [split_cons_other t origin none rest hKey, hLimit.1, ih hKeys.2 hLimit.2,
        Keyed.lookup_cons_eq, if_neg (Ne.symm hKey),
        List.filter_cons_of_pos (by simpa using hKey)]
      cases t.chosen origin (rest.lookup "type") <;> rfl

end Tagged

/-! ## Reading what was written -/

/-- Reading undoes writing, also when members come in another order. -/
def Undoes (g : Arrangement) (origin : Origin) (read : Reader α) (write : α → Json) : Prop :=
  ∀ x, read origin (.ofJson (g.apply (write x))) = .ok x

namespace Undoes

variable {g : Arrangement} {origin : Origin}

theorem text : Undoes g origin Reader.text .string := by
  intro s
  rw [g.string]
  rfl

theorem flag : Undoes g origin Reader.flag .bool := by
  intro b
  rw [g.bool]
  rfl

theorem below {bound n : Nat} (h : n < bound) (expected : String) :
    Reader.below bound expected origin (.ofJson (g.apply (natural n))) = .ok n := by
  rw [natural, g.number]
  change (if n < bound then _ else _) = _
  rw [if_pos h]

theorem word8 : Undoes g origin Reader.word8 (natural ·.toNat) := by
  intro n
  rw [Reader.word8, below n.toNat_lt]
  exact congrArg Except.ok UInt8.ofNat_toNat

theorem word32 : Undoes g origin Reader.word32 (natural ·.toNat) := by
  intro n
  rw [Reader.word32, below n.toNat_lt]
  exact congrArg Except.ok UInt32.ofNat_toNat

theorem optional {read : Reader α} {write : α → Json} (h : Undoes g origin read write)
    (hNull : ∀ x, g.apply (write x) ≠ .null) : Undoes g origin read.optional (.optional write) := by
  intro x
  cases x with
  | none =>
    rw [Json.optional, g.null]
    rfl
  | some x =>
    have hRead := h x
    have hSome := hNull x
    rw [Json.optional]
    cases hWritten : g.apply (write x) with
    | null => exact absurd hWritten hSome
    | _ =>
      rw [hWritten] at hRead
      change (read origin _).map some = _
      rw [hRead]
      rfl

theorem list {read : Reader α} {write : α → Json} (h : Undoes g .buffered read write) :
    Undoes g .buffered read.list (Json.list write) := by
  have hItems : ∀ xs : List α,
      Reader.items read .buffered (((xs.map write).map g.apply).map Outline.ofJson) = .ok xs := by
    intro xs
    induction xs with
    | nil => rfl
    | cons x rest ih =>
      rw [List.map_cons, List.map_cons, List.map_cons, Reader.items, h x, ih]
      rfl
  intro xs
  rw [Json.list, g.array, Outline.ofJson_array, Reader.list]
  change (Reader.items read .buffered _ >>= _) = _
  rw [hItems]
  rfl

end Undoes

/-- Members of which the given ones are a part, as written in some arrangement. -/
structure Supplies (t : Tagged ν) (g : Arrangement) (payload : List (String × Json))
    (ms : List (String × Offer ν)) : Prop where
  keys : (ms.map Prod.fst).Nodup
  skips : ∀ m ∈ ms, m.2.outline.skip = .ok ()
  mem : ∀ m ∈ payload, (m.1, t.offer (g.apply m.2)) ∈ ms

namespace Fields

variable {t : Tagged ν} {g : Arrangement} {payload : List (String × Json)}
  {ms : List (String × Offer ν)} {origin : Origin} {name : String} {read : Reader α}
  {write : α → Json}

theorem reads_required (h : Supplies t g payload ms) (hRead : Undoes g origin read write) {x : α}
    (hMem : (name, write x) ∈ payload) : Reads (required name read) origin ms x :=
  reads_one h.keys h.skips (h.mem _ hMem) (hRead x)

theorem reads_defaulted (h : Supplies t g payload ms) (hRead : Undoes g origin read write) (x : α)
    {y : α} (hMem : (name, write y) ∈ payload) : Reads (defaulted name x read) origin ms y :=
  reads_one h.keys h.skips (h.mem _ hMem) (hRead y)

theorem reads_optional (h : Supplies t g payload ms) (hRead : Undoes g origin read write)
    (hNull : ∀ x, g.apply (write x) ≠ .null) {x : Option α}
    (hMem : (name, .optional write x) ∈ payload) : Reads (optional name read) origin ms x :=
  reads_one h.keys h.skips (h.mem _ hMem) (hRead.optional hNull x)

theorem reads_nested (h : Supplies t g payload ms) {value : Json} {xs : List ν}
    (hNested : (Outline.ofJson (g.apply value)).nestedList t = .ok xs)
    (hMem : (name, value) ∈ payload) : Reads (nested name) origin ms xs :=
  reads_one h.keys h.skips (h.mem _ hMem) hNested

theorem reads_nestedOrNone (h : Supplies t g payload ms) {value : Json} {xs : List ν}
    (hNested : (Outline.ofJson (g.apply value)).nestedList t = .ok xs)
    (hMem : (name, value) ∈ payload) : Reads (nestedOrNone name) origin ms xs :=
  reads_one h.keys h.skips (h.mem _ hMem) hNested

end Fields

namespace Tagged

variable {t : Tagged ν} {g : Arrangement}

theorem supplies_offers {payload arranged : List (String × Json)} {tag : Json}
    (hKeys : ((("type", tag) :: payload).map Prod.fst).Nodup)
    (hPerm : arranged.Perm ((("type", tag) :: payload).map fun m => (m.1, g.apply m.2))) :
    Supplies t g payload (t.offers (arranged.filter fun m => m.1 ≠ "type")) where
  keys := by
    have hSame : (arranged.map Prod.fst).Perm ((("type", tag) :: payload).map Prod.fst) := by
      have hFirst := hPerm.map Prod.fst
      rwa [List.map_map] at hFirst
    have hPart := (List.filter_sublist (p := fun m => decide (m.1 ≠ "type"))
      (l := arranged)).map Prod.fst
    rw [offers, List.map_map]
    exact (hSame.nodup_iff.mpr hKeys).sublist hPart
  skips m hm := by
    obtain ⟨_, _, rfl⟩ := List.mem_map.mp hm
    exact Outline.skip_ofJson _
  mem m hm := by
    rw [List.map_cons, List.nodup_cons] at hKeys
    have hArranged : (m.1, g.apply m.2) ∈ arranged :=
      hPerm.mem_iff.mpr (List.mem_map.mpr ⟨m, List.mem_cons_of_mem _ hm, rfl⟩)
    have hOther : m.1 ≠ "type" := fun hType => hKeys.1 (List.mem_map.mpr ⟨m, hm, hType⟩)
    exact List.mem_map.mpr ⟨_, List.mem_filter.mpr ⟨hArranged, decide_eq_true hOther⟩, rfl⟩

/-- A tagged record is read from what its tag and its members were written to, unless that nests too
deep. -/
theorem reader_tagged {payload : List (String × Json)} {tag : String} {v : Variant ν} {x : ν}
    (hKeys : ((("type", Json.string tag) :: payload).map Prod.fst).Nodup)
    (hVariant : t.variants.find? (·.tag == tag) = some v)
    (hRead : ∀ ms, Supplies t g payload ms → v.read (.object (given ms) .closed) = .ok x)
    (origin : Origin) :
    t.reader origin (.ofJson (g.apply (.object (("type", .string tag) :: payload)))) =
      (origin.limit (g.apply (.object (("type", .string tag) :: payload))).depth).map fun _ => x := by
  obtain ⟨arranged, hApply, hPerm⟩ := g.object _ hKeys
  have hTag : ("type", .string tag) ∈ arranged := by
    rw [hPerm.mem_iff, List.map_cons, g.string]
    exact List.mem_cons_self
  have hArranged : (arranged.map Prod.fst).Nodup := by
    have hFirst := hPerm.map Prod.fst
    rw [List.map_map] at hFirst
    exact hFirst.nodup_iff.mpr hKeys
  rw [hApply, reader_object, depth, origin.limit_succ]
  cases origin.enter with
  | error e => rfl
  | ok inside =>
    change (t.split inside none (given (t.offers arranged)) >>= _) = (inside.limit _).map _
    rw [split_tag t inside hArranged hTag hVariant]
    cases inside.limit (depthMembers arranged) with
    | error e => rfl
    | ok =>
      exact hRead _ (supplies_offers hKeys hPerm)

theorem nested_eq_reader (j : Json) :
    (Outline.ofJson j).nested t = t.reader .buffered (.ofJson j) := by
  cases j <;> rfl

theorem nestedList_nil : (Outline.ofJson (g.apply (.array []))).nestedList t = .ok [] := by
  rw [g.array]
  rfl

theorem nestedList_cons {item : Json} {rest : List Json} {x : ν} {xs : List ν}
    (hItem : t.reader .buffered (.ofJson (g.apply item)) = .ok x)
    (hRest : (Outline.ofJson (g.apply (.array rest))).nestedList t = .ok xs) :
    (Outline.ofJson (g.apply (.array (item :: rest)))).nestedList t = .ok (x :: xs) := by
  rw [g.array, Outline.ofJson_array, Outline.nestedList] at hRest ⊢
  rw [List.map_cons, List.map_cons, Outline.nestedItems, nested_eq_reader, hItem, hRest]
  rfl

end Tagged

end Manuscript.Json
