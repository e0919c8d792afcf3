import Mathlib.Data.List.Forall2
import Manuscript.Proofs.Except
import Manuscript.Proofs.Json.Records

/-!
# Records that are read together

Records of parts that are read together are read together, whatever the order of their members. The
faults may differ: the one reported is the first one met, and what is met first depends on the order.
-/

namespace Manuscript.Json

variable {ν σ τ α β : Type}

/-! ## Parts of a record -/

/-- Members of which those of one name are related. -/
structure Members (R : Offer ν → Offer ν → Prop) (ms ms' : List (String × Offer ν)) : Prop where
  keys : (ms.map Prod.fst).Nodup
  keys' : (ms'.map Prod.fst).Nodup
  skips : ∀ m ∈ ms, m.2.outline.skip = .ok ()
  skips' : ∀ m ∈ ms', m.2.outline.skip = .ok ()
  lookup : ∀ key, Option.Rel R (ms.lookup key) (ms'.lookup key)

/-- What is left of two arrays, item by item. -/
structure Lines (R : Offer ν → Offer ν → Prop) (origin origin' : Origin) (line line' : Line ν) :
    Prop where
  origin : line.origin = origin
  origin' : line'.origin = origin'
  ending : line.ending = .closed
  ending' : line'.ending = .closed
  rest : List.Forall₂ R line.rest line'.rest

inductive Bodies (R : Offer ν → Offer ν → Prop) : Body ν → Body ν → Prop
  | object {ms ms' : List (String × Offer ν)} (h : Members R ms ms') :
    Bodies R (.object (given ms) .closed) (.object (given ms') .closed)
  | array {items items' : List (Offer ν)} (h : List.Forall₂ R items items') :
    Bodies R (.array items .closed) (.array items' .closed)
  | other (x x' : Outline) : Bodies R (.other x) (.other x')

namespace Fields

/-- Fields that are read together from related parts. -/
structure Steady (R : Offer ν → Offer ν → Prop) (origin origin' : Origin) (f : Fields ν σ α) :
    Prop where
  names : ∀ found key, f.has found key = true → key ∈ f.names
  reads : ∀ ms ms', Members R ms ms' → ∀ x, f.Reads origin ms x ↔ f.Reads origin' ms' x
  takes : ∀ line line', Lines R origin origin' line line' →
    Together (fun r r' => r.1 = r'.1 ∧ Lines R origin origin' r.2 r'.2) (f.take line) (f.take line')

variable {R : Offer ν → Offer ν → Prop} {origin origin' : Origin}

theorem steady_empty : (empty : Fields ν Unit Unit).Steady R origin origin' where
  names _ _ h := by cases h
  reads _ _ h _ := ⟨fun _ => reads_empty h.skips' origin', fun _ => reads_empty h.skips origin⟩
  takes _ _ h := .ok ⟨rfl, h⟩

theorem steady_one (name : String) (absence : Absence α)
    {read : Origin → Offer ν → Except Fault α}
    (hRead : ∀ offer offer', R offer offer' →
      Together Eq (read origin offer) (read origin' offer')) :
    (one name absence read).Steady R origin origin' where
  names := names_one
  reads ms ms' h x := by
    have hSame := h.lookup name
    generalize hFirst : ms.lookup name = first at hSame
    generalize hSecond : ms'.lookup name = second at hSame
    cases hSame with
    | none =>
      have hAbsent : ∀ {ms : List (String × Offer ν)}, ms.lookup name = none →
          ∀ m ∈ ms, m.1 ≠ name :=
        fun hNone m hm hName => by simpa [hName] using List.lookup_eq_none_iff.mp hNone m hm
      rw [reads_absent_iff h.skips (hAbsent hFirst), reads_absent_iff h.skips' (hAbsent hSecond)]
    | some hOffer =>
      rw [reads_one_iff h.keys h.skips ((Keyed.lookup_eq_some_iff_mem h.keys).mp hFirst),
        reads_one_iff h.keys' h.skips' ((Keyed.lookup_eq_some_iff_mem h.keys').mp hSecond)]
      exact (hRead _ _ hOffer).ok_iff x
  takes line line' h := by
    obtain ⟨origin, expected, taken, rest, ending⟩ := line
    obtain ⟨origin', expected', taken', rest', ending'⟩ := line'
    obtain ⟨rfl, rfl, rfl, rfl, hRest⟩ := h
    change Together _ (takeOne _ _ _) (takeOne _ _ _)
    rw [takeOne, takeOne]
    cases hRest with
    | nil =>
      cases absence.inArray? with
      | none => exact .error _ _
      | some x => exact .ok ⟨rfl, rfl, rfl, rfl, rfl, .nil⟩
    | cons hOffer hRest =>
      exact (hRead _ _ hOffer).bind fun x y hxy => .ok ⟨hxy, rfl, rfl, rfl, rfl, hRest⟩

theorem Steady.and {f : Fields ν σ α} {g : Fields ν τ β} (hf : f.Steady R origin origin')
    (hg : g.Steady R origin origin') (hNames : (f.names ++ g.names).Nodup) :
    (f.and g).Steady R origin origin' where
  names := names_and hf.names hg.names
  reads ms ms' h x := by
    obtain ⟨a, b⟩ := x
    rw [reads_and_iff hf.names hg.names hNames, reads_and_iff hf.names hg.names hNames,
      hf.reads ms ms' h, hg.reads ms ms' h]
  takes line line' h := by
    refine (hf.takes line line' h).bind ?_
    rintro ⟨a, line⟩ ⟨a', line'⟩ ⟨rfl, hLine⟩
    refine (hg.takes line line' hLine).bind ?_
    rintro ⟨b, line⟩ ⟨b', line'⟩ ⟨rfl, hLine⟩
    exact .ok ⟨rfl, hLine⟩

theorem Steady.map {f : Fields ν σ α} (hf : f.Steady R origin origin') (h : α → β) :
    (f.map h).Steady R origin origin' where
  names := hf.names
  reads ms ms' hMembers y := by
    rw [reads_map_iff, reads_map_iff]
    simp only [hf.reads ms ms' hMembers]
  takes line line' hLine := by
    refine (hf.takes line line' hLine).map ?_
    rintro ⟨a, line⟩ ⟨a', line'⟩ ⟨rfl, hLine⟩
    exact ⟨rfl, hLine⟩

theorem leftOver_together {line line' : Line ν} (h : Lines R origin origin' line line') :
    Together Eq (leftOver line) (leftOver line') := by
  have hNone : ∀ origin expected taken,
      leftOver (⟨origin, expected, taken, [], .closed⟩ : Line ν) = .ok () := by
    intro origin expected taken
    cases origin <;> rfl
  have hSome : ∀ origin expected taken item rest, ∃ e,
      leftOver (⟨origin, expected, taken, item :: rest, .closed⟩ : Line ν) = .error e := by
    intro origin expected taken item rest
    cases origin <;> exact ⟨_, rfl⟩
  obtain ⟨origin, expected, taken, rest, ending⟩ := line
  obtain ⟨origin', expected', taken', rest', ending'⟩ := line'
  obtain ⟨rfl, rfl, rfl, rfl, hRest⟩ := h
  cases hRest with
  | nil =>
    rw [hNone, hNone]
    exact .ok rfl
  | cons _ _ =>
    obtain ⟨e, he⟩ := hSome origin expected taken _ _
    obtain ⟨e', he'⟩ := hSome origin' expected' taken' _ _
    rw [he, he']
    exact .error e e'

/-- Related bodies are read together. -/
theorem Steady.readInside {f : Fields ν σ α} (hf : f.Steady R origin origin') (title : String)
    {body body' : Body ν} (h : Bodies R body body') :
    Together Eq (f.readInside title origin body) (f.readInside title origin' body') := by
  cases h with
  | object h =>
    refine .of_ok_iff fun x => ?_
    rw [readInside_object_iff hf.names h.skips, readInside_object_iff hf.names h.skips']
    exact hf.reads _ _ h x
  | array h =>
    refine (hf.takes _ _ ⟨rfl, rfl, rfl, rfl, h⟩).bind ?_
    rintro ⟨x, line⟩ ⟨x', line'⟩ ⟨rfl, hLine⟩
    exact (leftOver_together hLine).bind fun _ _ _ => .ok rfl
  | other x x' => exact .error _ _

end Fields

end Manuscript.Json
