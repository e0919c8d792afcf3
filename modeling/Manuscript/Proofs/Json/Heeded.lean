import Manuscript.Proofs.Except
import Manuscript.Proofs.Json.Records

/-!
# What a record heeds

A record heeds the members that its fields have names for, and of an array the items in the places of
its fields. Other members can go and what is heeded can be replaced by what its field takes for the
same: the record stays the same, and so does the fault if there is one.
-/

namespace Manuscript.Json

variable {ν σ τ α β : Type} {R : String → Offer ν → Offer ν → Prop}

/-! ## Parts of a record -/

/-- Members that may be replaced if a field has their name, and may go if none has. -/
inductive Reduced (R : String → Offer ν → Offer ν → Prop) (names : List String) :
    List (String × Offer ν) → List (String × Offer ν) → Prop
  | nil : Reduced R names [] []
  | keep {key : String} {offer offer' : Offer ν} {ms ms' : List (String × Offer ν)}
    (hName : key ∈ names) (hOffer : R key offer offer') (hRest : Reduced R names ms ms') :
    Reduced R names ((key, offer) :: ms) ((key, offer') :: ms')
  | drop {key : String} {offer : Offer ν} {ms ms' : List (String × Offer ν)}
    (hName : key ∉ names) (hSkip : offer.outline.skip = .ok ()) (hRest : Reduced R names ms ms') :
    Reduced R names ((key, offer) :: ms) ms'

/-- Items that may be replaced in the places of the fields, and items behind them. -/
inductive Aligned (R : String → Offer ν → Offer ν → Prop) :
    List String → List (Offer ν) → List (Offer ν) → Prop
  | behind (items : List (Offer ν)) : Aligned R [] items items
  | spent (names : List String) : Aligned R names [] []
  | item {name : String} {names : List String} {offer offer' : Offer ν} {rest rest' : List (Offer ν)}
    (hOffer : R name offer offer') (hRest : Aligned R names rest rest') :
    Aligned R (name :: names) (offer :: rest) (offer' :: rest')

inductive Fewer (R : String → Offer ν → Offer ν → Prop) (names : List String) :
    Body ν → Body ν → Prop
  | object {ms ms' : List (String × Offer ν)} (h : Reduced R names ms ms') :
    Fewer R names (.object (given ms) .closed) (.object (given ms') .closed)
  | array {items items' : List (Offer ν)} (h : Aligned R names items items') :
    Fewer R names (.array items .closed) (.array items' .closed)

/-- What is left of two arrays that only differ in aligned items. -/
inductive Abreast (R : String → Offer ν → Offer ν → Prop) (origin : Origin) (names : List String) :
    Line ν → Line ν → Prop
  | intro {rest rest' : List (Offer ν)} (h : Aligned R names rest rest') (expected : String)
    (taken : Nat) (ending : Ending) :
    Abreast R origin names ⟨origin, expected, taken, rest, ending⟩
      ⟨origin, expected, taken, rest', ending⟩

/-! ## Fields -/

namespace Fields

structure Heeds (R : String → Offer ν → Offer ν → Prop) (origin : Origin) (f : Fields ν σ α) :
    Prop where
  puts : ∀ found key offer offer', key ∈ f.names → R key offer offer' →
    f.put origin found key offer = f.put origin found key offer'
  takes : ∀ names line line', Abreast R origin (f.names ++ names) line line' →
    Alike (fun r r' => r.1 = r'.1 ∧ Abreast R origin names r.2 r'.2) (f.take line) (f.take line')

variable {origin : Origin}

theorem heeds_empty : (empty : Fields ν Unit Unit).Heeds R origin where
  puts _ _ _ _ h := nomatch h
  takes _ _ _ h := .ok ⟨rfl, h⟩

theorem heeds_one {name : String} (absence : Absence α) {read : Origin → Offer ν → Except Fault α}
    (hRead : ∀ offer offer', R name offer offer' → read origin offer = read origin offer') :
    (one name absence read).Heeds R origin where
  puts found key offer offer' hName hOffer := by
    obtain rfl := List.mem_singleton.mp hName
    exact congrArg (Except.map some) (hRead offer offer' hOffer)
  takes names line line' h := by
    obtain ⟨hItems, expected, taken, ending⟩ := h
    change Alike _ (takeOne _ _ _) (takeOne _ _ _)
    rw [takeOne, takeOne]
    cases hItems with
    | spent =>
      dsimp only
      cases wellFormed ending.keptInArray with
      | error e => exact .error e
      | ok =>
        cases absence.inArray? with
        | none => exact .error _
        | some x => exact .ok ⟨rfl, .spent names, expected, taken, ending⟩
    | item hOffer hRest =>
      dsimp only
      rw [hRead _ _ hOffer]
      cases read origin _ with
      | error e => exact .error e
      | ok x => exact .ok ⟨rfl, hRest, expected, taken + 1, ending⟩

theorem Heeds.and {f : Fields ν σ α} {g : Fields ν τ β} (hf : f.Heeds R origin)
    (hg : g.Heeds R origin) : (f.and g).Heeds R origin where
  puts found key offer offer' hName hOffer := by
    change (if f.names.contains key then _ else _) = (if f.names.contains key then _ else _)
    by_cases hOwn : key ∈ f.names
    · rw [if_pos (List.contains_iff_mem.mpr hOwn), if_pos (List.contains_iff_mem.mpr hOwn),
        hf.puts found.1 key offer offer' hOwn hOffer]
    · have hOther : key ∈ g.names := (List.mem_append.mp hName).resolve_left hOwn
      have hNot : ¬ f.names.contains key = true := fun h => hOwn (List.contains_iff_mem.mp h)
      rw [if_neg hNot, if_neg hNot, hg.puts found.2 key offer offer' hOther hOffer]
  takes names line line' h := by
    have hFirst : Abreast R origin (f.names ++ (g.names ++ names)) line line' := by
      rw [← List.append_assoc]
      exact h
    refine (hf.takes _ line line' hFirst).bind ?_
    rintro ⟨a, line⟩ ⟨a', line'⟩ ⟨rfl, hLine⟩
    refine (hg.takes _ line line' hLine).bind ?_
    rintro ⟨b, line⟩ ⟨b', line'⟩ ⟨rfl, hLine⟩
    exact .ok ⟨rfl, hLine⟩

theorem Heeds.map {f : Fields ν σ α} (hf : f.Heeds R origin) (h : α → β) :
    (f.map h).Heeds R origin where
  puts := hf.puts
  takes names line line' hLine := by
    refine (hf.takes names line line' hLine).map ?_
    rintro ⟨a, line⟩ ⟨a', line'⟩ ⟨rfl, hLine⟩
    exact ⟨rfl, hLine⟩

theorem Heeds.visit {f : Fields ν σ α} (hf : f.Heeds R origin) {ms ms' : List (String × Offer ν)}
    (h : Reduced R f.names ms ms') (found : σ) :
    f.visit origin found (given ms) = f.visit origin found (given ms') := by
  induction h generalizing found with
  | nil => rfl
  | keep hName hOffer _ ih =>
    rw [visit_own hName, visit_own hName, hf.puts found _ _ _ hName hOffer]
    simp only [ih]
  | drop hName hSkip _ ih => rw [visit_other hName hSkip, ih]

theorem leftOver_abreast {line line' : Line ν} (h : Abreast R origin [] line line') :
    leftOver line = leftOver line' := by
  obtain ⟨hItems, expected, taken, ending⟩ := h
  cases hItems <;> rfl

/-- A record is read alike from fewer members. -/
theorem Heeds.readInside {f : Fields ν σ α} (hf : f.Heeds R origin) (title : String)
    {body body' : Body ν} (h : Fewer R f.names body body') :
    f.readInside title origin body = f.readInside title origin body' := by
  cases h with
  | object h => rw [Fields.readInside, Fields.readInside, hf.visit h]
  | array h =>
    have hStart : Aligned R (f.names ++ []) _ _ := (List.append_nil f.names).symm ▸ h
    refine Alike.eq ((hf.takes [] _ _ ⟨hStart, _, 0, .closed⟩).bind ?_)
    rintro ⟨x, line⟩ ⟨x', line'⟩ ⟨rfl, hLine⟩
    change Alike Eq (leftOver line >>= _) (leftOver line' >>= _)
    rw [leftOver_abreast hLine]
    cases leftOver line' with
    | error e => exact .error e
    | ok => exact .ok rfl

end Fields

def Variant.Heeds (R : String → Offer ν → Offer ν → Prop) (names : List String) (v : Variant ν) :
    Prop :=
  ∀ body body', Fewer R names body body' → v.read body = v.read body'

theorem heeds_ofFields {f : Fields ν σ α} (hf : f.Heeds R .buffered) (tag title : String)
    (build : α → ν) : (Variant.ofFields tag title f build).Heeds R f.names :=
  fun _ _ h => (hf.map build).readInside title h

end Manuscript.Json
