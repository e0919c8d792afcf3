import Manuscript.Proofs.Conversion.Images
import Manuscript.Resolution.Sources

/-!
# Errors before anything is written

Neither the standard resolver nor the layout tells of a failure to write. A conversion that ends
before its document is written therefore cannot be mistaken for one that could not write it.
-/

namespace Manuscript

/-- Whether the error tells that a document could not be written. -/
def Error.isOfWriting : Error → Bool
  | .outputWriteFailed .. => true
  | _ => false

/-- The result is not the failure to write something. -/
def Unwriting {α : Type} (result : Except Error α) : Prop :=
  ∀ e, result = .error e → e.isOfWriting = false

namespace Unwriting

variable {α β : Type} {result : Except Error α}

theorem ok (x : α) : Unwriting (.ok x) := by
  rintro _ ⟨⟩

theorem error {e : Error} (h : e.isOfWriting = false) : Unwriting (.error e : Except Error α) := by
  rintro _ ⟨⟩
  exact h

theorem bind {next : α → Except Error β} (h : Unwriting result) (hNext : ∀ x, Unwriting (next x)) :
    Unwriting (result >>= next) := by
  cases result with
  | ok x => exact hNext x
  | error e => exact .error (h e rfl)

theorem map (h : Unwriting result) (f : α → β) : Unwriting (result.map f) := by
  cases result with
  | ok x => exact .ok (f x)
  | error e => exact .error (h e rfl)

end Unwriting

/-! ## Images -/

namespace Resolution

theorem unwriting_fetch (network : Web.Network) (secs : Nat) (url : String) :
    Unwriting (Web.fetch network secs url) := by
  rw [Web.fetch]
  split
  · exact .error rfl
  · split
    · exact .error rfl
    · exact .error rfl
    · split
      · split
        · exact .ok _
        · exact .error rfl
      · exact .error rfl

theorem unwriting_bytes (sources : Sources) (url : String) : Unwriting (sources.bytes url) := by
  rw [Sources.bytes]
  split
  · rw [decodePayload]
    split
    · exact .ok _
    · exact .error rfl
  · split
    · exact unwriting_fetch _ _ _
    · rw [Sources.readFile]
      split
      · exact .ok _
      · exact .error rfl

theorem unwriting_resolve (sources : Sources) (url : String) : Unwriting (sources.resolve url) := by
  refine (unwriting_bytes sources url).bind fun bytes => ?_
  rw [Sources.measured]
  split
  · exact .ok _
  · exact .error rfl

/-- No answer of the resolver is a failure to write. -/
def Resolver.NeverWrites (resolver : Resolver) : Prop :=
  ∀ url answer, (resolver.reply url).answer = some answer → Unwriting answer

theorem Sources.neverWrites (sources : Sources) : sources.resolver.NeverWrites := by
  rintro url _ ⟨⟩
  exact unwriting_resolve sources url

theorem Resolver.NeverWrites.outcome {resolver : Resolver} (h : resolver.NeverWrites) (secs : Nat)
    (url : String) : Unwriting (resolver.outcome secs url) := by
  rw [Resolver.outcome]
  split
  · rename_i answer hAnswer
    split
    · exact h url answer hAnswer
    · exact .error rfl
  · exact .error rfl

end Resolution

/-! ## Conversions -/

namespace Layout

theorem unwriting_offence {images : ImageTable} {p : Site} {e : Error}
    (h : offence images p = some e) : e.isOfWriting = false := by
  rw [offence] at h
  split at h
  · rw [itemOffence.eq_def] at h
    split at h
    · cases h
    · obtain rfl := Option.some.inj h
      rfl
  · rw [nodeOffence.eq_def] at h
    split at h
    case h_7 => cases h
    -- A node in a wrong place is refused without a look at it, the others if they are wrong.
    case h_1 | h_2 | h_3 =>
      obtain rfl := Option.some.inj h
      rfl
    all_goals
      split at h
      · cases h
      · obtain rfl := Option.some.inj h
        rfl

theorem unwriting_layAll (parser : LatexParser) (nodes : List Node) (ctx : Context) :
    Unwriting (layAll parser nodes ctx {}).result := by
  intro e h
  rw [← refusal_eq_some_iff, refusal_layAll] at h
  obtain ⟨p, _, hOffence⟩ := List.exists_of_findSome?_eq_some h
  exact unwriting_offence hOffence

end Layout

namespace Config

theorem unwriting_resolveImages {config : Config} (tree : Tree)
    (h : ∀ resolver, config.resolver = some resolver → resolver.NeverWrites) :
    Unwriting (config.resolveImages tree).result := by
  cases hResolver : config.resolver with
  | none =>
    rcases resolveImages_without_resolver tree hResolver with ⟨_, hEmpty⟩ | hMissing
    · rw [hEmpty]
      exact .ok _
    · rw [hMissing]
      exact .error rfl
  | some resolver =>
    have hSettles := config.settles_resolveImages resolver tree
    rw [withResolver_of_eq hResolver] at hSettles
    intro e hError
    rw [hError] at hSettles
    cases hSettles with
    | failed _ hOutcome => exact (h resolver hResolver).outcome _ _ _ hOutcome

theorem unwriting_convert {config : Config} (tree : Tree)
    (h : ∀ resolver, config.resolver = some resolver → resolver.NeverWrites) :
    Unwriting (config.convert tree).result := by
  have hImages := unwriting_resolveImages tree h
  cases hResult : (config.resolveImages tree).result with
  | error e =>
    rw [hResult] at hImages
    rw [convert_of_resolveImages_error hResult]
    exact .error (hImages e rfl)
  | ok images =>
    rw [convert_of_resolveImages hResult, result_layOut]
    exact ((Layout.unwriting_layAll _ _ _).map _).map _

/-- A conversion to JSON with a resolver that never tells of writing does not either. -/
theorem unwriting_convertToBytes {config : Config} (pretty : Bool) (tree : Tree)
    (h : ∀ resolver, config.resolver = some resolver → resolver.NeverWrites) :
    Unwriting (config.convertToBytes (.json pretty) tree).result := by
  have hConvert := unwriting_convert tree h
  rw [convertToBytes, Run.andThen]
  cases hResult : (config.convert tree).result with
  | error e =>
    rw [hResult] at hConvert
    exact .error (hConvert e rfl)
  | ok converted => exact .ok _

theorem unwriting_ofSettings (settings : List Setting) : Unwriting (ofSettings settings) := by
  rw [ofSettings, check]
  split
  · exact .error rfl
  · split
    · exact .error rfl
    · exact .ok _

theorem resolver_of_ofSettings {settings : List Setting} {config : Config}
    (h : ofSettings settings = .ok config) {resolver : Resolution.Resolver}
    (hResolver : config.resolver = some resolver) : .resolver resolver ∈ settings := by
  have hFold : ∀ (settings : List Setting) (start : Config),
      (settings.foldl set start).resolver = some resolver →
        .resolver resolver ∈ settings ∨ start.resolver = some resolver := by
    intro settings
    induction settings with
    | nil => exact fun _ h => .inr h
    | cons setting rest ih =>
      intro start h
      rcases ih (start.set setting) h with hRest | hStart
      · exact .inl (List.mem_cons_of_mem _ hRest)
      · cases setting with
        | resolver given =>
          obtain rfl := Option.some.inj hStart
          exact .inl List.mem_cons_self
        | _ => exact .inr hStart
  have hCheck : settings.foldl set {} = config := by
    rw [ofSettings, check] at h
    split at h
    · cases h
    · split at h
      · cases h
      · exact Except.ok.inj h
  rcases hFold settings {} (hCheck ▸ hResolver) with hGiven | hNone
  · exact hGiven
  · cases hNone

end Config

end Manuscript
