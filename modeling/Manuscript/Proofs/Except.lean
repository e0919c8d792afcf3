/-!
# Results that may fail

Two results succeed together if both are faults or neither is, and then they are related. Which fault
is reported may differ. They are alike if they report the same fault, too.
-/

namespace Manuscript

variable {ε ε' α β γ δ : Type}

theorem bind_eq_ok_iff {x : Except ε α} {f : α → Except ε β} {b : β} :
    x >>= f = .ok b ↔ ∃ a, x = .ok a ∧ f a = .ok b := by
  cases x with
  | error e =>
    refine ⟨nofun, ?_⟩
    rintro ⟨a, hNone, -⟩
    cases hNone
  | ok a =>
    refine ⟨fun h => ⟨a, rfl, h⟩, ?_⟩
    rintro ⟨_, ha, h⟩
    obtain rfl := Except.ok.inj ha
    exact h

theorem bind_eq_error_iff {x : Except ε α} {f : α → Except ε β} {e : ε} :
    x >>= f = .error e ↔ x = .error e ∨ ∃ a, x = .ok a ∧ f a = .error e := by
  cases x with
  | error e' =>
    refine ⟨fun h => .inl (congrArg Except.error (Except.error.inj h)), ?_⟩
    rintro (h | ⟨a, hNone, -⟩)
    · obtain rfl := Except.error.inj h
      rfl
    · cases hNone
  | ok a =>
    refine ⟨fun h => .inr ⟨a, rfl, h⟩, ?_⟩
    rintro (hNone | ⟨_, ha, h⟩)
    · cases hNone
    · obtain rfl := Except.ok.inj ha
      exact h

theorem map_eq_ok_iff {x : Except ε α} {f : α → β} {b : β} :
    x.map f = .ok b ↔ ∃ a, x = .ok a ∧ f a = b := by
  cases x with
  | error e =>
    refine ⟨nofun, ?_⟩
    rintro ⟨a, hNone, -⟩
    cases hNone
  | ok a => simp [Except.map]

inductive Together (S : α → β → Prop) : Except ε α → Except ε' β → Prop
  | ok {x : α} {y : β} (h : S x y) : Together S (.ok x) (.ok y)
  | error (e : ε) (e' : ε') : Together S (.error e) (.error e')

namespace Together

variable {S : α → β → Prop} {T : γ → δ → Prop} {first : Except ε α} {second : Except ε' β}

theorem bind {f : α → Except ε γ} {g : β → Except ε' δ} (h : Together S first second)
    (hNext : ∀ x y, S x y → Together T (f x) (g y)) : Together T (first >>= f) (second >>= g) := by
  cases h with
  | ok h => exact hNext _ _ h
  | error e e' => exact .error e e'

theorem map {f : α → γ} {g : β → δ} (h : Together S first second)
    (hNext : ∀ x y, S x y → T (f x) (g y)) : Together T (first.map f) (second.map g) := by
  cases h with
  | ok h => exact .ok (hNext _ _ h)
  | error e e' => exact .error e e'

theorem refl (first : Except ε α) : Together Eq first first := by
  cases first with
  | ok x => exact .ok rfl
  | error e => exact .error e e

theorem ok_iff {second : Except ε' α} (h : Together Eq first second) (x : α) :
    first = .ok x ↔ second = .ok x := by
  cases h with
  | ok h => simp [h]
  | error e e' => exact ⟨nofun, nofun⟩

theorem of_eq {P : α → Prop} {second : Except ε' α} (h : Together Eq first second)
    (hSecond : ∀ x, second = .ok x → P x) : Together (fun x y => x = y ∧ P x) first second := by
  cases h with
  | ok h =>
    subst h
    exact .ok ⟨rfl, hSecond _ rfl⟩
  | error e e' => exact .error e e'

theorem of_ok_iff {second : Except ε' α} (h : ∀ x, first = .ok x ↔ second = .ok x) :
    Together Eq first second := by
  cases first with
  | ok x =>
    rw [(h x).mp rfl]
    exact .ok rfl
  | error e =>
    cases second with
    | ok y => cases (h y).mpr rfl
    | error e' => exact .error e e'

end Together

/-- The same fault, or results that are related. -/
inductive Alike (S : α → β → Prop) : Except ε α → Except ε β → Prop
  | ok {x : α} {y : β} (h : S x y) : Alike S (.ok x) (.ok y)
  | error (e : ε) : Alike S (.error e) (.error e)

namespace Alike

variable {S : α → β → Prop} {T : γ → δ → Prop} {first : Except ε α} {second : Except ε β}

theorem bind {f : α → Except ε γ} {g : β → Except ε δ} (h : Alike S first second)
    (hNext : ∀ x y, S x y → Alike T (f x) (g y)) : Alike T (first >>= f) (second >>= g) := by
  cases h with
  | ok h => exact hNext _ _ h
  | error e => exact .error e

theorem map {f : α → γ} {g : β → δ} (h : Alike S first second)
    (hNext : ∀ x y, S x y → T (f x) (g y)) : Alike T (first.map f) (second.map g) := by
  cases h with
  | ok h => exact .ok (hNext _ _ h)
  | error e => exact .error e

theorem eq {first second : Except ε α} (h : Alike Eq first second) : first = second := by
  cases h with
  | ok h => rw [h]
  | error e => rfl

end Alike

end Manuscript
