import Manuscript.Text.Numeral

/-!
# Plain numerals

A number has many numerals, because a plus sign and zeros in front do not count. One of them is plain,
and it is the one in which the number is written.
-/

namespace Manuscript.Text

/-- A numeral without a sign and without a zero in front of other digits. -/
def IsPlain (cs : List Char) : Prop :=
  cs.head? ≠ some '+' ∧ (cs.head? = some '0' → cs = ['0'])

instance (cs : List Char) : Decidable (IsPlain cs) :=
  inferInstanceAs (Decidable (_ ∧ _))

theorem digit_lt_ten {c : Char} (h : c.isDigit = true) : c.toNat - '0'.toNat < 10 := by
  rw [Char.isDigit_iff_toNat] at h
  have hNine : '9'.toNat = '0'.toNat + 9 := rfl
  omega

theorem digitChar_digit {c : Char} (h : c.isDigit = true) :
    (c.toNat - '0'.toNat).digitChar = c := by
  have hLow := (Char.isDigit_iff_toNat.mp h).1
  apply Char.toNat_inj.mp
  rw [Nat.toNat_digitChar_of_lt_ten (digit_lt_ten h)]
  exact Nat.add_sub_cancel' hLow

/-- Digits behind a number that is written in front of them. -/
theorem toDigits_ofDigitChars {cs : List Char} (h : ∀ c ∈ cs, c.isDigit = true) {n : Nat}
    (hn : 0 < n) : Nat.toDigits 10 (Nat.ofDigitChars 10 cs n) = Nat.toDigits 10 n ++ cs := by
  induction cs generalizing n with
  | nil => exact (List.append_nil _).symm
  | cons c rest ih =>
    have hDigit := h c List.mem_cons_self
    have hLess := digit_lt_ten hDigit
    -- The number so far stays positive, so that no digit of it is an idle zero.
    have hRest := ih (fun d hd => h d (List.mem_cons_of_mem c hd))
      (n := 10 * n + (c.toNat - '0'.toNat)) (by omega)
    rw [Nat.ofDigitChars_cons, hRest, ← Nat.toDigits_append_toDigits (by decide) hn hLess,
      Nat.toDigits_of_lt_base hLess, digitChar_digit hDigit, List.append_assoc]
    rfl

theorem head_toDigits_ne_zero {n : Nat} (hn : 0 < n) : (Nat.toDigits 10 n).head? ≠ some '0' := by
  induction n using Nat.strongRecOn with
  | _ n ih =>
    by_cases hSmall : n < 10
    · rw [Nat.toDigits_of_lt_base hSmall]
      intro hZero
      have hEq := Nat.digitChar_eq_zero.mp (Option.some.inj hZero)
      omega
    · have hHead := ih (n / 10) (by omega) (by omega)
      obtain ⟨c, rest, hDigits⟩ := List.exists_cons_of_ne_nil (Nat.toDigits_ne_nil (n := n / 10))
      rw [hDigits] at hHead
      rw [Nat.toDigits_of_base_le (by decide) (by omega), hDigits]
      exact hHead

theorem isPlain_toDigits (n : Nat) : IsPlain (Nat.toDigits 10 n) := by
  constructor
  · intro hSign
    have hMem := List.mem_of_mem_head? hSign
    exact absurd (Nat.isDigit_of_mem_toDigits (by decide) (by decide) hMem) (by decide)
  · intro hZero
    rcases Nat.eq_zero_or_pos n with rfl | hn
    · rfl
    · exact absurd hZero (head_toDigits_ne_zero hn)

/-- A plain numeral is the one in which its number is written. -/
theorem toDigits_eq_iff_isPlain {bound n : Nat} {cs : List Char} (h : numeral? bound cs = some n) :
    Nat.toDigits 10 n = cs ↔ IsPlain cs := by
  constructor
  · rintro rfl
    exact isPlain_toDigits n
  · rintro ⟨hSign, hZero⟩
    rw [numeral?, if_neg hSign, Option.filter_eq_some_iff, digits?] at h
    obtain ⟨hValue, -⟩ := h
    split at hValue
    · rename_i hDigits
      have hAll := List.all_eq_true.mp hDigits.2
      obtain rfl := Option.some.inj hValue
      cases cs with
      | nil => exact absurd rfl hDigits.1
      | cons c rest =>
        by_cases hHead : c = '0'
        · rw [hZero (congrArg some hHead)]
          rfl
        · have hDigit := hAll c List.mem_cons_self
          have hLess := digit_lt_ten hDigit
          have hPos : 0 < c.toNat - '0'.toNat := by
            rw [Nat.pos_iff_ne_zero, ne_eq, ← Nat.digitChar_eq_zero, digitChar_digit hDigit]
            exact hHead
          rw [Nat.ofDigitChars_cons, Nat.mul_zero, Nat.zero_add,
            toDigits_ofDigitChars (fun d hd => hAll d (List.mem_cons_of_mem c hd)) hPos,
            Nat.toDigits_of_lt_base hLess, digitChar_digit hDigit]
          rfl
    · cases hValue

end Manuscript.Text
