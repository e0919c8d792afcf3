import Mathlib.Data.List.Basic
import Mathlib.Data.Nat.Digits.Defs
import Manuscript.Proofs.Base64

/-!
# What a text of symbols spells

Symbols are digits to the base 64 and bytes are digits to the base 256. A text spells the bytes that
show the same number, moved by two bits for each sign of padding, and each number of bytes is spelled
in one length only. So bytes have one spelling, and it is what they are written as.
-/

namespace Manuscript.Base64

def alphabet : List Char :=
  "ABCDEFGHIJKLMNOPQRSTUVWXYZabcdefghijklmnopqrstuvwxyz0123456789+/".toList

/-- The number with some digits, the first of which counts most. -/
def valueOf (base : Nat) (digits : List Nat) : Nat :=
  Nat.ofDigits base digits.reverse

/-- A text of symbols and padding spells some bytes if it is as long as their bits need and shows the
same number. The bits that no byte takes are zero then. -/
structure Spelling (s : String) (bytes : List UInt8) (symbols : List Char) (padding : Nat) :
    Prop where
  text : s.toList = symbols ++ List.replicate padding '='
  known : ∀ c ∈ symbols, c ∈ alphabet
  padded : padding ≤ 2
  bits : 6 * symbols.length = 8 * bytes.length + 2 * padding
  value : valueOf 64 (symbols.map alphabet.idxOf) =
    valueOf 256 (bytes.map UInt8.toNat) * 4 ^ padding

def Spells (s : String) (bytes : List UInt8) : Prop :=
  ∃ symbols padding, Spelling s bytes symbols padding

/-! ## Numbers -/

theorem valueOf_append (base : Nat) (first rest : List Nat) :
    valueOf base (first ++ rest) = valueOf base first * base ^ rest.length + valueOf base rest := by
  rw [valueOf, valueOf, valueOf, List.reverse_append, Nat.ofDigits_append, List.length_reverse]
  ring

@[simp]
theorem valueOf_nil (base : Nat) : valueOf base [] = 0 := rfl

@[simp]
theorem valueOf_cons (base digit : Nat) (rest : List Nat) :
    valueOf base (digit :: rest) = digit * base ^ rest.length + valueOf base rest := by
  have hDigit : valueOf base [digit] = digit := Nat.ofDigits_singleton
  rw [← List.singleton_append, valueOf_append, hDigit]

theorem valueOf_inj {base : Nat} (hBase : 1 < base) {first second : List Nat}
    (hLength : first.length = second.length) (hFirst : ∀ d ∈ first, d < base)
    (hSecond : ∀ d ∈ second, d < base) (h : valueOf base first = valueOf base second) :
    first = second := by
  refine List.reverse_inj.mp (Nat.ofDigits_inj_of_len_eq hBase ?_ ?_ ?_ h)
  · simpa using hLength
  · simpa using hFirst
  · simpa using hSecond

/-! ## Symbols -/

theorem length_alphabet : alphabet.length = 64 := by decide +kernel

theorem idxOf_symbol {n : Nat} (h : n < 64) :
    alphabet.idxOf (Char.ofNat (symbol n).toNat) = n := by
  have hAll : ∀ n < 64, alphabet.idxOf (Char.ofNat (symbol n).toNat) = n := by decide +kernel
  exact hAll n h

theorem map_idxOf_symbol {digits : List Nat} (h : ∀ d ∈ digits, d < 64) :
    (digits.map fun n => Char.ofNat (symbol n).toNat).map alphabet.idxOf = digits := by
  have hSame : ∀ d ∈ digits, (alphabet.idxOf ∘ fun n => Char.ofNat (symbol n).toNat) d = id d :=
    fun d hd => idxOf_symbol (h d hd)
  rw [List.map_map, List.map_congr_left hSame, List.map_id]

theorem symbol_mem_alphabet {n : Nat} (h : n < 64) : Char.ofNat (symbol n).toNat ∈ alphabet := by
  rw [← List.idxOf_lt_length_iff, idxOf_symbol h, length_alphabet]
  exact h

theorem idxOf_lt {symbols : List Char} (h : ∀ c ∈ symbols, c ∈ alphabet) :
    ∀ d ∈ symbols.map alphabet.idxOf, d < 64 := by
  rw [← length_alphabet]
  exact List.forall_mem_map.mpr fun c hc => List.idxOf_lt_length_iff.mpr (h c hc)

theorem map_idxOf_inj {symbols symbols' : List Char} (hKnown : ∀ c ∈ symbols, c ∈ alphabet)
    (h : symbols.map alphabet.idxOf = symbols'.map alphabet.idxOf) : symbols = symbols' := by
  induction symbols generalizing symbols' with
  | nil => exact (List.map_eq_nil_iff.mp h.symm).symm
  | cons c rest ih =>
    obtain ⟨c', rest', rfl, hFirst, hRest⟩ := List.map_eq_cons_iff.mp h.symm
    rw [List.forall_mem_cons] at hKnown
    rw [(List.idxOf_inj hKnown.1).mp hFirst.symm, ih hKnown.2 hRest.symm]

/-! ## Bytes -/

/-- What bytes are written as, in digits and padding. -/
theorem exists_digits (bytes : List UInt8) :
    ∃ digits padding, encodeBytes bytes = digits.map symbol ++ List.replicate padding pad ∧
      (∀ d ∈ digits, d < 64) ∧ padding ≤ 2 ∧ 6 * digits.length = 8 * bytes.length + 2 * padding ∧
      valueOf 64 digits = valueOf 256 (bytes.map UInt8.toNat) * 4 ^ padding := by
  fun_induction encodeBytes bytes with
  | case1 a b c rest ih =>
    obtain ⟨digits, padding, hText, hSmall, hPadding, hBits, hValue⟩ := ih
    have ha := a.toNat_lt
    have hb := b.toNat_lt
    have hc := c.toNat_lt
    let group := [a.toNat / 4, a.toNat % 4 * 16 + b.toNat / 16, b.toNat % 16 * 4 + c.toNat / 64,
      c.toNat % 64]
    have hGroup : valueOf 64 group = valueOf 256 [a.toNat, b.toNat, c.toNat] := by
      simp [group]
      omega
    have hMoved : 64 ^ digits.length = 256 ^ rest.length * 4 ^ padding := by
      rw [show 64 = 2 ^ 6 from rfl, show 256 = 2 ^ 8 from rfl, show 4 = 2 ^ 2 from rfl, ← pow_mul,
        ← pow_mul, ← pow_mul, ← pow_add, hBits]
    refine ⟨group ++ digits, padding, by rw [hText]; rfl, ?_, hPadding, ?_, ?_⟩
    · simp only [group, List.forall_mem_append, List.forall_mem_cons]
      exact ⟨⟨by omega, by omega, by omega, by omega, List.forall_mem_nil _⟩, hSmall⟩
    · simp only [group, List.length_append, List.length_cons, List.length_nil]
      omega
    · change _ = valueOf 256 ([a.toNat, b.toNat, c.toNat] ++ rest.map UInt8.toNat) * _
      rw [valueOf_append, valueOf_append, hGroup, hValue, hMoved, List.length_map]
      ring
  | case2 a b =>
    have ha := a.toNat_lt
    have hb := b.toNat_lt
    refine ⟨[a.toNat / 4, a.toNat % 4 * 16 + b.toNat / 16, b.toNat % 16 * 4], 1, rfl, ?_, by simp,
      rfl, ?_⟩
    · simp only [List.forall_mem_cons]
      exact ⟨by omega, by omega, by omega, List.forall_mem_nil _⟩
    · simp
      omega
  | case3 a =>
    have ha := a.toNat_lt
    refine ⟨[a.toNat / 4, a.toNat % 4 * 16], 2, rfl, ?_, by simp, rfl, ?_⟩
    · simp only [List.forall_mem_cons]
      exact ⟨by omega, by omega, List.forall_mem_nil _⟩
    · simp
      omega
  | case4 => exact ⟨[], 0, rfl, by simp, by simp, rfl, rfl⟩

theorem spells_encode (bytes : List UInt8) : Spells (encode bytes) bytes := by
  obtain ⟨digits, padding, hText, hSmall, hPadding, hBits, hValue⟩ := exists_digits bytes
  refine ⟨digits.map fun n => Char.ofNat (symbol n).toNat, padding, ?_, ?_, hPadding, ?_, ?_⟩
  · rw [encode, String.toList_ofList, hText, List.map_append, List.map_map, List.map_replicate]
    rfl
  · exact List.forall_mem_map.mpr fun d hd => symbol_mem_alphabet (hSmall d hd)
  · rwa [List.length_map]
  · rwa [map_idxOf_symbol hSmall]

/-- No bytes are spelled by two texts. -/
theorem Spelling.unique {s s' : String} {bytes : List UInt8} {symbols symbols' : List Char}
    {padding padding' : Nat} (h : Spelling s bytes symbols padding)
    (h' : Spelling s' bytes symbols' padding') : s = s' := by
  have hBits := h.bits
  have hBits' := h'.bits
  have hPadded := h.padded
  have hPadded' := h'.padded
  obtain rfl : padding = padding' := by omega
  have hLength : symbols.length = symbols'.length := by omega
  have hDigits : symbols.map alphabet.idxOf = symbols'.map alphabet.idxOf :=
    valueOf_inj (by decide) (by simpa using hLength) (idxOf_lt h.known) (idxOf_lt h'.known)
      (h.value.trans h'.value.symm)
  obtain rfl : symbols = symbols' := map_idxOf_inj h.known hDigits
  exact String.toList_inj.mp (h.text.trans h'.text.symm)

theorem eq_encode_iff_spells {s : String} {bytes : List UInt8} :
    s = encode bytes ↔ Spells s bytes := by
  constructor
  · rintro rfl
    exact spells_encode bytes
  · rintro ⟨symbols, padding, h⟩
    obtain ⟨_, _, hEncoded⟩ := spells_encode bytes
    exact h.unique hEncoded

end Manuscript.Base64
