import Mathlib.Tactic.SplitIfs
import Manuscript.Text.Glyph

/-!
# The bytes of a text

The bytes of a text are the UTF-8 forms of its characters one after the other, and they split into
these characters again: no byte of a text is stray.
-/

namespace Manuscript.Text

theorem toList_loop (bytes : ByteArray) (i : Nat) (done : List UInt8) :
    ByteArray.toList.loop bytes i done = done.reverse ++ bytes.data.toList.drop i := by
  fun_induction ByteArray.toList.loop bytes i done with
  | case1 i done hLess ih =>
    have hIndex : i < bytes.data.toList.length := hLess
    have hByte : bytes.get! i = bytes.data.toList[i] := getElem!_pos bytes.data i hLess
    rw [ih, hByte, List.reverse_cons, List.append_assoc, List.drop_eq_getElem_cons hIndex]
    rfl
  | case2 i done hLess =>
    have hIndex : bytes.data.toList.length ≤ i := Nat.not_lt.mp hLess
    rw [List.drop_eq_nil_of_le hIndex, List.append_nil]

theorem toList_eq_toList_data (bytes : ByteArray) : bytes.toList = bytes.data.toList := by
  rw [ByteArray.toList, toList_loop]
  rfl

theorem bytesOfText_ofList (cs : List Char) :
    bytesOfText (String.ofList cs) = cs.flatMap String.utf8EncodeChar := by
  have hBytes : (String.ofList cs).toUTF8 = (cs.flatMap String.utf8EncodeChar).toByteArray := by
    have hText := String.utf8Encode_toList (b := String.ofList cs)
    rw [String.toList_ofList] at hText
    exact hText.symm
  rw [bytesOfText, hBytes, toList_eq_toList_data, List.toList_data_toByteArray]

theorem bytesOfText_eq (s : String) :
    bytesOfText s = s.toList.flatMap String.utf8EncodeChar := by
  rw [← bytesOfText_ofList, String.ofList_toList]

namespace Glyph

/-! ## The forms of a character -/

theorem ofBytes_one {a : UInt8} (h : a < 0x80) (rest : List UInt8) :
    ofBytes (a :: rest) = .char (Char.ofNat a.toNat) :: ofBytes rest := by
  rw [ofBytes.eq_def]
  exact if_pos h

theorem ofBytes_two {a b : UInt8} {c : Char} (hLead : ¬ a < 0x80) (h : two? a b = some c)
    (rest : List UInt8) : ofBytes (a :: b :: rest) = .char c :: ofBytes rest := by
  rw [ofBytes.eq_def]
  dsimp only
  rw [if_neg hLead]
  match rest with
  | [] => simp only [h, ofBytes]
  | [_] => simp only [h]
  | _ :: _ :: _ => simp only [h]

theorem ofBytes_three {a b c : UInt8} {ch : Char} (hLead : ¬ a < 0x80) (hTwo : two? a b = none)
    (h : three? a b c = some ch) (rest : List UInt8) :
    ofBytes (a :: b :: c :: rest) = .char ch :: ofBytes rest := by
  rw [ofBytes.eq_def]
  dsimp only
  rw [if_neg hLead]
  match rest with
  | [] => simp only [hTwo, h, ofBytes]
  | _ :: _ => simp only [hTwo, h]

theorem ofBytes_four {a b c d : UInt8} {ch : Char} (hLead : ¬ a < 0x80) (hTwo : two? a b = none)
    (hThree : three? a b c = none) (h : four? a b c d = some ch) (rest : List UInt8) :
    ofBytes (a :: b :: c :: d :: rest) = .char ch :: ofBytes rest := by
  rw [ofBytes.eq_def]
  dsimp only
  rw [if_neg hLead]
  simp only [hTwo, hThree, h]

theorem toNat_byte {n : Nat} (h : n < 256) : (UInt8.ofNat n).toNat = n := by
  rw [UInt8.toNat_ofNat', Nat.mod_eq_of_lt h]

theorem low_byte {n : Nat} (h : n < 64) : low (UInt8.ofNat (n + 128)) = n := by
  have hByte : (UInt8.ofNat (n + 128)).toNat = n + 128 := toNat_byte (by omega)
  exact (congrArg (· - 0x80) hByte).trans (Nat.add_sub_cancel n 0x80)

theorem continues_iff {b : UInt8} : continues b = true ↔ 0x80 ≤ b.toNat ∧ b.toNat ≤ 0xBF := by
  simp [continues, UInt8.le_iff_toNat_le]

theorem continues_byte {n : Nat} (h : n < 64) : continues (UInt8.ofNat (n + 128)) = true := by
  rw [continues_iff, toNat_byte (by omega)]
  omega

theorem two?_of_lead {a b : UInt8} (hFirst : 0xC2 ≤ a.toNat) (hLast : a.toNat ≤ 0xDF)
    (hNext : continues b = true) :
    two? a b = some (Char.ofNat ((a.toNat - 0xC0) * 64 + low b)) := by
  rw [two?, if_pos]
  simp [UInt8.le_iff_toNat_le, hFirst, hLast, hNext]

theorem two?_eq_none {a : UInt8} (h : 0xDF < a.toNat) (b : UInt8) : two? a b = none := by
  rw [two?, if_neg]
  simp [UInt8.le_iff_toNat_le]
  omega

theorem three?_of_lead {a b c : UInt8} (hFirst : 0xE0 ≤ a.toNat) (hLast : a.toNat ≤ 0xEF)
    (hShort : a.toNat = 0xE0 → 0xA0 ≤ b.toNat) (hSurrogate : a.toNat = 0xED → b.toNat ≤ 0x9F)
    (hNext : continues b = true) (hThird : continues c = true) :
    three? a b c = some (Char.ofNat ((a.toNat - 0xE0) * 4096 + low b * 64 + low c)) := by
  rw [three?, if_pos]
  simp [UInt8.le_iff_toNat_le, ← UInt8.toNat_inj, hFirst, hLast, hNext, hThird]
  omega

theorem three?_eq_none {a : UInt8} (h : 0xEF < a.toNat) (b c : UInt8) : three? a b c = none := by
  rw [three?, if_neg]
  simp [UInt8.le_iff_toNat_le]
  omega

theorem four?_of_lead {a b c d : UInt8} (hFirst : 0xF0 ≤ a.toNat) (hLast : a.toNat ≤ 0xF4)
    (hShort : a.toNat = 0xF0 → 0x90 ≤ b.toNat) (hPlane : a.toNat = 0xF4 → b.toNat ≤ 0x8F)
    (hNext : continues b = true) (hThird : continues c = true) (hFourth : continues d = true) :
    four? a b c d =
      some (Char.ofNat ((a.toNat - 0xF0) * 262144 + low b * 4096 + low c * 64 + low d)) := by
  rw [four?, if_pos]
  simp [UInt8.le_iff_toNat_le, ← UInt8.toNat_inj, hFirst, hLast, hNext, hThird, hFourth]
  omega

theorem not_lt_of_lead {a : UInt8} (h : 0x80 ≤ a.toNat) : ¬ a < 0x80 := by
  rw [UInt8.lt_iff_toNat_lt]
  exact Nat.not_lt.mpr h

theorem ofBytes_form_one {n : Nat} (h : n ≤ 127) (rest : List UInt8) :
    ofBytes (UInt8.ofNat n :: rest) = .char (Char.ofNat n) :: ofBytes rest := by
  have hLead : (UInt8.ofNat n).toNat = n := toNat_byte (by omega)
  have hAscii : UInt8.ofNat n < 0x80 := by
    rw [UInt8.lt_iff_toNat_lt, hLead]
    exact Nat.lt_succ_of_le h
  rw [ofBytes_one hAscii, hLead]

theorem ofBytes_form_two {n : Nat} (hFirst : 127 < n) (hLast : n ≤ 2047) (rest : List UInt8) :
    ofBytes (UInt8.ofNat (n / 64 % 32 + 192) :: UInt8.ofNat (n % 64 + 128) :: rest) =
      .char (Char.ofNat n) :: ofBytes rest := by
  have hLead : (UInt8.ofNat (n / 64 % 32 + 192)).toNat = n / 64 + 192 := by
    rw [toNat_byte (by omega)]
    omega
  have hForm := two?_of_lead (a := UInt8.ofNat (n / 64 % 32 + 192)) (by omega) (by omega)
    (continues_byte (Nat.mod_lt n (by decide)))
  have hCode : (n / 64 + 192 - 0xC0) * 64 + n % 64 = n := by omega
  rw [hLead, low_byte (Nat.mod_lt n (by decide)), hCode] at hForm
  exact ofBytes_two (not_lt_of_lead (by omega)) hForm rest

theorem ofBytes_form_three {n : Nat} (hFirst : 2047 < n) (hLast : n ≤ 65535)
    (hSurrogate : n < 0xD800 ∨ 0xDFFF < n) (rest : List UInt8) :
    ofBytes (UInt8.ofNat (n / 4096 % 16 + 224) :: UInt8.ofNat (n / 64 % 64 + 128) ::
        UInt8.ofNat (n % 64 + 128) :: rest) =
      .char (Char.ofNat n) :: ofBytes rest := by
  have hLead : (UInt8.ofNat (n / 4096 % 16 + 224)).toNat = n / 4096 + 224 := by
    rw [toNat_byte (by omega)]
    omega
  have hSecond : (UInt8.ofNat (n / 64 % 64 + 128)).toNat = n / 64 % 64 + 128 :=
    toNat_byte (by omega)
  have hForm := three?_of_lead (a := UInt8.ofNat (n / 4096 % 16 + 224)) (by omega) (by omega)
    (by omega) (by omega) (continues_byte (Nat.mod_lt (n / 64) (by decide)))
    (continues_byte (Nat.mod_lt n (by decide)))
  have hCode : (n / 4096 + 224 - 0xE0) * 4096 + n / 64 % 64 * 64 + n % 64 = n := by omega
  rw [hLead, low_byte (Nat.mod_lt (n / 64) (by decide)), low_byte (Nat.mod_lt n (by decide)),
    hCode] at hForm
  exact ofBytes_three (not_lt_of_lead (by omega)) (two?_eq_none (by omega) _) hForm rest

theorem ofBytes_form_four {n : Nat} (hFirst : 65535 < n) (hLast : n < 0x110000)
    (rest : List UInt8) :
    ofBytes (UInt8.ofNat (n / 262144 % 8 + 240) :: UInt8.ofNat (n / 4096 % 64 + 128) ::
        UInt8.ofNat (n / 64 % 64 + 128) :: UInt8.ofNat (n % 64 + 128) :: rest) =
      .char (Char.ofNat n) :: ofBytes rest := by
  have hLead : (UInt8.ofNat (n / 262144 % 8 + 240)).toNat = n / 262144 + 240 := by
    rw [toNat_byte (by omega)]
    omega
  have hSecond : (UInt8.ofNat (n / 4096 % 64 + 128)).toNat = n / 4096 % 64 + 128 :=
    toNat_byte (by omega)
  have hForm := four?_of_lead (a := UInt8.ofNat (n / 262144 % 8 + 240)) (by omega) (by omega)
    (by omega) (by omega) (continues_byte (Nat.mod_lt (n / 4096) (by decide)))
    (continues_byte (Nat.mod_lt (n / 64) (by decide)))
    (continues_byte (Nat.mod_lt n (by decide)))
  have hCode : (n / 262144 + 240 - 0xF0) * 262144 + n / 4096 % 64 * 4096 + n / 64 % 64 * 64 +
      n % 64 = n := by omega
  rw [hLead, low_byte (Nat.mod_lt (n / 4096) (by decide)),
    low_byte (Nat.mod_lt (n / 64) (by decide)), low_byte (Nat.mod_lt n (by decide)), hCode]
    at hForm
  exact ofBytes_four (not_lt_of_lead (by omega)) (two?_eq_none (by omega) _)
    (three?_eq_none (by omega) _ _) hForm rest

theorem ofBytes_utf8EncodeChar (c : Char) (rest : List UInt8) :
    ofBytes (String.utf8EncodeChar c ++ rest) = .char c :: ofBytes rest := by
  have hValid : c.val.toNat < 0xD800 ∨ 0xDFFF < c.val.toNat ∧ c.val.toNat < 0x110000 := c.valid
  have hChar : Char.ofNat c.val.toNat = c := Char.ofNat_toNat c
  rw [String.utf8EncodeChar]
  generalize c.val.toNat = n at hValid hChar ⊢
  rw [← hChar]
  split_ifs with hOne hTwo hThree
  · exact ofBytes_form_one hOne rest
  · exact ofBytes_form_two (by omega) hTwo rest
  · exact ofBytes_form_three (by omega) hThree (by omega) rest
  · exact ofBytes_form_four (by omega) (by omega) rest

/-- The bytes of a text split into its characters. -/
theorem ofBytes_bytesOfText (s : String) : ofBytes (bytesOfText s) = ofString s := by
  have hChars : ∀ cs : List Char, ofBytes (cs.flatMap String.utf8EncodeChar) = cs.map .char := by
    intro cs
    induction cs with
    | nil => exact ofBytes.eq_1
    | cons c rest ih => rw [List.flatMap_cons, ofBytes_utf8EncodeChar, ih, List.map_cons]
  rw [bytesOfText_eq, hChars, ofString]

end Glyph

theorem textOfBytes?_bytesOfText (s : String) : textOfBytes? (bytesOfText s) = some s := by
  rw [textOfBytes?, Glyph.ofBytes_bytesOfText, Glyph.ofString, Glyph.chars?_map_char,
    Option.map_some, String.ofList_toList]

end Manuscript.Text
