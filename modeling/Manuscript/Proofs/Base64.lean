import Manuscript.Base64
import Manuscript.Proofs.Except
import Manuscript.Proofs.Text.Glyph

/-!
# Base64 reads back

The symbols of any bytes are read as these bytes again: whole groups one after the other, and the
last group with its padding. No other symbols are read as these bytes, so each text is the form of some
bytes or refused.
-/

namespace Manuscript.Base64

open Text (bytesOfText bytesOfText_ofList)

/-! ## Symbols -/

theorem sextet?_symbol {n : Nat} (h : n < 64) : sextet? (symbol n) = some n := by
  have hAll : ∀ n < 64, sextet? (symbol n) = some n := by decide
  exact hAll n h

theorem symbol_ne_pad {n : Nat} (h : n < 64) : symbol n ≠ pad := by
  have hAll : ∀ n < 64, symbol n ≠ pad := by decide
  exact hAll n h

theorem symbol_lt (n : Nat) : (symbol n).toNat < 128 := by
  rw [symbol]
  split_ifs with hUpper hLower hDigit hPlus
  · rw [UInt8.toNat_ofNat']
    omega
  · rw [UInt8.toNat_ofNat']
    omega
  · rw [UInt8.toNat_ofNat']
    omega
  · decide
  · decide

theorem sextet_symbol {n : Nat} (h : n < 64) (offset : Nat) :
    sextet offset (symbol n) = .ok n := by
  rw [sextet, sextet?_symbol h]

theorem triple_eq (a b c : UInt8) :
    triple (a.toNat / 4) (a.toNat % 4 * 16 + b.toNat / 16) (b.toNat % 16 * 4 + c.toNat / 64)
      (c.toNat % 64) = [a, b, c] := by
  have ha := a.toNat_lt
  have hb := b.toNat_lt
  have hc := c.toNat_lt
  have hFirst : a.toNat / 4 * 4 + (a.toNat % 4 * 16 + b.toNat / 16) / 16 = a.toNat := by omega
  have hSecond : (a.toNat % 4 * 16 + b.toNat / 16) % 16 * 16 +
      (b.toNat % 16 * 4 + c.toNat / 64) / 4 = b.toNat := by omega
  have hThird : (b.toNat % 16 * 4 + c.toNat / 64) % 4 * 64 + c.toNat % 64 = c.toNat := by omega
  rw [triple, hFirst, hSecond, hThird, UInt8.ofNat_toNat, UInt8.ofNat_toNat, UInt8.ofNat_toNat]

/-! ## Groups -/

theorem mapM_sextet {ns : List Nat} (h : ∀ n ∈ ns, n < 64) (offset start : Nat) :
    (((ns.map symbol).zipIdx start).mapM fun (b, i) => do
      let n ← sextet (offset + i) b
      return (b, n)) = (.ok (ns.map fun n => (symbol n, n)) : Except Fault _) := by
  induction ns generalizing start with
  | nil => rfl
  | cons n rest ih =>
    rw [List.map_cons, List.zipIdx_cons, List.mapM_cons,
      ih fun n hn => h n (List.mem_cons_of_mem _ hn)]
    dsimp only
    rw [sextet_symbol (h n List.mem_cons_self)]
    rfl

theorem takeWhile_symbols {ns : List Nat} (h : ∀ n ∈ ns, n < 64) (padding : Nat) :
    (ns.map symbol ++ List.replicate padding pad).takeWhile (· != pad) = ns.map symbol := by
  have hSymbols : ∀ b ∈ ns.map symbol, (b != pad) = true := by
    intro b hb
    obtain ⟨n, hn, rfl⟩ := List.mem_map.mp hb
    exact bne_iff_ne.mpr (symbol_ne_pad (h n hn))
  rw [List.takeWhile_append_of_pos hSymbols]
  cases padding with
  | zero => exact List.append_nil _
  | succ padding =>
    rw [List.replicate_succ, List.takeWhile_cons_of_neg (by simp), List.append_nil]

/-- The last group is taken apart into its symbols and its padding. -/
theorem lastSymbols_symbols {ns : List Nat} (h : ∀ n ∈ ns, n < 64) (hTwo : 2 ≤ ns.length)
    (offset padding : Nat) :
    lastSymbols offset (ns.map symbol ++ List.replicate padding pad) =
      .ok (ns.map fun n => (symbol n, n), padding) := by
  have hLegal : ¬ (List.replicate padding pad ≠ [] ∧ ((ns.map symbol).length < 2 ∨
      ¬ (List.replicate padding pad).all (· == pad) = true)) := by
    rintro ⟨-, hShort | hOther⟩
    · rw [List.length_map] at hShort
      omega
    · exact hOther (List.all_eq_true.mpr fun b hb => beq_iff_eq.mpr (List.eq_of_mem_replicate hb))
  rw [lastSymbols, takeWhile_symbols h]
  dsimp only
  rw [mapM_sextet h, List.drop_left' (i := (ns.map symbol).length) rfl]
  change (if _ then _ else _) = _
  rw [if_neg hLegal, List.length_replicate]
  rfl

theorem decodeLast_one (a : UInt8) (offset : Nat) :
    decodeLast offset [symbol (a.toNat / 4), symbol (a.toNat % 4 * 16), pad, pad] = .ok [a] := by
  have ha := a.toNat_lt
  have hSmall : ∀ n ∈ [a.toNat / 4, a.toNat % 4 * 16], n < 64 := by simp; omega
  have hSymbols := lastSymbols_symbols hSmall (Nat.le_refl 2) offset 2
  have hTriple : triple (a.toNat / 4) (a.toNat % 4 * 16) 0 0 = [a, 0, 0] := triple_eq a 0 0
  simp only [List.map_cons, List.map_nil, List.cons_append, List.nil_append, List.replicate]
    at hSymbols
  simp [decodeLast, hSymbols, hTriple, bind, Except.bind, pure, Except.pure]

theorem decodeLast_two (a b : UInt8) (offset : Nat) :
    decodeLast offset [symbol (a.toNat / 4), symbol (a.toNat % 4 * 16 + b.toNat / 16),
      symbol (b.toNat % 16 * 4), pad] = .ok [a, b] := by
  have ha := a.toNat_lt
  have hb := b.toNat_lt
  have hSmall : ∀ n ∈ [a.toNat / 4, a.toNat % 4 * 16 + b.toNat / 16, b.toNat % 16 * 4], n < 64 := by
    simp
    omega
  have hSymbols := lastSymbols_symbols hSmall (Nat.le_succ 2) offset 1
  have hTriple : triple (a.toNat / 4) (a.toNat % 4 * 16 + b.toNat / 16) (b.toNat % 16 * 4) 0 =
      [a, b, 0] := triple_eq a b 0
  simp only [List.map_cons, List.map_nil, List.cons_append, List.nil_append, List.replicate]
    at hSymbols
  simp [decodeLast, hSymbols, hTriple, bind, Except.bind, pure, Except.pure]

theorem decodeLast_three (a b c : UInt8) (offset : Nat) :
    decodeLast offset [symbol (a.toNat / 4), symbol (a.toNat % 4 * 16 + b.toNat / 16),
      symbol (b.toNat % 16 * 4 + c.toNat / 64), symbol (c.toNat % 64)] = .ok [a, b, c] := by
  have ha := a.toNat_lt
  have hb := b.toNat_lt
  have hc := c.toNat_lt
  have hSmall : ∀ n ∈ [a.toNat / 4, a.toNat % 4 * 16 + b.toNat / 16,
      b.toNat % 16 * 4 + c.toNat / 64, c.toNat % 64], n < 64 := by
    simp
    omega
  have hSymbols := lastSymbols_symbols hSmall (by simp) offset 0
  simp only [List.map_cons, List.map_nil, List.cons_append, List.nil_append, List.replicate]
    at hSymbols
  simp [decodeLast, hSymbols, triple_eq, bind, Except.bind, pure, Except.pure]

theorem eq_nil_of_encodeBytes {bytes : List UInt8} (h : encodeBytes bytes = []) : bytes = [] := by
  fun_cases encodeBytes bytes with
  | case1 | case2 | case3 => cases h
  | case4 => rfl

/-- All groups but the last one are whole, so the padding is met in the last one only. -/
theorem decodeFrom_encodeBytes (bytes : List UInt8) (offset : Nat) :
    decodeFrom offset (encodeBytes bytes) = .ok bytes := by
  fun_induction encodeBytes bytes generalizing offset with
  | case1 a b c rest ih =>
    have ha := a.toNat_lt
    have hb := b.toNat_lt
    have hc := c.toNat_lt
    cases hMore : encodeBytes rest with
    | nil =>
      rw [eq_nil_of_encodeBytes hMore]
      exact decodeLast_three a b c offset
    | cons e more =>
      rw [decodeFrom, sextet_symbol (by omega), sextet_symbol (by omega), sextet_symbol (by omega),
        sextet_symbol (by omega), ← hMore]
      dsimp only [bind, Except.bind]
      rw [ih, triple_eq]
      rfl
  | case2 a b => exact decodeLast_two a b offset
  | case3 a => exact decodeLast_one a offset
  | case4 => rfl

theorem length_encodeBytes (bytes : List UInt8) : (encodeBytes bytes).length % 4 = 0 := by
  fun_induction encodeBytes bytes with
  | case1 a b c rest ih =>
    simp only [List.length_cons]
    omega
  | case2 | case3 | case4 => simp

theorem decodeBytes_encodeBytes (bytes : List UInt8) :
    decodeBytes (encodeBytes bytes) = .ok bytes := by
  have hLength := length_encodeBytes bytes
  rw [decodeBytes, if_neg (by omega)]
  exact decodeFrom_encodeBytes bytes 0

/-! ## Symbols that are read -/

theorem symbol_of_sextet? {b : UInt8} {n : Nat} (h : sextet? b = some n) :
    n < 64 ∧ symbol n = b := by
  have hByte : UInt8.ofNat b.toNat = b := UInt8.ofNat_toNat
  rw [sextet?] at h
  simp only [Bool.and_eq_true, decide_eq_true_eq, UInt8.le_iff_toNat_le, UInt8.reduceToNat] at h
  split_ifs at h with hUpper hLower hDigit hPlus hSlash
  · obtain rfl := Option.some.inj h
    rw [symbol, if_pos (by omega), Nat.add_sub_of_le hUpper.1]
    exact ⟨by omega, hByte⟩
  · obtain rfl := Option.some.inj h
    rw [symbol, if_neg (by omega), if_pos (by omega), Nat.add_sub_cancel,
      Nat.add_sub_of_le hLower.1]
    exact ⟨by omega, hByte⟩
  · obtain rfl := Option.some.inj h
    rw [symbol, if_neg (by omega), if_neg (by omega), if_pos (by omega), Nat.add_sub_cancel,
      Nat.add_sub_of_le hDigit.1]
    exact ⟨by omega, hByte⟩
  · obtain rfl := Option.some.inj h
    rw [hPlus]
    decide
  · obtain rfl := Option.some.inj h
    rw [hSlash]
    decide

theorem symbol_of_sextet {b : UInt8} {n offset : Nat} (h : sextet offset b = .ok n) :
    n < 64 ∧ symbol n = b := by
  rw [sextet] at h
  split at h
  · rename_i n' hn
    obtain rfl := Except.ok.inj h
    exact symbol_of_sextet? hn
  · cases h

theorem encodeBytes_triple {n₀ n₁ n₂ n₃ : Nat} (h₀ : n₀ < 64) (h₁ : n₁ < 64) (h₂ : n₂ < 64)
    (h₃ : n₃ < 64) (rest : List UInt8) :
    encodeBytes (triple n₀ n₁ n₂ n₃ ++ rest) =
      symbol n₀ :: symbol n₁ :: symbol n₂ :: symbol n₃ :: encodeBytes rest := by
  have hFirst : (UInt8.ofNat (n₀ * 4 + n₁ / 16)).toNat = n₀ * 4 + n₁ / 16 := by
    rw [UInt8.toNat_ofNat']
    omega
  have hSecond : (UInt8.ofNat (n₁ % 16 * 16 + n₂ / 4)).toNat = n₁ % 16 * 16 + n₂ / 4 := by
    rw [UInt8.toNat_ofNat']
    omega
  have hThird : (UInt8.ofNat (n₂ % 4 * 64 + n₃)).toNat = n₂ % 4 * 64 + n₃ := by
    rw [UInt8.toNat_ofNat']
    omega
  have hA : (n₀ * 4 + n₁ / 16) / 4 = n₀ := by omega
  have hB : (n₀ * 4 + n₁ / 16) % 4 * 16 + (n₁ % 16 * 16 + n₂ / 4) / 16 = n₁ := by omega
  have hC : (n₁ % 16 * 16 + n₂ / 4) % 16 * 4 + (n₂ % 4 * 64 + n₃) / 64 = n₂ := by omega
  have hD : (n₂ % 4 * 64 + n₃) % 64 = n₃ := by omega
  rw [triple, List.cons_append, List.cons_append, List.cons_append, List.nil_append, encodeBytes,
    hFirst, hSecond, hThird, hA, hB, hC, hD]

theorem encodeBytes_take_one {n₀ n₁ : Nat} (h₀ : n₀ < 64) (h₁ : n₁ < 64) (hSpare : n₁ % 16 = 0) :
    encodeBytes ((triple n₀ n₁ 0 0).take 1) = [symbol n₀, symbol n₁, pad, pad] := by
  have hFirst : (UInt8.ofNat (n₀ * 4 + n₁ / 16)).toNat = n₀ * 4 + n₁ / 16 := by
    rw [UInt8.toNat_ofNat']
    omega
  have hA : (n₀ * 4 + n₁ / 16) / 4 = n₀ := by omega
  have hB : (n₀ * 4 + n₁ / 16) % 4 * 16 = n₁ := by omega
  change encodeBytes [UInt8.ofNat (n₀ * 4 + n₁ / 16)] = _
  rw [encodeBytes, hFirst, hA, hB]

theorem encodeBytes_take_two {n₀ n₁ n₂ : Nat} (h₀ : n₀ < 64) (h₁ : n₁ < 64) (h₂ : n₂ < 64)
    (hSpare : n₂ % 4 = 0) :
    encodeBytes ((triple n₀ n₁ n₂ 0).take 2) = [symbol n₀, symbol n₁, symbol n₂, pad] := by
  have hFirst : (UInt8.ofNat (n₀ * 4 + n₁ / 16)).toNat = n₀ * 4 + n₁ / 16 := by
    rw [UInt8.toNat_ofNat']
    omega
  have hSecond : (UInt8.ofNat (n₁ % 16 * 16 + n₂ / 4)).toNat = n₁ % 16 * 16 + n₂ / 4 := by
    rw [UInt8.toNat_ofNat']
    omega
  have hA : (n₀ * 4 + n₁ / 16) / 4 = n₀ := by omega
  have hB : (n₀ * 4 + n₁ / 16) % 4 * 16 + (n₁ % 16 * 16 + n₂ / 4) / 16 = n₁ := by omega
  have hC : (n₁ % 16 * 16 + n₂ / 4) % 16 * 4 = n₂ := by omega
  change encodeBytes [UInt8.ofNat (n₀ * 4 + n₁ / 16), UInt8.ofNat (n₁ % 16 * 16 + n₂ / 4)] = _
  rw [encodeBytes, hFirst, hSecond, hA, hB, hC]

theorem mapM_sextet_eq_ok {symbols : List UInt8} {offset start : Nat} {read : List (UInt8 × Nat)}
    (h : ((symbols.zipIdx start).mapM fun (b, i) => do
      let n ← sextet (offset + i) b
      return (b, n)) = (.ok read : Except Fault _)) :
    (∀ e ∈ read, e.2 < 64) ∧ read.map (fun e => symbol e.2) = symbols := by
  induction symbols generalizing start read with
  | nil =>
    obtain rfl := Except.ok.inj h
    exact ⟨nofun, rfl⟩
  | cons b rest ih =>
    rw [List.zipIdx_cons, List.mapM_cons, bind_eq_ok_iff] at h
    obtain ⟨e, hFirst, h⟩ := h
    obtain ⟨n, hSextet, hFirst⟩ := bind_eq_ok_iff.mp hFirst
    obtain rfl := Except.ok.inj hFirst
    obtain ⟨others, hRest, h⟩ := bind_eq_ok_iff.mp h
    obtain rfl := Except.ok.inj h
    obtain ⟨hSmall, hSymbols⟩ := ih hRest
    obtain ⟨hn, hSymbol⟩ := symbol_of_sextet hSextet
    refine ⟨List.forall_mem_cons.mpr ⟨hn, hSmall⟩, ?_⟩
    rw [List.map_cons, hSymbols, hSymbol]

/-- A last group that is taken apart consists of its symbols and its padding. -/
theorem lastSymbols_eq_ok {group : List UInt8} {offset padding : Nat} {read : List (UInt8 × Nat)}
    (h : lastSymbols offset group = .ok (read, padding)) :
    (∀ e ∈ read, e.2 < 64) ∧
      read.map (fun e => symbol e.2) ++ List.replicate padding pad = group := by
  rw [lastSymbols, bind_eq_ok_iff] at h
  obtain ⟨found, hRead, h⟩ := h
  obtain ⟨hSmall, hSymbols⟩ := mapM_sextet_eq_ok hRead
  split at h
  · cases h
  · rename_i hLegal
    cases h
    have hSplit := List.prefix_iff_eq_append.mp (List.takeWhile_prefix (l := group) (· != pad))
    have hPadding : ∀ b ∈ group.drop (group.takeWhile (· != pad)).length, b = pad := by
      intro b hb
      have hAll := Decidable.not_not.mp (not_or.mp (not_and.mp hLegal (List.ne_nil_of_mem hb))).2
      exact beq_iff_eq.mp (List.all_eq_true.mp hAll b hb)
    refine ⟨hSmall, ?_⟩
    rw [hSymbols, ← List.eq_replicate_of_mem hPadding, hSplit]

theorem encodeBytes_of_decodeLast {group bytes : List UInt8} {offset : Nat}
    (hLength : group.length ≤ 4) (h : decodeLast offset group = .ok bytes) :
    encodeBytes bytes = group := by
  rw [decodeLast, bind_eq_ok_iff] at h
  obtain ⟨⟨read, padding⟩, hRead, h⟩ := h
  obtain ⟨hSmall, rfl⟩ := lastSymbols_eq_ok hRead
  rw [List.length_append, List.length_map, List.length_replicate] at hLength
  dsimp only at h
  split at h
  · cases h
  rename_i hTwo
  split at h
  · cases h
  rename_i hWhole
  -- Two, three or four symbols, and as much padding as makes four of them.
  match read, h with
  | [], _ | [_], _ => simp at hTwo
  | [(_, n₀), (_, n₁)], h =>
    obtain rfl : padding = 2 := by simp at hLength hWhole; omega
    simp only [List.forall_mem_cons] at hSmall
    dsimp only at h
    split at h
    · cases h
    rename_i hSpare
    obtain rfl := Except.ok.inj h
    exact encodeBytes_take_one hSmall.1 hSmall.2.1 (Decidable.not_not.mp hSpare)
  | [(_, n₀), (_, n₁), (_, n₂)], h =>
    obtain rfl : padding = 1 := by simp at hLength hWhole; omega
    simp only [List.forall_mem_cons] at hSmall
    dsimp only at h
    split at h
    · cases h
    rename_i hSpare
    obtain rfl := Except.ok.inj h
    exact encodeBytes_take_two hSmall.1 hSmall.2.1 hSmall.2.2.1 (Decidable.not_not.mp hSpare)
  | [(_, n₀), (_, n₁), (_, n₂), (_, n₃)], h =>
    obtain rfl : padding = 0 := by simp at hLength; omega
    simp only [List.forall_mem_cons] at hSmall
    obtain rfl := Except.ok.inj h
    have hGroup := encodeBytes_triple hSmall.1 hSmall.2.1 hSmall.2.2.1 hSmall.2.2.2.1 []
    rwa [List.append_nil] at hGroup
  | _ :: _ :: _ :: _ :: _ :: _, _ => simp at hLength; omega

theorem encodeBytes_of_decodeFrom {symbols bytes : List UInt8} {offset : Nat}
    (h : decodeFrom offset symbols = .ok bytes) : encodeBytes bytes = symbols := by
  fun_induction decodeFrom offset symbols generalizing bytes with
  | case1 offset a b c d e rest ih =>
    obtain ⟨n₀, h₀, h⟩ := bind_eq_ok_iff.mp h
    obtain ⟨n₁, h₁, h⟩ := bind_eq_ok_iff.mp h
    obtain ⟨n₂, h₂, h⟩ := bind_eq_ok_iff.mp h
    obtain ⟨n₃, h₃, h⟩ := bind_eq_ok_iff.mp h
    obtain ⟨more, hMore, h⟩ := bind_eq_ok_iff.mp h
    obtain rfl := Except.ok.inj h
    obtain ⟨hSmall₀, rfl⟩ := symbol_of_sextet h₀
    obtain ⟨hSmall₁, rfl⟩ := symbol_of_sextet h₁
    obtain ⟨hSmall₂, rfl⟩ := symbol_of_sextet h₂
    obtain ⟨hSmall₃, rfl⟩ := symbol_of_sextet h₃
    rw [encodeBytes_triple hSmall₀ hSmall₁ hSmall₂ hSmall₃, ih hMore]
  | case2 =>
    obtain rfl := Except.ok.inj h
    rfl
  | case3 offset group hShort hNonempty =>
    refine encodeBytes_of_decodeLast ?_ h
    match group with
    | [] | [_] | [_, _] | [_, _, _] | [_, _, _, _] => simp
    | a :: b :: c :: d :: e :: rest => exact (hShort a b c d e rest rfl).elim

theorem decodeFrom_of_decodeBytes {symbols bytes : List UInt8} (h : decodeBytes symbols = .ok bytes) :
    decodeFrom 0 symbols = .ok bytes := by
  rw [decodeBytes] at h
  split at h
  · split at h
    · split at h
      · cases h
      · exact h
    · exact h
  · exact h

/-! ## Texts -/

theorem lt_of_mem_encodeBytes (bytes : List UInt8) : ∀ b ∈ encodeBytes bytes, b.toNat < 128 := by
  have hPad : pad.toNat < 128 := by decide
  fun_induction encodeBytes bytes with
  | case1 a b c rest ih => simpa [symbol_lt] using ih
  | case2 | case3 => simp [symbol_lt, hPad]
  | case4 => nofun

theorem utf8EncodeChar_byte {b : UInt8} (h : b.toNat < 128) :
    String.utf8EncodeChar (Char.ofNat b.toNat) = [b] := by
  have hAll : ∀ n < 128, String.utf8EncodeChar (Char.ofNat n) = [UInt8.ofNat n] := by decide
  rw [hAll b.toNat h, UInt8.ofNat_toNat]

theorem flatMap_utf8EncodeChar {symbols : List UInt8} (h : ∀ b ∈ symbols, b.toNat < 128) :
    (symbols.map fun b => Char.ofNat b.toNat).flatMap String.utf8EncodeChar = symbols := by
  induction symbols with
  | nil => rfl
  | cons b rest ih =>
    rw [List.map_cons, List.flatMap_cons, utf8EncodeChar_byte (h b List.mem_cons_self),
      ih fun b hb => h b (List.mem_cons_of_mem _ hb)]
    rfl

theorem bytesOfText_encode (bytes : List UInt8) : bytesOfText (encode bytes) = encodeBytes bytes := by
  rw [encode, Text.bytesOfText_ofList, flatMap_utf8EncodeChar (lt_of_mem_encodeBytes bytes)]

/-- Bytes are read back from their text. -/
theorem decode_encode (bytes : List UInt8) : decode (encode bytes) = .ok bytes := by
  rw [decode]
  change decodeBytes (bytesOfText (encode bytes)) = _
  rw [bytesOfText_encode, decodeBytes_encodeBytes]

/-- A text spells some bytes only if it is what these bytes are written as. -/
theorem decode_eq_ok_iff {s : String} {bytes : List UInt8} :
    decode s = .ok bytes ↔ s = encode bytes := by
  constructor
  · intro h
    change decodeBytes (bytesOfText s) = .ok bytes at h
    have hFrom := decodeFrom_of_decodeBytes h
    have hBytes : bytesOfText (encode bytes) = bytesOfText s := by
      rw [bytesOfText_encode, encodeBytes_of_decodeFrom hFrom]
    have hText := Text.textOfBytes?_bytesOfText s
    rw [← hBytes, Text.textOfBytes?_bytesOfText] at hText
    exact (Option.some.inj hText).symm
  · rintro rfl
    exact decode_encode bytes

end Manuscript.Base64
