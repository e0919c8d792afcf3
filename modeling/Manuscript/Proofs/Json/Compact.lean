import Mathlib.Tactic.SplitIfs
import Manuscript.Json.Outline
import Manuscript.Json.Printer
import Manuscript.Proofs.Json.Values
import Manuscript.Proofs.Text.Numeral

/-!
# Compact texts spell their values

The compact text of a value has the tokens of the value and nothing else: strings come back through
their escapes and natural numbers through their digits, and a number ends before the mark that
follows it. The tokens of a value are then put together to its outline, at whatever place it stands.
-/

namespace Manuscript.Json

open Text (Glyph)

/-- All numbers in the value are natural numbers of at most 64 bits. -/
inductive Whole : Json → Prop
  | null : Whole .null
  | bool (b : Bool) : Whole (.bool b)
  | natural {n : Nat} (h : n < UInt64.size) : Whole (.natural n)
  | string (s : String) : Whole (.string s)
  | array {items : List Json} (h : ∀ item ∈ items, Whole item) : Whole (.array items)
  | object {members : List (String × Json)} (h : ∀ m ∈ members, Whole m.2) : Whole (.object members)

namespace Whole

theorem optional {α : Type} {write : α → Json} (h : ∀ x, Whole (write x)) (x : Option α) :
    Whole (.optional write x) := by
  cases x with
  | none => exact .null
  | some x => exact h x

theorem list {α : Type} {write : α → Json} (h : ∀ x, Whole (write x)) (xs : List α) :
    Whole (.list write xs) := by
  refine .array fun item hItem => ?_
  obtain ⟨x, _, rfl⟩ := List.mem_map.mp hItem
  exact h x

theorem word8 (n : UInt8) : Whole (.natural n.toNat) :=
  .natural (Nat.lt_trans n.toNat_lt (by decide))

theorem word32 (n : UInt32) : Whole (.natural n.toNat) :=
  .natural (Nat.lt_trans n.toNat_lt (by decide))

end Whole

mutual

/-- The tokens of the compact text of a value. -/
def tokens : Json → List Token
  | .null => [.null]
  | .bool b => [.bool b]
  | .number n => [.number (.ok n)]
  | .string s => [.string (.ok s)]
  | .array [] => [.openArray, .closeArray]
  | .array (item :: rest) => .openArray :: (tokens item ++ moreItems rest)
  | .object [] => [.openObject, .closeObject]
  | .object ((key, value) :: rest) =>
    .openObject :: .string (.ok key) :: .colon :: (tokens value ++ moreMembers rest)

def moreItems : List Json → List Token
  | [] => [.closeArray]
  | item :: rest => .comma :: (tokens item ++ moreItems rest)

def moreMembers : List (String × Json) → List Token
  | [] => [.closeObject]
  | (key, value) :: rest =>
    .comma :: .string (.ok key) :: .colon :: (tokens value ++ moreMembers rest)

end

/-! ## Strings -/

namespace StringScan

theorem scan_quote (done : List Char) (rest : List Glyph) :
    scan (.ok done) none false (.char '"' :: rest) =
      .closed (.ok (String.ofList done.reverse)) rest := by
  rw [scan.eq_def]
  rfl

theorem scan_plain {c : Char} (hQuote : c ≠ '"') (hBackslash : c ≠ '\\') (hControl : ¬ c.toNat < 0x20)
    (done : List Char) (rest : List Glyph) :
    scan (.ok done) none false (.char c :: rest) = scan (.ok (c :: done)) none false rest := by
  rw [scan.eq_def]
  simp only [Glyph.char.injEq, hQuote, hBackslash, hControl, if_false]
  rfl

theorem scan_short {e c : Char} (hUnit : e ≠ 'u') (hShort : shortEscape? (.char e) = some c)
    (done : List Char) (rest : List Glyph) :
    scan (.ok done) none false (.char '\\' :: .char e :: rest) =
      scan (.ok (c :: done)) none false rest := by
  rw [scan.eq_def]
  simp only [Glyph.char.injEq, hUnit, hShort, if_false, if_true]
  rfl

theorem hex4?_control {n : Nat} (h : n < 0x20) :
    hex4? (.char '0') (.char '0') (.char (Nat.digitChar (n / 16))) (.char (Nat.digitChar (n % 16))) =
      some n := by
  have hAll : ∀ n < 0x20, hex4? (.char '0') (.char '0') (.char (Nat.digitChar (n / 16)))
      (.char (Nat.digitChar (n % 16))) = some n := by decide
  exact hAll n h

theorem scan_unit {c : Char} (h : c.toNat < 0x20) (done : List Char) (rest : List Glyph) :
    scan (.ok done) none false
        (.char '\\' :: .char 'u' :: .char '0' :: .char '0' ::
          .char (Nat.digitChar (c.toNat / 16)) :: .char (Nat.digitChar (c.toNat % 16)) :: rest) =
      scan (.ok (c :: done)) none false rest := by
  have hPush : pushUnit (.ok done) none c.toNat = (.ok (c :: done), none) := by
    rw [pushUnit, if_neg (by omega), if_neg (by omega), Char.ofNat_toNat]
    rfl
  rw [scan.eq_def]
  simp only [hex4?_control h, hPush, if_true]
  rfl

theorem scan_escapedChar (c : Char) (done : List Char) (rest : List Glyph) :
    scan (.ok done) none false ((escapedChar c).map .char ++ rest) =
      scan (.ok (c :: done)) none false rest := by
  rw [escapedChar]
  split_ifs with hQuote hBackslash hBell hFeed hLine hReturn hTab hControl
  · subst hQuote
    exact scan_short (by decide) rfl done rest
  · subst hBackslash
    exact scan_short (by decide) rfl done rest
  · subst hBell
    exact scan_short (by decide) rfl done rest
  · subst hFeed
    exact scan_short (by decide) rfl done rest
  · subst hLine
    exact scan_short (by decide) rfl done rest
  · subst hReturn
    exact scan_short (by decide) rfl done rest
  · subst hTab
    exact scan_short (by decide) rfl done rest
  · exact scan_unit hControl done rest
  · exact scan_plain hQuote hBackslash hControl done rest

theorem scan_escaped (cs done : List Char) (rest : List Glyph) :
    scan (.ok done) none false ((cs.flatMap escapedChar).map .char ++ .char '"' :: rest) =
      .closed (.ok (String.ofList (done.reverse ++ cs))) rest := by
  induction cs generalizing done with
  | nil =>
    rw [List.append_nil]
    exact scan_quote done rest
  | cons c more ih =>
    rw [List.flatMap_cons, List.map_append, List.append_assoc, scan_escapedChar, ih,
      List.reverse_cons, List.append_assoc]
    rfl

end StringScan

/-! ## Numbers -/

/-- A text that goes on with what follows an item or a member. In front of such a text a number is
at its end: none of these marks carries it on. -/
def Delimited (rest : List Glyph) : Prop :=
  rest = [] ∨ ∃ c after, rest = .char c :: after ∧ (c = ',' ∨ c = '\n' ∨ c = ']' ∨ c = '\x7d')

theorem digitRun_digits {digits : List Char} (h : ∀ d ∈ digits, d.isDigit = true)
    {rest : List Glyph} (hRest : Delimited rest) :
    digitRun (digits.map .char ++ rest) = (digits, rest) := by
  induction digits with
  | nil =>
    obtain rfl | ⟨c, after, rfl, rfl | rfl | rfl | rfl⟩ := hRest <;> rfl
  | cons d more ih =>
    have hDigit : d.isDigit = true := h d List.mem_cons_self
    rw [List.map_cons, List.cons_append, digitRun, if_pos hDigit,
      ih fun d hd => h d (List.mem_cons_of_mem _ hd)]

theorem le_ofDigitChars (digits : List Char) (n : Nat) : n ≤ Nat.ofDigitChars 10 digits n := by
  induction digits generalizing n with
  | nil => exact Nat.le_refl n
  | cons d more ih =>
    rw [Nat.ofDigitChars_cons]
    exact Nat.le_trans (by omega) (ih _)

theorem gather_digits {digits : List Char} {n : Nat}
    (h : Nat.ofDigitChars 10 digits n < UInt64.size) :
    Numeral.gather n digits = (Nat.ofDigitChars 10 digits n, []) := by
  induction digits generalizing n with
  | nil => rfl
  | cons d more ih =>
    rw [Nat.ofDigitChars_cons, Nat.mul_comm 10 n] at h ⊢
    have hNext := Nat.lt_of_le_of_lt (le_ofDigitChars more _) h
    rw [Numeral.gather]
    simp only [hNext, if_true]
    exact ih h

theorem hasIdleZero_toDigits (n : Nat) : hasIdleZero (Nat.toDigits 10 n) = false := by
  have hPlain := (Text.isPlain_toDigits n).2
  unfold hasIdleZero
  split
  · rename_i hDigits
    rw [hDigits] at hPlain
    cases hPlain rfl
  · rfl

theorem scanNumeral_toDigits (n : Nat) {rest : List Glyph} (hRest : Delimited rest) :
    scanNumeral false ((Nat.toDigits 10 n).map .char ++ rest) =
      .ok (⟨false, Nat.toDigits 10 n, none, none⟩, rest) := by
  have hDigits : ∀ d ∈ Nat.toDigits 10 n, d.isDigit = true :=
    fun d hd => Nat.isDigit_of_mem_toDigits (by decide) (by decide) hd
  have hWhole : someDigits ((Nat.toDigits 10 n).map .char ++ rest) =
      .ok (Nat.toDigits 10 n, rest) := by
    rw [someDigits, digitRun_digits hDigits hRest, if_neg]
    simp [Nat.toDigits_ne_nil]
  have hFraction : scanFraction rest = .ok (none, rest) := by
    obtain rfl | ⟨c, after, rfl, rfl | rfl | rfl | rfl⟩ := hRest <;> rfl
  have hExponent : scanExponent rest = .ok (none, rest) := by
    obtain rfl | ⟨c, after, rfl, rfl | rfl | rfl | rfl⟩ := hRest <;> rfl
  rw [scanNumeral, hWhole]
  change (if hasIdleZero (Nat.toDigits 10 n) then _ else _) = _
  rw [hasIdleZero_toDigits, if_neg (by decide)]
  change (scanFraction rest >>= _) = _
  rw [hFraction]
  change (scanExponent rest >>= _) = _
  rw [hExponent]
  rfl

theorem value_toDigits {n : Nat} (h : n < UInt64.size) :
    (⟨false, Nat.toDigits 10 n, none, none⟩ : Numeral).value = .ok (.natural n) := by
  have hDigits : Nat.ofDigitChars 10 (Nat.toDigits 10 n) 0 = n :=
    Nat.ofDigitChars_toDigits (by decide) (by decide)
  rw [Numeral.value, gather_digits (by rw [hDigits]; exact h), hDigits]
  rfl

/-! ## Tokens -/

namespace Token

theorem ofGlyphs_cons {g : Glyph} {rest after : List Glyph} {t : Token} (hSpace : isSpace g = false)
    (hScan : scan g rest = (t, some after)) : ofGlyphs (g :: rest) = t :: ofGlyphs after := by
  rw [ofGlyphs, hSpace, if_neg (by decide)]
  split
  · rename_i next hNext
    rw [hScan] at hNext ⊢
    obtain rfl := Option.some.inj hNext
    rfl
  · rename_i hNext
    rw [hScan] at hNext
    cases hNext

theorem scan_digit {d : Char} (hDigit : d.isDigit = true) (rest : List Glyph) :
    scan (.char d) rest =
      match scanNumeral false (.char d :: rest) with
      | .ok (n, rest) => (.number n.value, some rest)
      | .error m => (.brokenScalar ⟨m, .numberMalformed, false⟩, none) := by
  have hMark : ofMark? (.char d) = none := by
    unfold ofMark?
    split
    case h_7 => rfl
    all_goals
      rename_i hSame
      cases hSame
      cases hDigit
  have hWord : word? (.char d) = none := by
    unfold word?
    split
    case h_4 => rfl
    all_goals
      rename_i hSame
      cases hSame
      cases hDigit
  rw [scan, hMark, hWord]
  · exact if_pos hDigit
  · rintro rfl
    cases hDigit
  · rintro rfl
    cases hDigit

theorem isSpace_of_digit {d : Char} (hDigit : d.isDigit = true) : isSpace (.char d) = false := by
  rw [isSpace]
  simp only [Glyph.char.injEq, Bool.or_eq_false_iff, decide_eq_false_iff_not]
  refine ⟨⟨⟨?_, ?_⟩, ?_⟩, ?_⟩
  all_goals
    rintro rfl
    cases hDigit

theorem scan_quote {rest after : List Glyph} {value : Except Malformation String}
    (h : StringScan.scan (.ok []) none false rest = .closed value after) :
    scan (.char '"') rest = (.string value, some after) := by
  have hMark : ofMark? (.char '"') = none := rfl
  have hWord : word? (.char '"') = none := rfl
  simp only [scan, hMark, hWord, h]

theorem ofGlyphs_natural {n : Nat} (h : n < UInt64.size) {rest : List Glyph}
    (hRest : Delimited rest) :
    ofGlyphs ((Nat.toDigits 10 n).map .char ++ rest) =
      .number (.ok (.natural n)) :: ofGlyphs rest := by
  have hScan := scanNumeral_toDigits n hRest
  obtain ⟨d, digits, hDigits⟩ := List.exists_cons_of_ne_nil (Nat.toDigits_ne_nil (n := n) (b := 10))
  have hDigit : d.isDigit = true :=
    Nat.isDigit_of_mem_toDigits (by decide) (by decide) (hDigits ▸ List.mem_cons_self)
  rw [hDigits, List.map_cons, List.cons_append] at hScan ⊢
  refine ofGlyphs_cons (isSpace_of_digit hDigit) ?_
  rw [scan_digit hDigit, hScan, ← hDigits]
  dsimp only
  rw [value_toDigits h]

theorem ofGlyphs_escaped (s : String) (rest : List Glyph) :
    ofGlyphs ((escaped s).map .char ++ rest) = .string (.ok s) :: ofGlyphs rest := by
  have hString : StringScan.scan (.ok []) none false
      ((s.toList.flatMap escapedChar).map .char ++ .char '"' :: rest) = .closed (.ok s) rest := by
    rw [StringScan.scan_escaped, List.reverse_nil, List.nil_append, String.ofList_toList]
  have hText : (escaped s).map .char ++ rest =
      .char '"' :: ((s.toList.flatMap escapedChar).map .char ++ .char '"' :: rest) := by
    rw [escaped, List.cons_append, List.map_cons, List.map_append, List.cons_append,
      List.append_assoc]
    rfl
  rw [hText]
  exact ofGlyphs_cons rfl (scan_quote hString)

/-- The text of a value has the tokens of the value wherever a value can end. -/
def Spells (j : Json) : Prop :=
  ∀ rest, Delimited rest →
    ofGlyphs (j.compactChars.map .char ++ rest) = j.tokens ++ ofGlyphs rest

theorem delimited_compactItems (items : List Json) (rest : List Glyph) :
    Delimited ((compactItems items).map .char ++ rest) := by
  cases items with
  | nil => exact .inr ⟨']', _, rfl, .inr (.inr (.inl rfl))⟩
  | cons item more => exact .inr ⟨',', _, rfl, .inl rfl⟩

theorem delimited_compactMembers (members : List (String × Json)) (rest : List Glyph) :
    Delimited ((compactMembers members).map .char ++ rest) := by
  cases members with
  | nil => exact .inr ⟨'\x7d', _, rfl, .inr (.inr (.inr rfl))⟩
  | cons m more => exact .inr ⟨',', _, rfl, .inl rfl⟩

theorem ofGlyphs_compactItems {items : List Json} (h : ∀ item ∈ items, Spells item)
    (rest : List Glyph) :
    ofGlyphs ((compactItems items).map .char ++ rest) = moreItems items ++ ofGlyphs rest := by
  induction items with
  | nil => exact ofGlyphs_cons rfl rfl
  | cons item more ih =>
    have hText : (compactItems (item :: more)).map .char ++ rest =
        .char ',' :: (item.compactChars.map .char ++ ((compactItems more).map .char ++ rest)) := by
      simp [compactItems]
    rw [hText, ofGlyphs_cons (t := .comma) rfl rfl,
      h item List.mem_cons_self _ (delimited_compactItems more rest),
      ih fun item hItem => h item (List.mem_cons_of_mem _ hItem), moreItems, List.cons_append,
      List.append_assoc]

theorem ofGlyphs_member {key : String} {value : Json} (h : Spells value) (rest : List Glyph)
    (hRest : Delimited rest) :
    ofGlyphs ((escaped key ++ ':' :: value.compactChars).map .char ++ rest) =
      .string (.ok key) :: .colon :: (value.tokens ++ ofGlyphs rest) := by
  have hText : (escaped key ++ ':' :: value.compactChars).map .char ++ rest =
      (escaped key).map .char ++ .char ':' :: (value.compactChars.map .char ++ rest) := by
    simp
  rw [hText, ofGlyphs_escaped, ofGlyphs_cons (t := .colon) rfl rfl, h rest hRest]

theorem ofGlyphs_compactMembers {members : List (String × Json)} (h : ∀ m ∈ members, Spells m.2)
    (rest : List Glyph) :
    ofGlyphs ((compactMembers members).map .char ++ rest) =
      moreMembers members ++ ofGlyphs rest := by
  induction members with
  | nil => exact ofGlyphs_cons rfl rfl
  | cons m more ih =>
    obtain ⟨key, value⟩ := m
    have hText : (compactMembers ((key, value) :: more)).map .char ++ rest =
        .char ',' :: ((escaped key ++ ':' :: value.compactChars).map .char ++
          ((compactMembers more).map .char ++ rest)) := by
      simp [compactMembers]
    rw [hText, ofGlyphs_cons (t := .comma) rfl rfl,
      ofGlyphs_member (h _ List.mem_cons_self) _ (delimited_compactMembers more rest),
      ih fun m hm => h m (List.mem_cons_of_mem _ hm), moreMembers]
    simp

theorem spells_of_whole {j : Json} (h : Whole j) : Spells j := by
  induction h with
  | null => exact fun rest _ => ofGlyphs_cons rfl rfl
  | bool b =>
    intro rest _
    cases b
    · exact ofGlyphs_cons rfl rfl
    · exact ofGlyphs_cons rfl rfl
  | natural h => exact fun rest hRest => ofGlyphs_natural h hRest
  | string s => exact fun rest _ => ofGlyphs_escaped s rest
  -- Only a number needs to know what follows; the brackets end the others.
  | @array items _ ih =>
    intro rest _
    cases items with
    | nil =>
      have hClose : ofGlyphs (.char ']' :: rest) = .closeArray :: ofGlyphs rest :=
        ofGlyphs_cons rfl rfl
      exact (ofGlyphs_cons rfl rfl).trans (congrArg (Token.openArray :: ·) hClose)
    | cons item more =>
      have hText : (compactChars (.array (item :: more))).map .char ++ rest =
          .char '[' :: (item.compactChars.map .char ++ ((compactItems more).map .char ++ rest)) := by
        simp [compactChars]
      rw [hText, ofGlyphs_cons (t := .openArray) rfl rfl,
        ih item List.mem_cons_self _ (delimited_compactItems more rest),
        ofGlyphs_compactItems fun item hItem => ih item (List.mem_cons_of_mem _ hItem), tokens,
        List.cons_append, List.append_assoc]
  | @object members _ ih =>
    intro rest _
    cases members with
    | nil =>
      have hClose : ofGlyphs (.char '\x7d' :: rest) = .closeObject :: ofGlyphs rest :=
        ofGlyphs_cons rfl rfl
      exact (ofGlyphs_cons rfl rfl).trans (congrArg (Token.openObject :: ·) hClose)
    | cons m more =>
      obtain ⟨key, value⟩ := m
      have hText : (compactChars (.object ((key, value) :: more))).map .char ++ rest =
          .char '\x7b' :: ((escaped key ++ ':' :: value.compactChars).map .char ++
            ((compactMembers more).map .char ++ rest)) := by
        simp [compactChars]
      rw [hText, ofGlyphs_cons (t := .openObject) rfl rfl,
        ofGlyphs_member (ih _ List.mem_cons_self) _ (delimited_compactMembers more rest),
        ofGlyphs_compactMembers fun m hm => ih m (List.mem_cons_of_mem _ hm), tokens]
      simp

end Token

/-! ## Outlines -/

namespace Outline

/-- Go on reading tokens unless the outline is whole. -/
def goOn : Outline ⊕ Wanted → List Token → Outline × List Token
  | .inl outline, ts => (outline, ts)
  | .inr wanted, ts => wanted.run ts

theorem run_cons (wanted : Wanted) (t : Token) (ts : List Token) :
    wanted.run (t :: ts) = goOn (wanted.step t) ts := by
  rw [Wanted.run]
  cases wanted.step t <;> rfl

theorem exists_tokens_cons (j : Json) :
    ∃ t ts, j.tokens = t :: ts ∧ t ≠ .closeArray := by
  cases j with
  | array items => cases items <;> exact ⟨_, _, rfl, nofun⟩
  | object members => cases members <;> exact ⟨_, _, rfl, nofun⟩
  | _ => exact ⟨_, _, rfl, nofun⟩

/-- In front of a value it makes no difference that an array could end. -/
theorem run_tokens_congr {wanted other : Wanted}
    (h : ∀ t, t ≠ .closeArray → wanted.step t = other.step t) (j : Json) (ts : List Token) :
    wanted.run (j.tokens ++ ts) = other.run (j.tokens ++ ts) := by
  obtain ⟨t, more, hTokens, hOpen⟩ := exists_tokens_cons j
  rw [hTokens, List.cons_append, run_cons, run_cons, h t hOpen]

theorem run_firstItem (j : Json) (outer : Place) (ts : List Token) :
    (Wanted.firstItem outer).run (j.tokens ++ ts) =
      (Wanted.value (.item [] outer)).run (j.tokens ++ ts) :=
  run_tokens_congr (fun t hOpen => by cases t <;> first | rfl | exact absurd rfl hOpen) j ts

theorem run_nextItem (j : Json) (done : List Outline) (outer : Place) (ts : List Token) :
    (Wanted.nextItem done outer).run (j.tokens ++ ts) =
      (Wanted.value (.item done outer)).run (j.tokens ++ ts) :=
  run_tokens_congr (fun t hOpen => by cases t <;> first | rfl | exact absurd rfl hOpen) j ts

/-- The tokens of a value come to its outline, at whatever place. -/
def Outlines (j : Json) : Prop :=
  ∀ place ts, (Wanted.value place).run (j.tokens ++ ts) = goOn (place.put (ofJson j)) ts

theorem run_moreItems {items : List Json} (h : ∀ item ∈ items, Outlines item)
    (done : List Outline) (outer : Place) (ts : List Token) :
    (Wanted.itemEnd done outer).run (moreItems items ++ ts) =
      goOn (outer.put (.array (done.reverse ++ items.map ofJson) .closed)) ts := by
  induction items generalizing done with
  | nil =>
    rw [moreItems, List.cons_append, run_cons, List.map_nil, List.append_nil]
    rfl
  | cons item more ih =>
    rw [moreItems, List.cons_append, run_cons]
    change (Wanted.nextItem done outer).run _ = _
    rw [List.append_assoc, run_nextItem, h item List.mem_cons_self]
    change (Wanted.itemEnd (ofJson item :: done) outer).run _ = _
    rw [ih fun item hItem => h item (List.mem_cons_of_mem _ hItem), List.reverse_cons,
      List.append_assoc]
    rfl

theorem run_moreMembers {members : List (String × Json)} (h : ∀ m ∈ members, Outlines m.2)
    (done : List (Key × Outline)) (outer : Place) (ts : List Token) :
    (Wanted.memberEnd done outer).run (moreMembers members ++ ts) =
      goOn
        (outer.put (.object (done.reverse ++ members.map fun m => (.ok m.1, ofJson m.2)) .closed))
        ts := by
  induction members generalizing done with
  | nil =>
    rw [moreMembers, List.cons_append, run_cons, List.map_nil, List.append_nil]
    rfl
  | cons m more ih =>
    obtain ⟨key, value⟩ := m
    rw [moreMembers, List.cons_append, List.cons_append, List.cons_append, run_cons]
    change (Wanted.nextKey done outer).run _ = _
    rw [run_cons]
    change (Wanted.colon done (.ok key) outer).run _ = _
    rw [run_cons]
    change (Wanted.value (.member done (.ok key) outer)).run _ = _
    rw [List.append_assoc, h _ List.mem_cons_self]
    change (Wanted.memberEnd ((.ok key, ofJson value) :: done) outer).run _ = _
    rw [ih fun m hm => h m (List.mem_cons_of_mem _ hm), List.reverse_cons, List.append_assoc]
    rfl

theorem outlines (j : Json) : Outlines j := by
  induction j using induct with
  | null | bool | number | string => exact fun place ts => run_cons _ _ _
  | array items ih =>
    intro place ts
    cases items with
    | nil =>
      rw [tokens, List.cons_append, run_cons]
      exact run_cons _ _ _
    | cons item more =>
      rw [tokens, List.cons_append, run_cons]
      change (Wanted.firstItem place).run _ = _
      rw [List.append_assoc, run_firstItem, ih item List.mem_cons_self]
      change (Wanted.itemEnd [ofJson item] place).run _ = _
      rw [run_moreItems fun item hItem => ih item (List.mem_cons_of_mem _ hItem), ofJson_array]
      rfl
  | object members ih =>
    intro place ts
    cases members with
    | nil =>
      rw [tokens, List.cons_append, run_cons]
      exact run_cons _ _ _
    | cons m more =>
      obtain ⟨key, value⟩ := m
      rw [tokens, List.cons_append, List.cons_append, List.cons_append, run_cons]
      change (Wanted.firstKey place).run _ = _
      rw [run_cons]
      change (Wanted.colon [] (.ok key) place).run _ = _
      rw [run_cons]
      change (Wanted.value (.member [] (.ok key) place)).run _ = _
      rw [List.append_assoc, ih _ List.mem_cons_self]
      change (Wanted.memberEnd [(.ok key, ofJson value)] place).run _ = _
      rw [run_moreMembers fun m hm => ih m (List.mem_cons_of_mem _ hm), ofJson_object]
      rfl

/-- The compact text of a value has the outline of the value and nothing behind it. -/
theorem ofGlyphs_compact {j : Json} (h : Whole j) :
    ofGlyphs (Glyph.ofString j.compact) = (ofJson j, []) := by
  have hTokens := Token.spells_of_whole h [] (.inl rfl)
  have hNone : Token.ofGlyphs [] = [] := by rw [Token.ofGlyphs]
  rw [hNone] at hTokens
  rw [ofGlyphs, Glyph.ofString, compact, String.toList_ofList, ← List.append_nil (List.map _ _),
    hTokens, outlines j]
  rfl

end Outline

end Manuscript.Json
