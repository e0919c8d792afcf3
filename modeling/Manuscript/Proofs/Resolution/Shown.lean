import Mathlib.Data.List.Infix
import Manuscript.Proofs.Except
import Manuscript.Resolution.Sources

/-!
# What is told of an address with data in it

An error tells the first 64 characters of such an address, and what is wrong with the data is said
in words that quote nothing of it, as far as they are not those of the reader of headers. An address
that is no image is taken for the path of a file, however, and then the error tells the path and with
it the whole address.
-/

namespace Manuscript

theorem infix_of_infix_append {α : Type} {front l r : List α} {last : α} (hLast : last ∉ r)
    (h : front ++ [last] <:+: l ++ r) : front ++ [last] <:+: l := by
  induction r using List.reverseRecOn with
  | nil => rwa [List.append_nil] at h
  | append_singleton r a ih =>
    rw [List.mem_append, not_or] at hLast
    rw [← List.append_assoc, List.infix_concat_iff] at h
    rcases h with hSuffix | hInfix
    · have hSame : last = a := by
        obtain ⟨before, hBefore⟩ := hSuffix
        rw [← List.append_assoc] at hBefore
        exact (List.append_inj' hBefore rfl).2 |> List.singleton_inj.mp
      exact absurd (hSame ▸ List.mem_singleton_self _) hLast.2
    · exact ih hLast.1 hInfix

namespace Resolution

/-- The front of every address with data in it stands somewhere in a text. -/
def Quotes (text : String) : Prop :=
  "data:".toList <:+: text.toList

instance (text : String) : Decidable (Quotes text) :=
  inferInstanceAs (Decidable ("data:".toList <:+: text.toList))

theorem not_quotes_append {left right : String} (hLeft : ¬ Quotes left)
    (hRight : ':' ∉ right.toList) : ¬ Quotes (left ++ right) := by
  rw [Quotes, String.toList_append]
  intro h
  change "data".toList ++ [':'] <:+: _ at h
  exact hLeft (infix_of_infix_append hRight h)

theorem colon_not_mem_toDigits (n : Nat) : ':' ∉ Nat.toDigits 10 n := fun h =>
  absurd (Nat.isDigit_of_mem_toDigits (by decide) (by decide) h) (by decide)

theorem colon_not_mem_report {front : String} (h : ':' ∉ front.toList) (byte offset : Nat) :
    ':' ∉ (front ++ toString byte ++ ", offset " ++ toString offset ++ ".").toList := by
  simp [String.toList_append, colon_not_mem_toDigits, h]

theorem not_quotes_fault (fault : Base64.Fault) :
    ¬ Quotes s!"invalid base64 payload: {fault.message}" := by
  change ¬ Quotes ("invalid base64 payload: " ++ fault.message)
  have hFront : ¬ Quotes "invalid base64 payload: " := by decide
  cases fault with
  | symbol byte offset =>
    have hSymbol : ':' ∉ "Invalid symbol ".toList := by decide
    exact not_quotes_append hFront (colon_not_mem_report hSymbol byte.toNat offset)
  | length symbols =>
    change ¬ Quotes ("invalid base64 payload: " ++ ("Invalid input length: " ++ toString symbols))
    rw [← String.append_assoc]
    refine not_quotes_append (by decide) ?_
    simp [colon_not_mem_toDigits]
  | lastSymbol byte offset =>
    have hSymbol : ':' ∉ "Invalid last symbol ".toList := by decide
    exact not_quotes_append hFront (colon_not_mem_report hSymbol byte.toNat offset)
  | padding => exact not_quotes_append hFront (by decide)

/-- Nothing of an address stands in front of the words of the reader of headers. -/
theorem infix_unsupported_iff {front : List Char} (hData : "data:".toList <+: front)
    (reason : String) :
    front <:+: (s!"unsupported image: {reason}").toList ↔ front <:+: reason.toList := by
  obtain ⟨rest, rfl⟩ := hData
  change _ <:+: ("unsupported image: " ++ reason).toList ↔ _
  rw [String.toList_append]
  simp [List.infix_cons_iff, List.cons_prefix_cons]

/-! ## Addresses that are told -/

theorem decodePayload_eq_error {url : String} {payload : List Char} {e : Error}
    (h : decodePayload url payload = .error e) :
    ∃ reason, e = .imageResolveFailed (shown url) reason ∧ ¬ Quotes reason := by
  rw [decodePayload] at h
  split at h
  · cases h
  · rename_i fault hFault
    exact ⟨_, (Except.error.inj h).symm, not_quotes_fault fault⟩

variable {sources : Sources} {url : String}

theorem measured_eq_error {bytes : List UInt8} {e : Error}
    (h : sources.measured url bytes = .error e) :
    ∃ reason, sources.headers bytes = .error reason ∧
      e = .imageResolveFailed (shown url) s!"unsupported image: {reason}" := by
  rw [Sources.measured] at h
  split at h
  · cases h
  · rename_i reason hReason
    exact ⟨reason, hReason, (Except.error.inj h).symm⟩

theorem not_prefix_of_data {front : String} (hData : url.startsWith "data:" = true)
    (hFront : ¬ "data:".toList <+: front.toList) (hBack : ¬ front.toList <+: "data:".toList) :
    ¬ front.toList <+: url.toList := by
  intro hPrefix
  rcases List.prefix_or_prefix_of_prefix (String.startsWith_string_iff.mp hData) hPrefix with h | h
  · exact hFront h
  · exact hBack h

theorem bytes_of_data (hData : url.startsWith "data:" = true) :
    sources.bytes url =
      match payload? url with
      | some payload => decodePayload url payload
      | none => sources.readFile url := by
  have hWeb : Web.isWebAddress url = false := by
    rw [Web.isWebAddress, Bool.or_eq_false_iff, ← Bool.not_eq_true, ← Bool.not_eq_true,
      String.startsWith_string_iff, String.startsWith_string_iff]
    exact ⟨not_prefix_of_data hData (by decide) (by decide),
      not_prefix_of_data hData (by decide) (by decide)⟩
  rw [Sources.bytes, hWeb]
  rfl

theorem readFile_eq_error {e : Error} (h : sources.readFile url = .error e) :
    ∃ cause, sources.files.read (sources.path url) = .error cause ∧
      e = .imageResolveFailed (shown url) s!"{sources.path url}: {cause.message}" := by
  rw [Sources.readFile] at h
  cases hRead : sources.files.read (sources.path url) with
  | ok bytes =>
    rw [hRead] at h
    cases h
  | error cause =>
    rw [hRead] at h
    exact ⟨cause, rfl, (Except.error.inj h).symm⟩

theorem bytes_of_unread (hData : url.startsWith "data:" = true) (hPayload : payload? url = none)
    {cause : Files.Cause} (hRead : sources.files.read (sources.path url) = .error cause) :
    sources.bytes url =
      .error (.imageResolveFailed (shown url) s!"{sources.path url}: {cause.message}") := by
  rw [bytes_of_data hData, hPayload, Sources.readFile, hRead]

theorem resolve_of_unread (hData : url.startsWith "data:" = true) (hPayload : payload? url = none)
    {cause : Files.Cause} (hRead : sources.files.read (sources.path url) = .error cause) :
    sources.resolve url =
      .error (.imageResolveFailed (shown url) s!"{sources.path url}: {cause.message}") := by
  rw [Sources.resolve, bytes_of_unread hData hPayload hRead]
  rfl

theorem suffix_join (base path : String) : path.toList <:+ (Files.join base path).toList := by
  rw [Files.join]
  split_ifs
  · exact List.suffix_rfl
  · rw [String.toList_append]
    exact List.suffix_append _ _
  · rw [String.toList_append]
    exact List.suffix_append _ _

theorem suffix_path (hData : url.startsWith "data:" = true) :
    url.toList <:+ (sources.path url).toList := by
  have hFile : behind? "file://" url.toList = none := by
    rw [behind?, if_neg]
    exact List.isPrefixOf_iff_prefix.not.mpr (not_prefix_of_data hData (by decide) (by decide))
  rw [Sources.path, hFile, Option.getD_none, String.ofList_toList]
  cases sources.baseDir with
  | some base => exact suffix_join base url
  | none => exact List.suffix_rfl

theorem data_prefix_take (hData : url.startsWith "data:" = true) :
    "data:".toList <+: url.toList.take 65 :=
  List.prefix_take_iff.mpr ⟨String.startsWith_string_iff.mp hData, by decide⟩

theorem quotes_of_front {text : String} (hData : url.startsWith "data:" = true)
    (h : url.toList.take 65 <:+: text.toList) : Quotes text :=
  (data_prefix_take hData).isInfix.trans h

theorem not_infix_shown (hData : url.startsWith "data:" = true) (hLong : 64 < url.length) :
    ¬ url.toList.take 65 <:+: (shown url).toList := by
  intro h
  have hLength := h.length_le
  rw [shown, if_pos hData, String.toList_ofList, List.length_take, List.length_take,
    String.length_toList, shownLength] at hLength
  omega

/-- A file that cannot be read is told with its path, which ends in the whole address. -/
theorem infix_unread (hData : url.startsWith "data:" = true) (cause : Files.Cause) :
    url.toList <:+: (s!"{sources.path url}: {cause.message}").toList := by
  change _ <:+: (sources.path url ++ ": " ++ cause.message).toList
  rw [String.toList_append, String.toList_append, List.append_assoc]
  exact List.infix_append_of_infix_left (suffix_path hData).isInfix

/-- A data address fails where its payload is decoded, where it is read as a file, or where the size is
read from the header. -/
theorem error_of_data (hData : url.startsWith "data:" = true) {e : Error}
    (hFail : sources.resolve url = .error e) :
    (∃ payload, payload? url = some payload ∧ decodePayload url payload = .error e) ∨
      (payload? url = none ∧ ∃ cause, sources.files.read (sources.path url) = .error cause ∧
        e = .imageResolveFailed (shown url) s!"{sources.path url}: {cause.message}") ∨
      ∃ bytes words, sources.bytes url = .ok bytes ∧ sources.headers bytes = .error words ∧
        e = .imageResolveFailed (shown url) s!"unsupported image: {words}" := by
  rw [Sources.resolve, bind_eq_error_iff] at hFail
  rcases hFail with hBytes | ⟨bytes, hBytes, hSize⟩
  · rw [bytes_of_data hData] at hBytes
    cases hPayload : payload? url with
    | some payload =>
      rw [hPayload] at hBytes
      exact .inl ⟨payload, rfl, hBytes⟩
    | none =>
      rw [hPayload] at hBytes
      exact .inr (.inl ⟨rfl, readFile_eq_error hBytes⟩)
  · obtain ⟨words, hWords, hError⟩ := measured_eq_error hSize
    exact .inr (.inr ⟨bytes, words, hBytes, hWords, hError⟩)

/-- A long address with data in it is told in part, and the reason holds no more of it either, unless
the address is taken for the path of a file that cannot be read, or the reader of headers says more of
it in its own words. The path tells all of the address. -/
theorem long_data_address_told (hData : url.startsWith "data:" = true) (hLong : 64 < url.length)
    {e : Error} (hFail : sources.resolve url = .error e) :
    ∃ reason, e = .imageResolveFailed (shown url) reason ∧
      ¬ url.toList.take 65 <:+: (shown url).toList ∧
      (url.toList.take 65 <:+: reason.toList ↔
        (payload? url = none ∧ ∃ cause, sources.files.read (sources.path url) = .error cause) ∨
          ∃ bytes words, sources.bytes url = .ok bytes ∧ sources.headers bytes = .error words ∧
            url.toList.take 65 <:+: words.toList) ∧
      (payload? url = none → (∃ cause, sources.files.read (sources.path url) = .error cause) →
        url.toList <:+: reason.toList) := by
  have hShown := not_infix_shown hData hLong
  obtain ⟨payload, hPayload, hDecode⟩ | ⟨hPayload, cause, hRead, rfl⟩ |
    ⟨bytes, words, hBytes, hWords, rfl⟩ := error_of_data hData hFail
  · obtain ⟨reason, rfl, hReason⟩ := decodePayload_eq_error hDecode
    have hPart : ¬ url.toList.take 65 <:+: reason.toList :=
      fun h => hReason (quotes_of_front hData h)
    refine ⟨reason, rfl, hShown, iff_of_false hPart ?_, fun hNone => ?_⟩
    · rintro (⟨hNone, -⟩ | ⟨bytes, words, hBytes, -⟩)
      · rw [hPayload] at hNone
        cases hNone
      · rw [bytes_of_data hData, hPayload] at hBytes
        change decodePayload url payload = _ at hBytes
        rw [hDecode] at hBytes
        cases hBytes
    · rw [hPayload] at hNone
      cases hNone
  · have hAll : url.toList <:+: (s!"{sources.path url}: {cause.message}").toList :=
      infix_unread hData cause
    exact ⟨_, rfl, hShown,
      iff_of_true ((List.take_prefix 65 _).isInfix.trans hAll) (.inl ⟨hPayload, cause, hRead⟩),
      fun _ _ => hAll⟩
  · have hUnread : payload? url = none →
        ¬ ∃ cause, sources.files.read (sources.path url) = .error cause := by
      rintro hPayload ⟨cause, hRead⟩
      rw [bytes_of_unread hData hPayload hRead] at hBytes
      cases hBytes
    refine ⟨_, rfl, hShown, ?_, fun hPayload hRead => absurd hRead (hUnread hPayload)⟩
    rw [infix_unsupported_iff (data_prefix_take hData)]
    constructor
    · exact fun h => .inr ⟨bytes, words, hBytes, hWords, h⟩
    · rintro (⟨hPayload, hRead⟩ | ⟨other, told, hOther, hTold, h⟩)
      · exact absurd hRead (hUnread hPayload)
      · obtain rfl := Except.ok.inj (hBytes.symm.trans hOther)
        obtain rfl := Except.error.inj (hWords.symm.trans hTold)
        exact h

/-- Of a payload that breaks off nothing is told. -/
theorem long_payload_told_in_part :
    let sources : Sources :=
      { files := { entries := [], cwd := [] }
        network := fun _ => .unanswered
        headers := fun _ => .error "The image format could not be determined" }
    let url := "data:image/png;base64,iVBORw0KGgoAAAANSUhEUgAAAAcAAAADCAIAAADQoYKSAAA"
    let reason := "invalid base64 payload: Invalid padding"
    url.startsWith "data:" = true ∧ 64 < url.length ∧
      sources.resolve url = .error (.imageResolveFailed
        "data:image/png;base64,iVBORw0KGgoAAAANSUhEUgAAAAcAAAADCAIAAADQoY" reason) ∧
      ¬ url.toList.take 65 <:+: reason.toList := by
  intro sources url reason
  have hData : url.startsWith "data:" = true :=
    String.startsWith_string_iff.mpr (by decide +kernel)
  have hLong : 64 < url.length := by decide
  have hFail : sources.resolve url = .error (.imageResolveFailed
      "data:image/png;base64,iVBORw0KGgoAAAANSUhEUgAAAAcAAAADCAIAAADQoY" reason) := by decide +kernel
  have hPayload : payload? url ≠ none := by decide +kernel
  have hWords : ¬ url.toList.take 65 <:+: "The image format could not be determined".toList := by
    decide
  obtain ⟨told, hTold, -, hPart, -⟩ := long_data_address_told hData hLong hFail
  obtain ⟨-, rfl⟩ := Error.imageResolveFailed.inj hTold
  refine ⟨hData, hLong, hFail, fun h => ?_⟩
  rcases hPart.mp h with ⟨hNone, -⟩ | ⟨_, words, -, hHeaders, hQuoted⟩
  · exact hPayload hNone
  · obtain rfl := Except.error.inj hHeaders
    exact hWords hQuoted

/-- The type of an image may carry parameters, and with one its address is taken for a path. -/
theorem not_every_long_address_told_in_part :
    ¬ ∀ (sources : Sources) (url : String), url.startsWith "data:" = true → 64 < url.length →
      ∀ told reason, sources.resolve url = .error (.imageResolveFailed told reason) →
        ¬ url.toList.take 65 <:+: told.toList ∧ ¬ url.toList.take 65 <:+: reason.toList := by
  intro hAll
  let sources : Sources :=
    { files := { entries := [], cwd := [] }
      network := fun _ => .unanswered
      headers := fun _ => .error "The image format could not be determined" }
  let url := "data:image/png;charset=utf-8;base64,iVBORw0KGgoAAAANSUhEUgAAAAcAAAAD"
  have hData : url.startsWith "data:" = true :=
    String.startsWith_string_iff.mpr (by decide +kernel)
  have hPayload : payload? url = none := by decide +kernel
  have hRead : sources.files.read (sources.path url) = .error .notFound := by decide +kernel
  have hTold := hAll sources url hData (by decide +kernel) _ _ (resolve_of_unread hData hPayload hRead)
  exact hTold.2 ((List.take_prefix 65 _).isInfix.trans (infix_unread hData .notFound))

end Resolution

end Manuscript
