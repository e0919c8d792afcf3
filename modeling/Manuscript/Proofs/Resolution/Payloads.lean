import Manuscript.Proofs.Base64
import Manuscript.Proofs.Text.Blank
import Manuscript.Resolution.Sources

/-!
# Addresses that hold the image itself

The payload of such an address begins behind the first `;base64,`, since no semicolon belongs to the
type. What it spells is the image, with blank characters around it or without, and a payload that is no
Base64 is refused. Nothing is read or fetched on the way: the standard resolver is one of its kind in
any sort of program, and on such an address it comes to its result without taking a step.
-/

namespace Manuscript.Base64

theorem isBlank_symbol (n : Nat) : Text.isBlank (Char.ofNat (symbol n).toNat) = false := by
  have hAll : ∀ n < 64, Text.isBlank (Char.ofNat (symbol n).toNat) = false := by decide
  by_cases h : n < 64
  · exact hAll n h
  · have hLast : symbol n = symbol 63 := by
      rw [symbol, if_neg (by omega), if_neg (by omega), if_neg (by omega), if_neg (by omega)]
      rfl
    rw [hLast]
    decide

theorem isBlank_encoded {bytes : List UInt8} :
    ∀ c ∈ (encode bytes).toList, Text.isBlank c = false := by
  have hPad : Text.isBlank (Char.ofNat pad.toNat) = false := by decide
  rw [encode, String.toList_ofList, List.forall_mem_map]
  fun_induction encodeBytes bytes with
  | case1 a b c rest ih => simpa [isBlank_symbol] using ih
  | case2 | case3 => simp [isBlank_symbol, hPad]
  | case4 => exact List.forall_mem_nil _

theorem isTrimmed_encode (bytes : List UInt8) : Text.IsTrimmed (encode bytes).toList where
  first c h := isBlank_encoded c (List.mem_of_mem_head? h)
  last c h := isBlank_encoded c (List.mem_of_mem_getLast? h)

end Manuscript.Base64

namespace Manuscript.Resolution

/-- An address that holds an image of the given type itself. -/
def inlineAddress (kind payload : String) : String :=
  "data:image/" ++ kind ++ ";base64," ++ payload

theorem behind?_append (front : String) (rest : List Char) :
    behind? front (front.toList ++ rest) = some rest := by
  rw [behind?, if_pos (List.isPrefixOf_iff_prefix.mpr (List.prefix_append _ _)),
    ← String.length_toList, List.drop_left]

theorem payload?_inlineAddress {kind : String} (hKind : kind ≠ "")
    (hType : ∀ c ∈ kind.toList, isTypeChar c = true) (payload : String) :
    payload? (inlineAddress kind payload) = some payload.toList := by
  have hEnd : isTypeChar ';' = false := by decide +kernel
  have hAddress : (inlineAddress kind payload).toList =
      "data:image/".toList ++ (kind.toList ++ (";base64,".toList ++ payload.toList)) := by
    simp only [inlineAddress, String.toList_append, List.append_assoc]
  have hTake : (kind.toList ++ (";base64,".toList ++ payload.toList)).takeWhile isTypeChar =
      kind.toList := by
    rw [List.takeWhile_append_of_pos hType]
    change kind.toList ++ (';' :: _).takeWhile isTypeChar = _
    rw [List.takeWhile_cons_of_neg (by rw [hEnd]; decide), List.append_nil]
  have hDrop : (kind.toList ++ (";base64,".toList ++ payload.toList)).dropWhile isTypeChar =
      ";base64,".toList ++ payload.toList := by
    rw [List.dropWhile_append_of_pos hType]
    change (';' :: _).dropWhile isTypeChar = _
    rw [List.dropWhile_cons_of_neg (by rw [hEnd]; decide)]
    rfl
  have hNonempty : kind.toList.isEmpty = false :=
    List.isEmpty_eq_false_iff.mpr fun hNil => hKind (String.toList_eq_nil_iff.mp hNil)
  rw [payload?, hAddress, behind?_append]
  change (if (List.takeWhile isTypeChar _).isEmpty then _ else behind? ";base64," _) = _
  rw [hTake, hDrop, hNonempty, behind?_append]
  rfl

/-! ## Results without a step -/

namespace Sources

variable {m : Type → Type} [Monad m]

/-- The standard resolver in a program that has the given ways to read a file and to fetch an
address. -/
def resolveBy (sources : Sources) (read : String → m (Except Files.Cause (List UInt8)))
    (fetch : String → m (Except Error (List UInt8))) (url : String) : m (Except Error ImageData) :=
  match payload? url with
  | some payload => pure (decodePayload url payload >>= sources.measured url)
  | none =>
    if Web.isWebAddress url then do
      let bytes ← fetch url
      return bytes >>= sources.measured url
    else do
      match ← read (sources.path url) with
      | .ok bytes => return sources.measured url bytes
      | .error cause =>
        return .error (.imageResolveFailed (shown url) s!"{sources.path url}: {cause.message}")

/-- The resolver itself reads from its files and fetches from its network. -/
theorem resolve_eq_resolveBy (sources : Sources) (url : String) :
    sources.resolve url =
      resolveBy (m := Id) sources sources.files.read (Web.fetch sources.network sources.secs) url := by
  rw [resolve, bytes, resolveBy]
  cases payload? url with
  | some payload => rfl
  | none =>
    dsimp only
    split
    · rfl
    · rw [readFile]
      cases sources.files.read (sources.path url) <;> rfl

theorem resolve_of_payload {sources : Sources} {url : String} {payload : List Char}
    (h : payload? url = some payload) :
    sources.resolve url = decodePayload url payload >>= sources.measured url := by
  rw [resolve, bytes, h]

theorem resolveBy_of_payload {sources : Sources} {url : String} {payload : List Char}
    (h : payload? url = some payload) (read : String → m (Except Files.Cause (List UInt8)))
    (fetch : String → m (Except Error (List UInt8))) :
    resolveBy sources read fetch url = pure (sources.resolve url) := by
  rw [resolveBy, resolve_of_payload h, h]

end Sources

theorem decodePayload_around {left right : String} (hLeft : Text.Blank left.toList)
    (hRight : Text.Blank right.toList) (url : String) (bytes : List UInt8) :
    decodePayload url (left ++ Base64.encode bytes ++ right).toList = .ok bytes := by
  rw [decodePayload, String.toList_append, String.toList_append, List.append_assoc,
    Text.trim_around hLeft (Base64.isTrimmed_encode bytes) hRight, String.ofList_toList,
    Base64.decode_encode]

theorem decodePayload_of_foreign {payload : List Char} (url : String)
    (h : ∀ bytes, String.ofList (Text.trim payload) ≠ Base64.encode bytes) :
    ∃ reason, decodePayload url payload = .error (.imageResolveFailed (shown url) reason) := by
  rw [decodePayload]
  split
  · rename_i bytes hBytes
    exact absurd (Base64.decode_eq_ok_iff.mp hBytes) (h bytes)
  · exact ⟨_, rfl⟩

/-- An address that holds an image itself comes to the bytes that it spells, with the size that is read
from their header if there is one, whatever blank characters stand around them and however headers are
read. If it spells no bytes it is refused. The resolver is one of those that read and fetch in some
way or other, and all of these have the result without taking a step. -/
theorem inline_addresses_resolve_to_payload (sources : Sources) {kind left right : String}
    (hKind : kind ≠ "") (hType : ∀ c ∈ kind.toList, isTypeChar c = true)
    (hLeft : Text.Blank left.toList) (hRight : Text.Blank right.toList) :
    (∀ bytes, sources.resolve (inlineAddress kind (left ++ Base64.encode bytes ++ right)) =
        match sources.headers bytes with
        | .ok size => .ok { data := bytes, width := size.width, height := size.height }
        | .error reason =>
          .error (.imageResolveFailed
            (shown (inlineAddress kind (left ++ Base64.encode bytes ++ right)))
            s!"unsupported image: {reason}")) ∧
      (∀ payload : String,
        (∀ bytes, String.ofList (Text.trim payload.toList) ≠ Base64.encode bytes) →
          ∃ reason, sources.resolve (inlineAddress kind payload) =
            .error (.imageResolveFailed (shown (inlineAddress kind payload)) reason)) ∧
      (∀ url, sources.resolve url = sources.resolveBy (m := Id) sources.files.read
        (Web.fetch sources.network sources.secs) url) ∧
      ∀ payload, Sources.reachesOut (inlineAddress kind payload) = false ∧
        ∀ {m : Type → Type} [Monad m] (read : String → m (Except Files.Cause (List UInt8)))
          (fetch : String → m (Except Error (List UInt8))),
          sources.resolveBy read fetch (inlineAddress kind payload) =
            pure (sources.resolve (inlineAddress kind payload)) := by
  have hPayload := payload?_inlineAddress hKind hType
  refine ⟨fun bytes => ?_, fun payload hForeign => ?_, sources.resolve_eq_resolveBy,
    fun payload => ⟨?_, ?_⟩⟩
  · rw [Sources.resolve_of_payload (hPayload _), decodePayload_around hLeft hRight]
    rfl
  · obtain ⟨reason, hRefused⟩ := decodePayload_of_foreign (inlineAddress kind payload) hForeign
    exact ⟨reason, by rw [Sources.resolve_of_payload (hPayload _), hRefused]; rfl⟩
  · rw [Sources.reachesOut, hPayload]
    rfl
  · exact fun read fetch => Sources.resolveBy_of_payload (hPayload payload) read fetch

/-- A picture of seven by three pixels. -/
def smallPicture : List UInt8 :=
  [0x89, 0x50, 0x4E, 0x47, 0x0D, 0x0A, 0x1A, 0x0A, 0x00, 0x00, 0x00, 0x0D, 0x49, 0x48, 0x44, 0x52,
    0x00, 0x00, 0x00, 0x07, 0x00, 0x00, 0x00, 0x03, 0x08, 0x02, 0x00, 0x00, 0x00, 0xD0, 0xA1, 0x82,
    0x92, 0x00, 0x00, 0x00, 0x0B, 0x49, 0x44, 0x41, 0x54, 0x78, 0x9C, 0x63, 0x60, 0x40, 0x05, 0x00,
    0x00, 0x10, 0x00, 0x01, 0x39, 0xBD, 0x8F, 0x65, 0x00, 0x00, 0x00, 0x00, 0x49, 0x45, 0x4E, 0x44,
    0xAE, 0x42, 0x60, 0x82]

/-- The picture resolves with a space before it and a line feed behind it, but not without its
padding. -/
theorem small_picture_resolves :
    "png" ≠ "" ∧ (∀ c ∈ "png".toList, isTypeChar c = true) ∧ Text.Blank " ".toList ∧
      Text.Blank "\n".toList ∧
      let sources : Sources :=
        { files := { entries := [], cwd := [] }
          network := fun _ => .unanswered
          headers := fun bytes =>
            if bytes = smallPicture then .ok ⟨7, 3⟩
            else .error "The image format could not be determined" }
      let payload := "iVBORw0KGgoAAAANSUhEUgAAAAcAAAADCAIAAADQoYKSAAAAC0lEQVR4nGNgQAUAABAAATm9j2UAAA" ++
        "AASUVORK5CYII"
      sources.resolve ("data:image/png;base64, " ++ payload ++ "=\n") =
          .ok { data := smallPicture, width := 7, height := 3 } ∧
        ∃ reason, sources.resolve ("data:image/png;base64," ++ payload) =
          .error (.imageResolveFailed
            "data:image/png;base64,iVBORw0KGgoAAAANSUhEUgAAAAcAAAADCAIAAADQoY" reason) := by
  have hKind : "png" ≠ "" := by decide
  have hType : ∀ c ∈ "png".toList, isTypeChar c = true :=
    List.all_eq_true.mp (by decide +kernel)
  have hLeft : Text.Blank " ".toList := List.all_eq_true.mp (by decide)
  have hRight : Text.Blank "\n".toList := List.all_eq_true.mp (by decide)
  refine ⟨hKind, hType, hLeft, hRight, ?_⟩
  intro sources payload
  obtain ⟨hImages, hRefused, -⟩ :=
    inline_addresses_resolve_to_payload sources hKind hType hLeft hRight
  constructor
  · have hAddress : inlineAddress "png" (" " ++ Base64.encode smallPicture ++ "\n") =
        "data:image/png;base64, " ++ payload ++ "=\n" := by decide +kernel
    have hSize : sources.headers smallPicture = .ok ⟨7, 3⟩ := by decide +kernel
    rw [← hAddress, hImages, hSize]
  · have hAddress : inlineAddress "png" payload = "data:image/png;base64," ++ payload := by
      decide +kernel
    have hShown : shown ("data:image/png;base64," ++ payload) =
        "data:image/png;base64,iVBORw0KGgoAAAANSUhEUgAAAAcAAAADCAIAAADQoY" := by decide +kernel
    have hFault : Base64.decode (String.ofList (Text.trim payload.toList)) = .error .padding := by
      decide +kernel
    obtain ⟨reason, hReason⟩ := hRefused payload fun bytes hBytes => by
      rw [Base64.decode_eq_ok_iff.mpr hBytes] at hFault
      cases hFault
    rw [hAddress, hShown] at hReason
    exact ⟨reason, hReason⟩

end Manuscript.Resolution
