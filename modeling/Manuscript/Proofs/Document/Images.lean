import Manuscript.Proofs.Base64.Spelling
import Manuscript.Proofs.Document.Json
import Manuscript.Proofs.Json.Exchanged

/-!
# One text for the bytes of an image

Images stand in their tables as records of their own and in paragraphs as runs. Both are read with some
bytes only if the field of the bytes holds the text that these are written as, whatever else stands in
the record and wherever it comes from.
-/

namespace Manuscript

open Json (Composed Fields Origin Reader Variant)

/-- Put a text into the field of the bytes: an image is read if and only if that is the text of its
bytes, and the record with the empty text is the same image without any bytes. -/
def TakesOneText (place : Nat) (reads : Json → ImageData → Prop) : Prop :=
  ∀ (v : Json) (s : String) (image : ImageData),
    reads (v.withField "data" place (.string s)) image ↔
      image.toJson.get? "data" = some (.string s) ∧
        reads (v.withField "data" place (.string "")) { image with data := [] }

/-! ## Bytes -/

theorem bytes_eq_ok_iff {origin : Origin} {s : String} {bytes : List UInt8} :
    Reader.bytes origin (.ofJson (.string s)) = .ok bytes ↔ s = Base64.encode bytes := by
  rw [← Base64.decode_eq_ok_iff]
  simp only [Reader.bytes, Json.Outline.ofJson, Reader.text, bind, Except.bind]
  cases Base64.decode s <;> simp

theorem bytes_of_text (origin : Origin) (s : String) :
    Reader.bytes origin (.ofJson (.string s)) = Reader.bytes .value (.ofJson (.string s)) := rfl

theorem get?_data {image : ImageData} {s : String} :
    image.toJson.get? "data" = some (.string s) ↔ s = Base64.encode image.data := by
  change some (Json.string (Base64.encode image.data)) = some (.string s) ↔ _
  simp [eq_comm]

/-- The image comes from what a text is read as and from a width and a height that do not depend on
that text. -/
def ComposedImage (whole : String → ImageData → Prop) : Prop :=
  Composed (fun s => Reader.bytes .value (.ofJson (.string s)))
    (fun p : List UInt8 × UInt32 × UInt32 => ImageData.mk p.1 p.2.1 p.2.2) whole

theorem takesOneText_of_composed {place : Nat} {reads : Json → ImageData → Prop}
    (h : ∀ v : Json, ComposedImage fun s image =>
      reads (v.withField "data" place (.string s)) image) :
    TakesOneText place reads := by
  intro v s image
  obtain ⟨others, hReads⟩ := h v
  have hText : ∀ (s : String) (image : ImageData),
      reads (v.withField "data" place (.string s)) image ↔
        s = Base64.encode image.data ∧ others (image.width, image.height) := by
    intro s image
    refine (hReads s image).trans ⟨?_, ?_⟩
    · rintro ⟨data, ⟨width, height⟩, hRead, hOthers, rfl⟩
      exact ⟨bytes_eq_ok_iff.mp hRead, hOthers⟩
    · rintro ⟨hText, hOthers⟩
      exact ⟨image.data, (image.width, image.height), bytes_eq_ok_iff.mpr hText, hOthers, rfl⟩
  rw [hText, hText, get?_data]
  simp [Base64.encode, Base64.encodeBytes]

/-! ## Images by themselves -/

theorem composed_image (title : String) (origin : Origin) (v : Json) :
    ComposedImage fun s image => (ImageData.fields Unit).reader title origin
      (.ofJson (v.withField "data" 0 (.string s))) = .ok image :=
  Json.composed_reader bytes_of_text (Fields.names_and Fields.names_one Fields.names_one)
    (by decide) title _ origin v

/-! ## Runs -/

theorem read_ofFields_eq_ok {σ α : Type} {tag title : String} {f : Fields Inline σ α}
    {build : α → Inline} {body : Json.Body Inline} {run : Inline}
    (h : (Variant.ofFields tag title f build).read body = .ok run) : ∃ x, build x = run := by
  change (f.map build).readInside title .buffered body = _ at h
  rw [Fields.readInside_map, map_eq_ok_iff] at h
  obtain ⟨x, -, hRun⟩ := h
  exact ⟨x, hRun⟩

theorem composed_variant {variant : Variant Inline} (hVariant : variant ∈ Inline.variants)
    (j : Json) :
    ComposedImage fun s image => variant.read (Json.bodyOf Inline.records.offer
      (j.withField "data" 0 (.string s))) = .ok (.image image) := by
  simp only [Inline.variants, List.mem_cons, List.not_mem_nil, or_false] at hVariant
  rcases hVariant with rfl | rfl | rfl | rfl | rfl | rfl
  -- Only the third variant makes an image.
  case inr.inr.inl =>
    have hImage : ComposedImage fun s image =>
        (ImageData.fields Inline).readInside "struct ImageRun" .buffered
          (Json.bodyOf Inline.records.offer (j.withField "data" 0 (.string s))) = .ok image :=
      Json.composed_readInside (fun _ => rfl) (bytes_of_text .buffered)
        (Fields.names_and Fields.names_one Fields.names_one) (by decide) "struct ImageRun" _ j
    refine hImage.congr fun s image => ?_
    change ((ImageData.fields Inline).map Inline.image).readInside _ _ _ = _ ↔ _
    rw [Fields.readInside_map, map_eq_ok_iff]
    simp
  all_goals
    refine .of_none fun s image h => ?_
    obtain ⟨x, hImage⟩ := read_ofFields_eq_ok h
    cases hImage

theorem composed_run (origin : Origin) (v : Json) :
    ComposedImage fun s image => Inline.reader origin
      (.ofJson (v.withField "data" 1 (.string s))) = .ok (.image image) :=
  Json.Tagged.composed_tagged (by decide) (fun _ => composed_variant) origin v

/-! ## Images as values -/

theorem sorted_withData (v : Json) (place : Nat) (s : String) :
    (v.withField "data" place (.string s)).sorted = v.sorted.withField "data" place (.string s) :=
  Json.sorted_withField rfl v "data" place

theorem takesOneText_image :
    TakesOneText 0 fun v image => ImageData.reader.ofValue v = .ok image := by
  refine takesOneText_of_composed fun v => ?_
  simp only [Reader.ofValue, sorted_withData]
  exact composed_image "struct ImageData" .value v.sorted

theorem takesOneText_run :
    TakesOneText 1 fun v image => Inline.reader.ofValue v = .ok (.image image) := by
  refine takesOneText_of_composed fun v => ?_
  simp only [Reader.ofValue, sorted_withData]
  exact composed_run .value v.sorted

theorem ofValue_image (image : ImageData) : ImageData.reader.ofValue image.toJson = .ok image :=
  ImageData.restores .byKey .value image rfl

theorem ofValue_run (image : ImageData) :
    Inline.reader.ofValue (Inline.image image).toJson = .ok (.image image) :=
  Inline.restores .byKey .value (.image image) rfl

/-- An image is read with some bytes if and only if the text of these bytes stands in their field. That
is what the bytes are written as, and what spells them. The title is the name of the record that is
read; the origin is a text with room for some brackets, a value, or the inside of another run. -/
theorem image_bytes_have_one_text :
    (∀ title origin, TakesOneText 0 fun v image =>
        (ImageData.fields Unit).reader title origin (.ofJson v) = .ok image) ∧
      (∀ origin, TakesOneText 1 fun v image =>
        Inline.reader origin (.ofJson v) = .ok (.image image)) ∧
      TakesOneText 0 (fun v image => ImageData.reader.ofValue v = .ok image) ∧
      TakesOneText 1 (fun v image => Inline.reader.ofValue v = .ok (.image image)) ∧
      (∀ image : ImageData, ImageData.reader.ofValue image.toJson = .ok image ∧
        Inline.reader.ofValue (Inline.image image).toJson = .ok (.image image)) ∧
      ∀ (image : ImageData) (bytes : List UInt8) (s : String),
        (ImageData.reader.ofValue (image.toJson.withField "data" 0 (.string s)) =
            .ok { image with data := bytes } ↔ Base64.Spells s bytes) ∧
          (Inline.reader.ofValue ((Inline.image image).toJson.withField "data" 1 (.string s)) =
            .ok (.image { image with data := bytes }) ↔ Base64.Spells s bytes) ∧
          ({ image with data := bytes }.toJson.get? "data" = some (.string s) ↔
            Base64.Spells s bytes) ∧
          ((Inline.image { image with data := bytes }).toJson.get? "data" = some (.string s) ↔
            Base64.Spells s bytes) := by
  refine ⟨fun title origin => takesOneText_of_composed (composed_image title origin),
    fun origin => takesOneText_of_composed (composed_run origin), takesOneText_image,
    takesOneText_run, fun image => ⟨ofValue_image image, ofValue_run image⟩,
    fun image bytes s => ?_⟩
  have hText : { image with data := bytes }.toJson.get? "data" = some (.string s) ↔
      Base64.Spells s bytes := get?_data.trans Base64.eq_encode_iff_spells
  -- With no text at all, the record is that of the image without bytes.
  refine ⟨?_, ?_, hText, hText⟩
  · rw [← hText]
    exact (takesOneText_image image.toJson s { image with data := bytes }).trans
      (and_iff_left (ofValue_image { image with data := [] }))
  · rw [← hText]
    exact (takesOneText_run (Inline.image image).toJson s { image with data := bytes }).trans
      (and_iff_left (ofValue_run { image with data := [] }))

end Manuscript
