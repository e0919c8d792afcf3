import Manuscript.Conversion.Run
import Manuscript.Proofs.Except
import Manuscript.Proofs.Layout.Images
import Manuscript.Proofs.Resolution.Outcomes
import Manuscript.Proofs.Tree.Positions

/-!
# Images of a conversion

Resolving the images of a tree and laying the tree out go through the tree in two ways, and meet in
the table of images. The table holds the outcome of the resolver for every image of the tree,
whatever the schedule was, and these are all images that the layout can ask for. So a conversion is
the layout with the table of all outcomes, and lacks an image only if the resolver says so.
-/

namespace Manuscript

open Resolution (Resolver)

theorem Keyed.size_eq_card {α : Type} (t : Keyed α) {keys : List String}
    (h : ∀ key, (∃ x, t.find? key = some x) ↔ key ∈ keys) : t.size = keys.toFinset.card := by
  have hKeys : (t.entries.map Prod.fst).toFinset = keys.toFinset := by
    ext key
    rw [List.mem_toFinset, List.mem_toFinset, ← h, List.mem_map]
    constructor
    · rintro ⟨⟨_, x⟩, hMem, rfl⟩
      exact ⟨x, t.mem_entries_iff.mp hMem⟩
    · rintro ⟨x, hFind⟩
      exact ⟨(key, x), t.mem_entries_iff.mpr hFind, rfl⟩
  calc
    t.size = (t.entries.map Prod.fst).length := (List.length_map _).symm
    _ = (t.entries.map Prod.fst).toFinset.card := (List.toFinset_card_of_nodup t.nodup_keys).symm
    _ = keys.toFinset.card := congrArg Finset.card hKeys

namespace Config

def withResolver (config : Config) (resolver : Resolver) : Config :=
  { config with resolver := some resolver }

theorem settles_resolveImages (config : Config) (resolver : Resolver) (tree : Tree) :
    Resolution.Settles (resolver.outcome config.timeoutSecs)
      (Node.imageUrls tree.children).eraseDups
      ((config.withResolver resolver).resolveImages tree).result :=
  Resolution.settles_resolveImages resolver config.concurrency config.timeoutSecs tree.children

theorem find?_resolveImages {config : Config} {resolver : Resolver} {tree : Tree}
    {images : ImageTable}
    (h : ((config.withResolver resolver).resolveImages tree).result = .ok images) (url : String)
    (image : ImageData) :
    images.find? url = some image ↔
      url ∈ Node.imageUrls tree.children ∧ resolver.outcome config.timeoutSecs url = .ok image := by
  have hSettles := config.settles_resolveImages resolver tree
  rw [h] at hSettles
  rw [hSettles.find?_eq_some_iff (Resolution.nodup_eraseDups _), List.mem_eraseDups]

/-- The images that a resolution gives are the table of all outcomes. -/
theorem eq_table_of_resolveImages {config : Config} {resolver : Resolver} {tree : Tree}
    {images : ImageTable}
    (h : ((config.withResolver resolver).resolveImages tree).result = .ok images) :
    images = resolver.table config.timeoutSecs (Node.imageUrls tree.children) := by
  refine Keyed.ext_find? fun url => Option.ext fun image => ?_
  rw [find?_resolveImages h, Resolution.find?_table_eq_some_iff]

theorem convert_of_resolveImages {config : Config} {tree : Tree} {images : ImageTable}
    (h : (config.resolveImages tree).result = .ok images) :
    (config.convert tree).result =
      (config.layOut tree images).result.map fun document =>
        (document, Stats.ofDocument document images) := by
  rw [convert]
  simp only [h]
  cases (config.layOut tree images).result <;> rfl

theorem map_fst_convert {config : Config} {tree : Tree} {images : ImageTable}
    (h : (config.resolveImages tree).result = .ok images) :
    (config.convert tree).result.map Prod.fst = (config.layOut tree images).result := by
  rw [convert_of_resolveImages h]
  cases (config.layOut tree images).result <;> rfl

theorem images_of_convert {config : Config} {tree : Tree} {images : ImageTable}
    {document : Document} {stats : Stats} (h : (config.resolveImages tree).result = .ok images)
    (hConvert : (config.convert tree).result = .ok (document, stats)) :
    stats.images = images.size := by
  rw [convert_of_resolveImages h, map_eq_ok_iff] at hConvert
  obtain ⟨laid, -, hSame⟩ := hConvert
  obtain ⟨rfl, rfl⟩ := Prod.mk.inj hSame
  rfl

theorem convert_of_resolveImages_error {config : Config} {tree : Tree} {e : Error}
    (h : (config.resolveImages tree).result = .error e) :
    (config.convert tree).result = .error e := by
  rw [convert]
  simp only [h]

/-- A conversion is the layout with the table of all outcomes, if these are images. The resolution
gives that table, or else the error of one of the images. -/
theorem convert_refines_outcomes (config : Config) (resolver : Resolver) (tree : Tree) :
    let urls := Node.imageUrls tree.children
    let outcome := resolver.outcome config.timeoutSecs
    let table := resolver.table config.timeoutSecs urls
    let resolution := (config.withResolver resolver).resolveImages tree
    let conversion := (config.withResolver resolver).convert tree
    ((∃ images, resolution.result = .ok images) ↔ ∀ url ∈ urls, ∃ image, outcome url = .ok image) ∧
      (∀ images, resolution.result = .ok images →
        ∀ url image, images.find? url = some image ↔ url ∈ urls ∧ outcome url = .ok image) ∧
      (∀ e, resolution.result = .error e → ∃ url ∈ urls, outcome url = .error e) ∧
      ((∀ url ∈ urls, ∃ image, outcome url = .ok image) →
        (∀ url image, table.find? url = some image ↔ url ∈ urls ∧ outcome url = .ok image) ∧
          conversion.result.map Prod.fst = (config.layOut tree table).result ∧
          ∀ document stats, conversion.result = .ok (document, stats) →
            stats.images = urls.toFinset.card) := by
  intro urls outcome table resolution conversion
  have hSettles := config.settles_resolveImages resolver tree
  have hFound : (∃ images, resolution.result = .ok images) ↔
      ∀ url ∈ urls, ∃ image, outcome url = .ok image := by
    refine hSettles.exists_ok_iff.trans ?_
    simp only [List.mem_eraseDups]
    rfl
  refine ⟨hFound, fun images hImages => find?_resolveImages hImages, fun e hError => ?_, fun hAll => ?_⟩
  · rw [hError] at hSettles
    cases hSettles with
    | failed hUrl hOutcome => exact ⟨_, List.mem_eraseDups.mp hUrl, hOutcome⟩
  · have hTable : ∀ url image, table.find? url = some image ↔
        url ∈ urls ∧ outcome url = .ok image := fun _ _ => Resolution.find?_table_eq_some_iff
    have hKeys : ∀ url, (∃ image, table.find? url = some image) ↔ url ∈ urls := by
      intro url
      simp only [hTable]
      exact ⟨fun ⟨_, hUrl, _⟩ => hUrl, fun hUrl => (hAll url hUrl).imp fun _ h => ⟨hUrl, h⟩⟩
    obtain ⟨images, hImages⟩ := hFound.mpr hAll
    obtain rfl : images = table := eq_table_of_resolveImages hImages
    refine ⟨hTable, map_fst_convert hImages, fun document stats hConvert => ?_⟩
    calc
      stats.images = table.size := images_of_convert hImages hConvert
      _ = urls.toFinset.card := table.size_eq_card hKeys

/-! ## Images that the layout asks for -/

theorem withResolver_of_eq {config : Config} {resolver : Resolver}
    (h : config.resolver = some resolver) : config.withResolver resolver = config := by
  rw [withResolver, ← h]

theorem result_layOut (config : Config) (tree : Tree) (images : ImageTable) :
    (config.layOut tree images).result =
      (Layout.layAll config.latex tree.children (.root images) {}).result.map fun laid =>
        .assemble laid.content laid.footnotes config.metadata config.styles := by
  rw [layOut, Document.ofTree]
  obtain ⟨notes, _ | laid⟩ := Layout.layAll config.latex tree.children (.root images) {} <;> rfl

theorem layOut_imageNotResolved {config : Config} {tree : Tree} {images : ImageTable} {url : String}
    (h : (config.layOut tree images).result = .error (.imageNotResolved url)) :
    url ∈ Node.imageUrls tree.children ∧ images.find? url = none := by
  rw [result_layOut] at h
  cases hLaid : (Layout.layAll config.latex tree.children (.root images) {}).result with
  | ok laid =>
    rw [hLaid] at h
    cases h
  | error e =>
    rw [hLaid] at h
    obtain rfl : e = .imageNotResolved url := Except.error.inj h
    exact Layout.layAll_imageNotResolved hLaid

theorem layOut_congr {config : Config} {tree : Tree} {images other : ImageTable}
    (h : ∀ url ∈ Node.imageUrls tree.children, images.find? url = other.find? url) :
    (config.layOut tree images).result = (config.layOut tree other).result := by
  have hAgree : ∀ p ∈ Site.ofNodes Layout.showsInside [] tree.children,
      Layout.Agree images other p.node :=
    fun p hp url hUrl => h url (Site.url_mem_imageUrls hp hUrl)
  rw [result_layOut, result_layOut,
    ← Layout.layAll_withImages config.latex tree.children (.root images) hAgree]
  rfl

theorem resolveImages_without_resolver {config : Config} (tree : Tree)
    (h : config.resolver = none) :
    (Node.imageUrls tree.children = [] ∧ (config.resolveImages tree).result = .ok .empty) ∨
      (config.resolveImages tree).result =
        .error (.missingImageResolver (Node.imageUrls tree.children).length) := by
  change _ ∧ (Resolution.resolveImages config.resolver _ _ _).result = _ ∨
    (Resolution.resolveImages config.resolver _ _ _).result = _
  rw [h, Resolution.resolveImages]
  split
  · rename_i hNone
    exact .inl ⟨hNone, rfl⟩
  · rename_i url rest hUrls
    exact .inr (by rw [hUrls])

/-- A resolution without an error has all images of the tree, also if there is no resolver. -/
theorem exists_find?_of_resolveImages {config : Config} {tree : Tree} {images : ImageTable}
    (h : (config.resolveImages tree).result = .ok images) {url : String}
    (hUrl : url ∈ Node.imageUrls tree.children) : ∃ image, images.find? url = some image := by
  cases hResolver : config.resolver with
  | none =>
    rcases resolveImages_without_resolver tree hResolver with ⟨hNone, _⟩ | hMissing
    · rw [hNone] at hUrl
      cases hUrl
    · rw [hMissing] at h
      cases h
  | some resolver =>
    rw [← withResolver_of_eq hResolver] at h
    have hSettles := config.settles_resolveImages resolver tree
    rw [h] at hSettles
    obtain ⟨image, hImage⟩ :=
      hSettles.exists_ok_iff.mp ⟨images, rfl⟩ url (List.mem_eraseDups.mpr hUrl)
    exact ⟨image, (find?_resolveImages h url image).mpr ⟨hUrl, hImage⟩⟩

/-- An image is missing after a resolution only if the resolver says so. -/
theorem resolveImages_imageNotResolved {config : Config} {tree : Tree} {url : String}
    (h : (config.resolveImages tree).result = .error (.imageNotResolved url)) :
    ∃ resolver asked, config.resolver = some resolver ∧ asked ∈ Node.imageUrls tree.children ∧
      (resolver.reply asked).answer = some (.error (.imageNotResolved url)) := by
  cases hResolver : config.resolver with
  | none =>
    rcases resolveImages_without_resolver tree hResolver with ⟨_, hEmpty⟩ | hMissing
    · rw [hEmpty] at h
      cases h
    · rw [hMissing] at h
      cases h
  | some resolver =>
    rw [← withResolver_of_eq hResolver] at h
    have hSettles := config.settles_resolveImages resolver tree
    rw [h] at hSettles
    cases hSettles with
    | @failed asked e hAsked hOutcome =>
      exact ⟨resolver, asked, rfl, List.mem_eraseDups.mp hAsked,
        Resolution.answer_of_outcome hOutcome (by rintro ⟨⟩)⟩

/-- The layout asks for images of the tree alone, and a resolution finds all of these or ends the
conversion. The images of the tree are those that stand in it at some position, one for each position
and in the order of the positions. -/
theorem images_asked_for_are_resolved (config : Config) (tree : Tree) :
    (∀ (other : Config) (images images' : ImageTable),
        (∀ url ∈ Node.imageUrls tree.children, images.find? url = images'.find? url) →
          (other.layOut tree images).result = (other.layOut tree images').result) ∧
      (∀ (other : Config) (images : ImageTable) (url : String),
        (other.layOut tree images).result = .error (.imageNotResolved url) →
          url ∈ Node.imageUrls tree.children) ∧
      (∀ images, (config.resolveImages tree).result = .ok images →
        ∀ (other : Config) (url : String),
          (other.layOut tree images).result ≠ .error (.imageNotResolved url)) ∧
      (∀ url, (config.convert tree).result = .error (.imageNotResolved url) →
        ∃ resolver asked, config.resolver = some resolver ∧
          asked ∈ Node.imageUrls tree.children ∧
            (resolver.reply asked).answer = some (.error (.imageNotResolved url))) ∧
      ∃ entries : List (List Nat × String),
        entries.map Prod.snd = Node.imageUrls tree.children ∧
          (entries.map Prod.fst).Pairwise (· < ·) ∧
          ∀ path url, (path, url) ∈ entries ↔
            ∃ title alt, StandsAt tree.children path (.image url title alt) := by
  have hNever : ∀ images, (config.resolveImages tree).result = .ok images →
      ∀ (other : Config) (url : String),
        (other.layOut tree images).result ≠ .error (.imageNotResolved url) := by
    intro images hImages other url hMissing
    obtain ⟨hUrl, hAbsent⟩ := layOut_imageNotResolved hMissing
    obtain ⟨image, hFound⟩ := exists_find?_of_resolveImages hImages hUrl
    rw [hAbsent] at hFound
    cases hFound
  refine ⟨fun other images images' hAgree => layOut_congr hAgree,
    fun other images url hMissing => (layOut_imageNotResolved hMissing).1, hNever,
    fun url hConvert => ?_, Node.imagePositions tree.children,
    Node.map_snd_imagePositions tree.children, Node.pairwise_imagePositions tree.children,
    fun path url => Node.mem_imagePositions_iff⟩
  cases hResolution : (config.resolveImages tree).result with
  | error e =>
    rw [convert_of_resolveImages_error hResolution] at hConvert
    obtain rfl : e = .imageNotResolved url := Except.error.inj hConvert
    exact resolveImages_imageNotResolved hResolution
  | ok images =>
    rw [convert_of_resolveImages hResolution] at hConvert
    cases hLaid : (config.layOut tree images).result with
    | ok document =>
      rw [hLaid] at hConvert
      cases hConvert
    | error e =>
      rw [hLaid] at hConvert
      obtain rfl : e = .imageNotResolved url := Except.error.inj hConvert
      exact absurd hLaid (hNever images hResolution config url)

end Config

end Manuscript
