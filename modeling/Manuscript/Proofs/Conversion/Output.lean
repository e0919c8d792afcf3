import Manuscript.Conversion.Run
import Manuscript.Proofs.Files.FileSystem

/-!
# Conversions to files

A conversion to a file writes the whole file or none. A failure leaves every file as it was, and
before there are bytes to write nothing is touched at all.
-/

namespace Manuscript.Config

open Files (FileSystem)
open Files.FileSystem (Kept Opens write_cases)

section

variable (config : Config) (serializer : Serializer) (tree : Tree) (path : String)
  (files : FileSystem)

theorem convertToFile_of_unserialized {e : Error}
    (h : (config.convertToBytes serializer tree).result = .error e) :
    (config.convertToFile serializer tree path files).1 = files ∧
      (config.convertToFile serializer tree path files).2.result = .error e := by
  rw [convertToFile, h]
  exact ⟨rfl, rfl⟩

theorem convertToFile_of_refused {serialized : Serialized} {stats : Stats} {after : FileSystem}
    {cause : Files.Cause}
    (h : (config.convertToBytes serializer tree).result = .ok (serialized, stats))
    (hWrite : files.write path serialized.bytes = (after, .error cause)) :
    (config.convertToFile serializer tree path files).1 = after ∧
      (config.convertToFile serializer tree path files).2.result =
        .error (.outputWriteFailed path cause.message) := by
  simp [convertToFile, h, hWrite, Run.andThen]

theorem convertToFile_of_written {serialized : Serialized} {stats : Stats} {after : FileSystem}
    (h : (config.convertToBytes serializer tree).result = .ok (serialized, stats))
    (hWrite : files.write path serialized.bytes = (after, .ok ())) :
    (config.convertToFile serializer tree path files).1 = after ∧
      (config.convertToFile serializer tree path files).2.result = .ok stats := by
  simp [convertToFile, h, hWrite, Run.andThen]

end

/-- A conversion to a file leaves the whole file in its place or no trace but new directories on the
way to it. Before there are bytes to write it does not touch anything. -/
theorem file_output_is_all_or_nothing (config : Config) (serializer : Serializer) (tree : Tree)
    (path : String) (files : FileSystem) :
    let after := (config.convertToFile serializer tree path files).1
    let bytes := (config.convertToBytes serializer tree).result
    (∀ e, bytes = .error e → after = files) ∧
      match (config.convertToFile serializer tree path files).2.result with
      | .error e =>
        (bytes = .error e ∨ ∃ cause, e = .outputWriteFailed path cause) ∧
          (∀ place, Kept files after (Files.parents path) place) ∧
          ∀ place content, after.at? place = some (.file content) ↔
            files.at? place = some (.file content)
      | .ok stats => ∃ serialized place, bytes = .ok (serialized, stats) ∧
          after.find path = .ok place ∧ after.read path = .ok serialized.bytes ∧
          (∀ other, other ≠ place → Kept files after (Files.parents path) other) ∧
          (∀ other content, other ≠ place → (after.at? other = some (.file content) ↔
            files.at? other = some (.file content))) ∧
          ∀ dir ∈ Files.parents path, after.isDirectory dir = true := by
  intro after bytes
  cases hBytes : (config.convertToBytes serializer tree).result with
  | error e =>
    obtain ⟨hAfter, hResult⟩ :=
      convertToFile_of_unserialized config serializer tree path files hBytes
    have hSame : after = files := hAfter
    rw [hResult]
    refine ⟨fun _ _ => hSame, .inl hBytes, fun place => .inl ?_, fun place content => ?_⟩
    · rw [hSame]
    · rw [hSame]
  | ok converted =>
    obtain ⟨serialized, stats⟩ := converted
    have hBytes' : bytes = .ok (serialized, stats) := hBytes
    refine ⟨fun e he => ?_, ?_⟩
    · rw [hBytes'] at he
      cases he
    obtain ⟨made, cause, hOpens, hWrite⟩ | ⟨made, place, hOpens, hPlace, hOther, hFind, hWrite⟩ :=
      files.write_cases path serialized.bytes
    · obtain ⟨hAfter, hResult⟩ :=
        convertToFile_of_refused config serializer tree path files hBytes hWrite
      have hMade : after = made := hAfter
      rw [hResult, hMade]
      exact ⟨.inr ⟨cause.message, rfl⟩, hOpens.kept, fun place => (hOpens.kept place).file_iff⟩
    · obtain ⟨hAfter, hResult⟩ :=
        convertToFile_of_written config serializer tree path files hBytes hWrite
      have hMade : after = made.put place (.file serialized.bytes) := hAfter
      have hEntry : (made.put place (.file serialized.bytes)).at? place =
          some (.file serialized.bytes) := by
        rw [Files.FileSystem.at?_put made hPlace, if_pos rfl]
      have hKept := hOpens.kept_put hPlace hOther (.file serialized.bytes)
      rw [hResult, hMade]
      exact ⟨serialized, place, hBytes, hFind, Files.FileSystem.read_of_find hFind hEntry,
        hKept, fun other content hNe => (hKept other hNe).file_iff content,
        Files.FileSystem.isDirectory_parents hFind⟩

end Manuscript.Config
