/-!
# Image formats

The format of an image is told by its first bytes alone.
-/

namespace Manuscript.Image

inductive Format
  | png
  | jpeg
  | gif
  | webP
  | tiff
  | dds
  | bmp
  | ico
  | hdr
  | avif
  | openExr
  | qoi
  | pnm
  | farbfeld
deriving DecidableEq, Repr

namespace Format

def name : Format → String
  | .png => "Png"
  | .jpeg => "Jpeg"
  | .gif => "Gif"
  | .webP => "WebP"
  | .tiff => "Tiff"
  | .dds => "Dds"
  | .bmp => "Bmp"
  | .ico => "Ico"
  | .hdr => "Hdr"
  | .avif => "Avif"
  | .openExr => "OpenExr"
  | .qoi => "Qoi"
  | .pnm => "Pnm"
  | .farbfeld => "Farbfeld"

/-- The bytes at the front of an image, some of which may be any. -/
abbrev Signature := List (Option UInt8)

/-- The bytes of an ASCII text. -/
def spelled (s : String) : Signature :=
  s.toList.map fun c => some (UInt8.ofNat c.toNat)

def given (bytes : List UInt8) : Signature :=
  bytes.map some

def gap (n : Nat) : Signature :=
  List.replicate n none

/-- The first signature that fits decides. -/
def signatures : List (Signature × Format) := [
  (given [0x89] ++ spelled "PNG\r\n" ++ given [0x1A, 0x0A], .png),
  (given [0xFF, 0xD8, 0xFF], .jpeg),
  (spelled "GIF89a", .gif),
  (spelled "GIF87a", .gif),
  (spelled "RIFF" ++ gap 4 ++ spelled "WEBP", .webP),
  (spelled "MM\x00*", .tiff),
  (spelled "II*\x00", .tiff),
  (spelled "DDS ", .dds),
  (spelled "BM", .bmp),
  (given [0x00, 0x00, 0x01, 0x00], .ico),
  (spelled "#?RADIANCE", .hdr),
  (given [0x00, 0x00] ++ gap 2 ++ spelled "ftypavif", .avif),
  (given [0x76, 0x2F, 0x31, 0x01], .openExr),
  (spelled "qoif", .qoi),
  (spelled "P1", .pnm),
  (spelled "P2", .pnm),
  (spelled "P3", .pnm),
  (spelled "P4", .pnm),
  (spelled "P5", .pnm),
  (spelled "P6", .pnm),
  (spelled "P7", .pnm),
  (spelled "farbfeld", .farbfeld)]

def fits : Signature → List UInt8 → Bool
  | [], _ => true
  | _ :: _, [] => false
  | none :: signature, _ :: bytes => fits signature bytes
  | some b :: signature, byte :: bytes => b == byte && fits signature bytes

def ofBytes? (bytes : List UInt8) : Option Format :=
  (signatures.find? fun (signature, _) => fits signature bytes).map Prod.snd

end Format

end Manuscript.Image
