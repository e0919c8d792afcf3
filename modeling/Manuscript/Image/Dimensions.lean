import Manuscript.Image.Format
import Manuscript.Image.Jpeg
import Manuscript.Image.Png

/-!
# The dimensions of images

The headers that the program reads. The size of an image is read from its header and not from its
pixels. Only two formats are supported.
-/

namespace Manuscript.Image

/-- Why the size of an image cannot be told. -/
inductive Unreadable
  | unknownFormat
  | unsupportedFormat (format : Format)
  | header
deriving DecidableEq, Repr

def Unreadable.message : Unreadable → String
  | .unknownFormat => "The image format could not be determined"
  | .unsupportedFormat format => s!"The image format {format.name} is not supported"
  | .header => "The header of the image is malformed"

/-- The size of an image, or that its header is malformed. -/
def ofHeader : Option Size → Except Unreadable Size
  | some size => .ok size
  | none => .error .header

def size (bytes : List UInt8) : Except Unreadable Size :=
  match Format.ofBytes? bytes with
  | none => .error .unknownFormat
  | some .png => ofHeader (Png.size? bytes)
  | some .jpeg => ofHeader (Jpeg.size? bytes)
  | some format => .error (.unsupportedFormat format)

end Manuscript.Image
