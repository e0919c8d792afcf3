/-!
# Sizes of images

Sizes are in pixels. How the header of an image tells its size is left open here: that depends on the
formats that are known.
-/

namespace Manuscript.Image

structure Size where
  width : UInt32
  height : UInt32
deriving DecidableEq, Repr

/-- What tells the size of an image from its bytes, or says why there is none. -/
abbrev Headers := List UInt8 → Except String Size

end Manuscript.Image
