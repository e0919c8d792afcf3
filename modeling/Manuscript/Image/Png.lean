import Manuscript.Image.Checksum
import Manuscript.Image.Size

/-!
# PNG headers

Behind the signature an image consists of chunks: a length, a kind of four letters, that many bytes
and a checksum of kind and bytes. The first chunk holds the size. An image without pixel data is not
accepted, although the data themselves are never looked at.
-/

namespace Manuscript.Image

namespace Png

def word (a b c d : UInt8) : UInt32 :=
  a.toUInt32 <<< 24 ||| b.toUInt32 <<< 16 ||| c.toUInt32 <<< 8 ||| d.toUInt32

def signatureSize : Nat := 8

inductive Kind
  | header
  | data
  | finish
  /-- Another chunk. A reader that does not know it may skip it if it is ancillary. -/
  | other (ancillary : Bool)
deriving DecidableEq, Repr

/-- The kind of a chunk; a small first letter makes it ancillary. -/
def kindOf (a b c d : UInt8) : Kind :=
  if [a, b, c, d] = [0x49, 0x48, 0x44, 0x52] then .header
  else if [a, b, c, d] = [0x49, 0x44, 0x41, 0x54] then .data
  else if [a, b, c, d] = [0x49, 0x45, 0x4E, 0x44] then .finish
  else .other (a &&& 0x20 != 0)

structure Chunk where
  kind : Kind
  body : List UInt8
  sound : Bool
  rest : List UInt8

/-- The chunk at the front of some bytes; its body and its checksum may break off. -/
def chunk? : List UInt8 → Option Chunk
  | l₀ :: l₁ :: l₂ :: l₃ :: a :: b :: c :: d :: bytes =>
    let length := (word l₀ l₁ l₂ l₃).toNat
    let body := bytes.take length
    match bytes.drop length with
    | s₀ :: s₁ :: s₂ :: s₃ :: rest =>
      some ⟨kindOf a b c d, body, word s₀ s₁ s₂ s₃ = checksum (a :: b :: c :: d :: body), rest⟩
    | _ => some ⟨kindOf a b c d, body, false, []⟩
  | _ => none

theorem length_chunk? {bytes : List UInt8} {chunk : Chunk} (h : chunk? bytes = some chunk) :
    chunk.rest.length < bytes.length := by
  unfold chunk? at h
  split at h
  · simp only at h
    split at h
    · rename_i heq
      cases h
      have := congrArg List.length heq
      simp only [List.length_drop, List.length_cons] at this ⊢
      omega
    · cases h
      simp
  · cases h

/-- Whether a colour type allows a number of bits for each sample. -/
def allows (colour depth : UInt8) : Bool :=
  match colour with
  | 0 => [1, 2, 4, 8, 16].contains depth
  | 3 => [1, 2, 4, 8].contains depth
  | 2 | 4 | 6 => [8, 16].contains depth
  | _ => false

/-- The bytes of a pixel when it is read: a sample takes one or two, and an index into the palette
stands for three samples. -/
def pixelSize (colour depth : UInt8) : Nat :=
  let samples := match colour with
    | 2 | 3 => 3
    | 4 => 2
    | 6 => 4
    | _ => 1
  if depth = 16 then 2 * samples else samples

/-- The bytes that a row of pixels may take, half a gibibyte. -/
def maxRow : Nat := 0x20000000

def sizeOfHeader? : List UInt8 → Option Size
  | [w₀, w₁, w₂, w₃, h₀, h₁, h₂, h₃, depth, colour, compression, filter, interlace] =>
    let width := word w₀ w₁ w₂ w₃
    let height := word h₀ h₁ h₂ h₃
    if width ≠ 0 ∧ height ≠ 0 ∧ allows colour depth ∧ compression = 0 ∧ filter = 0
        ∧ interlace ≤ 1 ∧ width.toNat * pixelSize colour depth ≤ maxRow then
      some ⟨width, height⟩
    else none
  | _ => none

/-- Whether the chunks lead to pixel data. -/
def reachesData (bytes : List UInt8) : Bool :=
  match _h : chunk? bytes with
  | none => false
  | some chunk =>
    match chunk.kind with
    | .data => true
    | .header | .finish => false
    | .other ancillary => (ancillary || chunk.sound) && reachesData chunk.rest
termination_by bytes.length
decreasing_by exact length_chunk? ‹_›

def size? (bytes : List UInt8) : Option Size := do
  let chunk ← chunk? (bytes.drop signatureSize)
  if chunk.kind = .header ∧ chunk.sound ∧ reachesData chunk.rest then sizeOfHeader? chunk.body
  else none

end Png

end Manuscript.Image
