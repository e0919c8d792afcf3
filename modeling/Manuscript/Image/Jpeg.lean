import Manuscript.Image.Size

/-!
# JPEG headers

An image is a row of segments, each behind a marker: a byte 255 and a byte that is neither 0 nor
255. The first two bytes of a segment are its length, these two included. The size stands in the
frame header; the headers end with the first scan.
-/

namespace Manuscript.Image.Jpeg

/-- The next marker and what stands behind it. -/
def nextMarker? : List UInt8 → Option (UInt8 × List UInt8)
  | a :: b :: rest =>
    if a = 0xFF ∧ b ≠ 0x00 ∧ b ≠ 0xFF then some (b, rest) else nextMarker? (b :: rest)
  | _ => none

theorem length_nextMarker? {bytes rest : List UInt8} {marker : UInt8}
    (h : nextMarker? bytes = some (marker, rest)) : rest.length < bytes.length := by
  fun_induction nextMarker? bytes with
  | case1 a b after hm =>
    cases h
    simp only [List.length_cons]
    omega
  | case2 a b after hm ih =>
    have := ih h
    simp only [List.length_cons] at this ⊢
    omega
  | case3 => cases h

def half (a b : UInt8) : Nat :=
  256 * a.toNat + b.toNat

def segment? : List UInt8 → Option (List UInt8 × List UInt8)
  | a :: b :: bytes =>
    let size := half a b - 2
    if 2 ≤ half a b ∧ size ≤ bytes.length then some (bytes.take size, bytes.drop size) else none
  | _ => none

theorem length_segment? {bytes body rest : List UInt8} (h : segment? bytes = some (body, rest)) :
    rest.length < bytes.length := by
  unfold segment? at h
  split at h
  · simp only at h
    split at h
    · cases h
      simp only [List.length_drop, List.length_cons]
      omega
    · cases h
  · cases h

/-- The size that a frame header gives: samples have eight bits, and three bytes describe each
component. -/
def sizeOfFrame? : List UInt8 → Option Size
  | depth :: h₀ :: h₁ :: w₀ :: w₁ :: components :: described =>
    if depth = 8 ∧ half h₀ h₁ ≠ 0 ∧ half w₀ w₁ ≠ 0 ∧ components ≠ 0
        ∧ described.length = 3 * components.toNat then
      some ⟨UInt32.ofNat (half w₀ w₁), UInt32.ofNat (half h₀ h₁)⟩
    else none
  | _ => none

/-- Whether a segment is the header of a scan: two bytes for each of up to four components, and
three more. -/
def isScan : List UInt8 → Bool
  | components :: described =>
    1 ≤ components && components ≤ 4 && described.length == 2 * components.toNat + 3
  | [] => false

inductive Marker
  | frame
  | scan
  /-- A frame of another kind, the end of the image, or what belongs to neither. -/
  | refused
  | other
deriving DecidableEq, Repr

def markerOf (b : UInt8) : Marker :=
  if b = 0xC0 ∨ b = 0xC2 then .frame
  else if b = 0xDA then .scan
  else if b = 0xC4 ∨ b = 0xC8 then .other
  else if (0xC0 ≤ b ∧ b ≤ 0xCF) ∨ b = 0xD9 ∨ b = 0xDC then .refused
  else .other

/-- The size that the segments up to the first scan give, the last frame header if there are
several. -/
def sizeFrom? (found : Option Size) (bytes : List UInt8) : Option Size :=
  match _hm : nextMarker? bytes with
  | none => none
  | some (marker, behind) =>
    match _hs : segment? behind with
    | none => none
    | some (body, rest) =>
      match markerOf marker with
      | .frame =>
        match sizeOfFrame? body with
        | some size => sizeFrom? (some size) rest
        | none => none
      | .scan => if isScan body then found else none
      | .refused => none
      | .other => sizeFrom? found rest
termination_by bytes.length
decreasing_by
  all_goals exact Nat.lt_trans (length_segment? ‹_›) (length_nextMarker? ‹_›)

def size? (bytes : List UInt8) : Option Size :=
  sizeFrom? none (bytes.drop 2)

end Manuscript.Image.Jpeg
