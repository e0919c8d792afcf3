import Manuscript.Document.Basic
import Manuscript.Json.Record

/-!
# Statistics

What a conversion counts, and how long it took. A conversion has no clock: the durations are zero
until something around it that has one fills them in.
-/

namespace Manuscript

open Json (natural)
open Json.Fields (required)
open Json (Reader)

structure Stats where
  /-- The paragraphs of the body. -/
  blocks : Nat
  footnotes : Nat
  images : Nat
  /-- Durations in milliseconds. -/
  resolveMs : UInt64 := 0
  transformMs : UInt64 := 0
  totalMs : UInt64 := 0
deriving DecidableEq, Repr

namespace Stats

def ofDocument (document : Document) (images : ImageTable) : Stats :=
  { blocks := document.body.length
    footnotes := document.footnotes.size
    images := images.size }

def toJson (stats : Stats) : Json :=
  .object
    [("blocks", natural stats.blocks), ("footnotes", natural stats.footnotes),
      ("images", natural stats.images), ("resolve_duration_ms", natural stats.resolveMs.toNat),
      ("transform_duration_ms", natural stats.transformMs.toNat),
      ("total_duration_ms", natural stats.totalMs.toNat)]

def reader : Reader Stats :=
  ((required "blocks" Reader.size).and ((required "footnotes" Reader.size).and
      ((required "images" Reader.size).and ((required "resolve_duration_ms" Reader.word64).and
        ((required "transform_duration_ms" Reader.word64).and
          (required "total_duration_ms" Reader.word64)))))
    |>.map fun (blocks, footnotes, images, resolveMs, transformMs, totalMs) =>
      Stats.mk blocks footnotes images resolveMs transformMs totalMs).reader
    "struct ConversionStats"

end Stats

end Manuscript
