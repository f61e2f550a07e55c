import Conform.Conversion.Calendar
import Conform.Conversion.Container
import Conform.Conversion.Scalar
import Conform.Conversion.Textual
import Conform.Registry

/-!
The standard registry: a converter for every kind, with room above those of sequences and mappings.
-/

namespace Conform.Registry

/-- One entry for each kind, all of one priority. -/
def standardEntries : List Entry :=
  [⟨"null", .exact .null, Converter.toNull, 0⟩,
    ⟨"bool", .exact .bool, Converter.toBool, 0⟩,
    ⟨"int", .exact .int, Converter.toInt, 0⟩,
    ⟨"float", .exact .float, Converter.toFloat, 0⟩,
    ⟨"decimal", .exact .decimal, Converter.toDecimal, 0⟩,
    ⟨"str", .exact .str, Converter.toStr, 0⟩,
    ⟨"bytes", .exact .bytes, Converter.toBytes, 0⟩,
    ⟨"uuid", .exact .uuid, Converter.toUuid, 0⟩,
    ⟨"enum", .exact .enum, Converter.toMember, 0⟩,
    ⟨"date", .exact .date, Converter.toDate, 0⟩,
    ⟨"time", .exact .time, Converter.toTime, 0⟩,
    ⟨"datetime", .exact .datetime, Converter.toDateTime, 0⟩,
    ⟨"duration", .exact .duration, Converter.toDuration, 0⟩,
    ⟨"sequence", .category .sequence, Converter.toSequence, -10⟩,
    ⟨"mapping", .category .mapping, Converter.toMap, -10⟩]

/-- The standard registry. -/
def standard : Registry := standardEntries.foldl register empty

end Conform.Registry
