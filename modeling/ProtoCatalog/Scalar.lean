import ProtoCatalog.Json.Basic
import ProtoCatalog.Schema.Field

/-!
# The table of scalar types

Every scalar type with a note on its encoding, for reference beside a catalog.
-/

namespace ProtoCatalog
namespace ScalarType

/-- The scalar types in the order in which they are listed. -/
def all : List ScalarType :=
  [double, float, int32, int64, uint32, uint64, sint32, sint64, fixed32, fixed64, sfixed32,
   sfixed64, bool, string, bytes]

theorem mem_all (s : ScalarType) : s ∈ all := by cases s <;> decide

/-- The note on a type that is no good for negative numbers, and the type to use instead. -/
def varintNote (better : ScalarType) : String :=
  "Uses variable-length encoding. Inefficient for encoding negative numbers - if your field is " ++
    "likely to have negative values, use " ++ better.text ++ " instead."

/-- The note on a type that takes negative numbers well, and the type it improves on. -/
def zigzagNote (worse : ScalarType) : String :=
  "Uses variable-length encoding. Signed int value. These more efficiently encode negative " ++
    "numbers than regular " ++ worse.text ++ "s."

/-- The note on a type of fixed width, and the type that it beats beyond a bound. -/
def fixedNote (bytes : String) (worse : ScalarType) (bound : Nat) : String :=
  "Always " ++ bytes ++ " bytes. More efficient than " ++ worse.text ++
    " if values are often greater than 2^" ++ toString bound ++ "."

def notes : ScalarType → String
  | .double => ""
  | .float => ""
  | .int32 => varintNote .sint32
  | .int64 => varintNote .sint64
  | .uint32 => "Uses variable-length encoding."
  | .uint64 => "Uses variable-length encoding."
  | .sint32 => zigzagNote .int32
  | .sint64 => zigzagNote .int64
  | .fixed32 => fixedNote "four" .uint32 28
  | .fixed64 => fixedNote "eight" .uint64 56
  | .sfixed32 => "Always four bytes."
  | .sfixed64 => "Always eight bytes."
  | .bool => ""
  | .string => "A string must always contain UTF-8 encoded or 7-bit ASCII text."
  | .bytes => "May contain any arbitrary sequence of bytes."

def toJson (s : ScalarType) : Json :=
  .obj [("protoType", .str s.text), ("notes", .str s.notes)]

end ScalarType
end ProtoCatalog
