import ProtoCatalog.Schema.Pool

/-!
# Annotations

The pool that the program is run with: the rule that maps a method to HTTP, five annotations for
every kind of options message, and two extensions outside any package that have the names of options
that are built in.
-/

namespace ProtoCatalog
namespace Annotations

open FieldKind

/-- A message with a field of every kind. -/
def metadata : MessageType := .declared "acme.Meta"

/-- The entries of the map in metadata. -/
def countsEntry : MessageType := .declared "acme.Meta.CountsEntry"

def level : EnumType := .declared [(0, "LOW"), (7, "HIGH"), (-3, "NEG")] false

def metadataFields : List FieldSpec :=
  [.one 1 "d" .double, .one 2 "f" .float, .one 3 "i32" .int32, .one 4 "i64" .int64,
   .one 5 "u32" .uint32, .one 6 "u64" .uint64, .one 7 "s32" .sint32, .one 8 "s64" .sint64,
   .one 9 "x32" .fixed32, .one 10 "x64" .fixed64, .one 11 "sx32" .sfixed32,
   .one 12 "sx64" .sfixed64, .one 13 "b" .bool, .one 14 "s" .string, .one 15 "raw" .bytes,
   .one 16 "level" (.enumeration level), .one 17 "child" (.message metadata),
   .many 18 "nums" .int32, .many 19 "kids" (.message metadata), .many 20 "blobs" .bytes,
   .many 21 "levels" (.enumeration level), .many 22 "big_nums" .uint64,
   .one 23 "long_snake_name" .string, .renamed "otherName" (.one 24 "renamed" .string),
   .map 25 "counts" countsEntry, .one 26 "_odd__name_2x" .bool]

def messages : Table (List FieldSpec) :=
  Table.ofList [(metadata.fullName, metadataFields),
    (countsEntry.fullName, [.one 1 "key" .string, .one 2 "value" .int32])]

/-- The annotations of an options message, by the kind of declaration that it belongs to. -/
def ofOptions (t : MessageType) (kind : String) : List Extension :=
  [⟨t, 50001, "acme", kind ++ "_note", .string, false⟩,
   ⟨t, 50002, "acme", kind ++ "_tags", .string, true⟩,
   ⟨t, 50003, "acme", kind ++ "_meta", .message metadata, false⟩,
   ⟨t, 50004, "acme", kind ++ "_value", .message .value, false⟩,
   ⟨t, 50005, "acme", kind ++ "_any", .message .any, false⟩]

/-- The extension that holds the rule of a method. -/
def httpRule : Extension :=
  ⟨.methodOptions, 72295728, "google.api", "http", .message .httpRule, false⟩

/-- Extensions with the names of options that are built in. -/
def namesakes : List Extension :=
  [⟨.fieldOptions, 50010, "", "deprecated", .string, false⟩,
   ⟨.methodOptions, 50010, "", "idempotency_level", .string, false⟩]

def extensions : List Extension :=
  ofOptions .fileOptions "file" ++ ofOptions .messageOptions "message" ++
    ofOptions .fieldOptions "field" ++ ofOptions .enumOptions "enum" ++
    ofOptions .enumValueOptions "enum_value" ++ ofOptions .serviceOptions "service" ++
    ofOptions .methodOptions "method" ++ namesakes ++ [httpRule]

theorem no_brackets : ∀ e ∈ extensions, ∀ c ∈ e.fullName.toList, c ≠ '[' ∧ c ≠ ']' := by
  have h : (extensions.all fun e ↦ e.fullName.toList.all fun c ↦ c != '[' && c != ']') = true := by
    decide +kernel
  intro e he c hc
  have hone := List.all_eq_true.mp (List.all_eq_true.mp h e he) c hc
  rwa [Bool.and_eq_true, bne_iff_ne, bne_iff_ne] at hone

/-- The pool of the annotations. -/
@[reducible]
def pool : DescriptorPool where
  messages := messages
  extensions := extensions
  entries_of_map := by decide +kernel
  distinct_names := by decide +kernel
  no_brackets := no_brackets
  distinct_numbers := by decide +kernel
  above_own := by decide +kernel

end Annotations
end ProtoCatalog
