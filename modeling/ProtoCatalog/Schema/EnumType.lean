/-!
# Enumeration types

The enumeration types of option messages and of descriptors, with their symbolic names, and
enumeration types that others declare.
-/

namespace ProtoCatalog

/-- An enumeration type; one that is not a standard type is told by its values. -/
inductive EnumType where
  | verificationState
  | fieldType
  | fieldLabel
  | optimizeMode
  | stringType
  | integerType
  | optionRetention
  | optionTargetType
  | idempotencyLevel
  | fieldPresence
  | enumType
  | repeatedFieldEncoding
  | utf8Validation
  | messageEncoding
  | jsonFormat
  | enforceNamingStyle
  | defaultSymbolVisibility
  | enforceProtoLimits
  | edition
  | symbolVisibility
  | annotationSemantic
  | nullValue
  | declared (values : List (Int × String)) (isOpen : Bool)
deriving DecidableEq, Repr

namespace EnumType

/-- The numbers of a type and their symbolic names. -/
def values : EnumType → List (Int × String)
  | .verificationState => [(0, "DECLARATION"), (1, "UNVERIFIED")]
  | .fieldType =>
    [(1, "TYPE_DOUBLE"), (2, "TYPE_FLOAT"), (3, "TYPE_INT64"), (4, "TYPE_UINT64"),
     (5, "TYPE_INT32"), (6, "TYPE_FIXED64"), (7, "TYPE_FIXED32"), (8, "TYPE_BOOL"),
     (9, "TYPE_STRING"), (10, "TYPE_GROUP"), (11, "TYPE_MESSAGE"), (12, "TYPE_BYTES"),
     (13, "TYPE_UINT32"), (14, "TYPE_ENUM"), (15, "TYPE_SFIXED32"), (16, "TYPE_SFIXED64"),
     (17, "TYPE_SINT32"), (18, "TYPE_SINT64")]
  | .fieldLabel => [(1, "LABEL_OPTIONAL"), (3, "LABEL_REPEATED"), (2, "LABEL_REQUIRED")]
  | .optimizeMode => [(1, "SPEED"), (2, "CODE_SIZE"), (3, "LITE_RUNTIME")]
  | .stringType => [(0, "STRING"), (1, "CORD"), (2, "STRING_PIECE")]
  | .integerType => [(0, "JS_NORMAL"), (1, "JS_STRING"), (2, "JS_NUMBER")]
  | .optionRetention =>
    [(0, "RETENTION_UNKNOWN"), (1, "RETENTION_RUNTIME"), (2, "RETENTION_SOURCE")]
  | .optionTargetType =>
    [(0, "TARGET_TYPE_UNKNOWN"), (1, "TARGET_TYPE_FILE"), (2, "TARGET_TYPE_EXTENSION_RANGE"),
     (3, "TARGET_TYPE_MESSAGE"), (4, "TARGET_TYPE_FIELD"), (5, "TARGET_TYPE_ONEOF"),
     (6, "TARGET_TYPE_ENUM"), (7, "TARGET_TYPE_ENUM_ENTRY"), (8, "TARGET_TYPE_SERVICE"),
     (9, "TARGET_TYPE_METHOD")]
  | .idempotencyLevel => [(0, "IDEMPOTENCY_UNKNOWN"), (1, "NO_SIDE_EFFECTS"), (2, "IDEMPOTENT")]
  | .fieldPresence =>
    [(0, "FIELD_PRESENCE_UNKNOWN"), (1, "EXPLICIT"), (2, "IMPLICIT"), (3, "LEGACY_REQUIRED")]
  | .enumType => [(0, "ENUM_TYPE_UNKNOWN"), (1, "OPEN"), (2, "CLOSED")]
  | .repeatedFieldEncoding =>
    [(0, "REPEATED_FIELD_ENCODING_UNKNOWN"), (1, "PACKED"), (2, "EXPANDED")]
  | .utf8Validation => [(0, "UTF8_VALIDATION_UNKNOWN"), (2, "VERIFY"), (3, "NONE")]
  | .messageEncoding =>
    [(0, "MESSAGE_ENCODING_UNKNOWN"), (1, "LENGTH_PREFIXED"), (2, "DELIMITED")]
  | .jsonFormat => [(0, "JSON_FORMAT_UNKNOWN"), (1, "ALLOW"), (2, "LEGACY_BEST_EFFORT")]
  | .enforceNamingStyle =>
    [(0, "ENFORCE_NAMING_STYLE_UNKNOWN"), (1, "STYLE2024"), (2, "STYLE_LEGACY"), (3, "STYLE2026")]
  | .defaultSymbolVisibility =>
    [(0, "DEFAULT_SYMBOL_VISIBILITY_UNKNOWN"), (1, "EXPORT_ALL"), (2, "EXPORT_TOP_LEVEL"),
     (3, "LOCAL_ALL"), (4, "STRICT")]
  | .enforceProtoLimits =>
    [(0, "PROTO_LIMITS_UNKNOWN"), (1, "LEGACY_NO_EXPLICIT_LIMITS"), (2, "PROTO_LIMITS2026")]
  | .edition =>
    [(0, "EDITION_UNKNOWN"), (900, "EDITION_LEGACY"), (998, "EDITION_PROTO2"),
     (999, "EDITION_PROTO3"), (1000, "EDITION_2023"), (1001, "EDITION_2024"),
     (1002, "EDITION_2026"), (9999, "EDITION_UNSTABLE"), (1, "EDITION_1_TEST_ONLY"),
     (2, "EDITION_2_TEST_ONLY"), (99997, "EDITION_99997_TEST_ONLY"),
     (99998, "EDITION_99998_TEST_ONLY"), (99999, "EDITION_99999_TEST_ONLY"),
     (2147483647, "EDITION_MAX")]
  | .symbolVisibility =>
    [(0, "VISIBILITY_UNSET"), (1, "VISIBILITY_LOCAL"), (2, "VISIBILITY_EXPORT")]
  | .annotationSemantic => [(0, "NONE"), (1, "SET"), (2, "ALIAS")]
  | .nullValue => [(0, "NULL_VALUE")]
  | .declared values _ => values

def isOpen : EnumType → Bool
  | .nullValue => true
  | .declared _ isOpen => isOpen
  | _ => false

def name? (e : EnumType) (n : Int) : Option String :=
  (e.values.find? (·.1 == n)).map (·.2)

def number? (e : EnumType) (name : String) : Option Int :=
  (e.values.find? (·.2 == name)).map (·.1)

def accepts (e : EnumType) (n : Int) : Bool := e.isOpen || (e.name? n).isSome

end EnumType
end ProtoCatalog
