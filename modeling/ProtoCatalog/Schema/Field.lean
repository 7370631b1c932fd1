import ProtoCatalog.Naming
import ProtoCatalog.Schema.EnumType
import ProtoCatalog.Schema.MessageType

/-!
# Fields of message types

What is known of a field: its number, its names, what its values are, and how many it has.
-/

namespace ProtoCatalog

inductive ScalarType where
  | double
  | float
  | int32
  | int64
  | uint32
  | uint64
  | sint32
  | sint64
  | fixed32
  | fixed64
  | sfixed32
  | sfixed64
  | bool
  | string
  | bytes
deriving DecidableEq, Repr

/-- The keyword for a scalar type. -/
def ScalarType.text : ScalarType → String
  | .double => "double"
  | .float => "float"
  | .int32 => "int32"
  | .int64 => "int64"
  | .uint32 => "uint32"
  | .uint64 => "uint64"
  | .sint32 => "sint32"
  | .sint64 => "sint64"
  | .fixed32 => "fixed32"
  | .fixed64 => "fixed64"
  | .sfixed32 => "sfixed32"
  | .sfixed64 => "sfixed64"
  | .bool => "bool"
  | .string => "string"
  | .bytes => "bytes"

/-- What the values of a field are. -/
inductive FieldKind where
  | scalar (s : ScalarType)
  | enumeration (e : EnumType)
  | message (m : MessageType)
deriving DecidableEq, Repr

namespace FieldKind

/-- The kinds of scalar fields. -/
abbrev double : FieldKind := .scalar .double
abbrev float : FieldKind := .scalar .float
abbrev int32 : FieldKind := .scalar .int32
abbrev int64 : FieldKind := .scalar .int64
abbrev uint32 : FieldKind := .scalar .uint32
abbrev uint64 : FieldKind := .scalar .uint64
abbrev sint32 : FieldKind := .scalar .sint32
abbrev sint64 : FieldKind := .scalar .sint64
abbrev fixed32 : FieldKind := .scalar .fixed32
abbrev fixed64 : FieldKind := .scalar .fixed64
abbrev sfixed32 : FieldKind := .scalar .sfixed32
abbrev sfixed64 : FieldKind := .scalar .sfixed64
abbrev bool : FieldKind := .scalar .bool
abbrev string : FieldKind := .scalar .string
abbrev bytes : FieldKind := .scalar .bytes

/-- Whether the values are messages. -/
def isMessage : FieldKind → Bool
  | .message _ => true
  | _ => false

end FieldKind

/-- How many values a field has.  The values of a map field are entry messages with distinct
keys. -/
inductive Cardinality where
  | single
  | repeated
  | map
deriving DecidableEq, Repr

/-- A field of a message type.  An extension has a scope, the package that declares it.  A field
without presence counts as unset when it holds its default. -/
structure FieldSpec where
  number : Nat
  name : String
  jsonName : String
  kind : FieldKind
  cardinality : Cardinality
  oneof : Option String
  scope : Option String
  hasPresence : Bool
deriving DecidableEq, Repr

namespace FieldSpec

/-- A name in lower camel case: each underscore goes, and the letter after it is a capital. -/
def camelCase : List Char → List Char
  | [] => []
  | '_' :: rest =>
    match camelCase rest with
    | [] => []
    | c :: cs => c.toUpper :: cs
  | c :: rest => c :: camelCase rest

def one (number : Nat) (name : String) (kind : FieldKind) : FieldSpec :=
  ⟨number, name, String.ofList (camelCase name.toList), kind, .single, none, none, true⟩

def many (number : Nat) (name : String) (kind : FieldKind) : FieldSpec :=
  { one number name kind with cardinality := .repeated }

def map (number : Nat) (name : String) (entry : MessageType) : FieldSpec :=
  { one number name (.message entry) with cardinality := .map }

/-- A singular scalar field without presence. -/
def plain (number : Nat) (name : String) (kind : FieldKind) : FieldSpec :=
  { one number name kind with hasPresence := false }

/-- A member of a oneof. -/
def member (oneof : String) (number : Nat) (name : String) (kind : FieldKind) : FieldSpec :=
  { one number name kind with oneof := some oneof }

/-- A field with a JSON name of its own. -/
def renamed (jsonName : String) (f : FieldSpec) : FieldSpec := { f with jsonName }

/-- The fully-qualified name of an extension. -/
def fullName? (f : FieldSpec) : Option String := f.scope.map (inScope · f.name)

/-- The key of a field in a JSON object: for an extension its full name in brackets. -/
def key (f : FieldSpec) : String :=
  match f.fullName? with
  | some name => "[" ++ name ++ "]"
  | none => f.jsonName

end FieldSpec
end ProtoCatalog
