import ProtoCatalog.Datum

/-!
# Declarations

The declarations of an interface file: messages with their fields, enumerations, services and
extensions, each with its options message, and the places in the file where they stand.
-/

namespace ProtoCatalog

/-- How often a field may occur. -/
inductive Label where
  | optional
  | required
  | repeated
deriving DecidableEq, Repr

namespace Label

def number : Label → Int
  | .optional => 1
  | .required => 2
  | .repeated => 3

def ofNumber? (n : Int) : Option Label :=
  [optional, required, repeated].find? (·.number == n)

def text : Label → String
  | .optional => "optional"
  | .required => "required"
  | .repeated => "repeated"

end Label

/-- The declared type of a field. -/
inductive FieldType where
  | scalar (s : ScalarType)
  | group
  | message
  | enumeration
deriving DecidableEq, Repr

namespace FieldType

def number : FieldType → Int
  | .scalar .double => 1
  | .scalar .float => 2
  | .scalar .int64 => 3
  | .scalar .uint64 => 4
  | .scalar .int32 => 5
  | .scalar .fixed64 => 6
  | .scalar .fixed32 => 7
  | .scalar .bool => 8
  | .scalar .string => 9
  | .group => 10
  | .message => 11
  | .scalar .bytes => 12
  | .scalar .uint32 => 13
  | .enumeration => 14
  | .scalar .sfixed32 => 15
  | .scalar .sfixed64 => 16
  | .scalar .sint32 => 17
  | .scalar .sint64 => 18

def all : List FieldType :=
  [.scalar .double, .scalar .float, .scalar .int64, .scalar .uint64, .scalar .int32,
   .scalar .fixed64, .scalar .fixed32, .scalar .bool, .scalar .string, .group, .message,
   .scalar .bytes, .scalar .uint32, .enumeration, .scalar .sfixed32, .scalar .sfixed64,
   .scalar .sint32, .scalar .sint64]

def ofNumber? (n : Int) : Option FieldType := all.find? (·.number == n)

/-- The type that a number of 64 bits stands for: the one with its lowest 32 bits.  A wider number
stands for none. -/
def ofWideNumber? (n : Int) : Option FieldType :=
  if -twoTo 63 ≤ n ∧ n < twoTo 63 then ofNumber? (n.bmod (twoTo 32)) else none

def text : FieldType → String
  | .scalar s => s.text
  | .group => "group"
  | .message => "message"
  | .enumeration => "enum"

theorem ofNumber?_number (t : FieldType) : ofNumber? t.number = some t := by
  cases t with
  | scalar s => cases s <;> rfl
  | _ => rfl

/-- No bits of a type's number are lost among the lowest 32. -/
theorem ofWideNumber?_number (t : FieldType) : ofWideNumber? t.number = some t := by
  cases t with
  | scalar s => cases s <;> decide
  | _ => decide

end FieldType

/-- A place in a file: the address of what stands there, the span of its lines and columns, and
the comments around it. -/
structure Location where
  path : List Int
  span : List Int
  leading : String
  trailing : String
deriving DecidableEq, Repr, Inhabited

/-- A field or an extension.  A field of a oneof has the oneof's index among the declarations of
its message, which may name none; an optional field of a proto3 file has one of its own. -/
structure FieldDecl where
  name : String
  extendee : String
  number : Int
  label : Label
  type : FieldType
  typeName : String
  defaultValue : String
  oneofIndex : Option Int
  proto3Optional : Bool
  options : Record
deriving Repr

structure OneofDecl where
  name : String
deriving DecidableEq, Repr, Inhabited

structure EnumValueDecl where
  name : String
  number : Int
  options : Record
deriving Repr, Inhabited

structure EnumDecl where
  name : String
  values : List EnumValueDecl
  options : Record
deriving Repr, Inhabited

/-- A message with the messages and enumerations declared inside it. -/
structure MessageDecl where
  name : String
  fields : List FieldDecl
  extensions : List FieldDecl
  nested : List MessageDecl
  enums : List EnumDecl
  oneofs : List OneofDecl
  options : Record
deriving Repr, Inhabited

structure MethodDecl where
  name : String
  input : String
  output : String
  clientStreaming : Bool
  serverStreaming : Bool
  options : Record
deriving Repr, Inhabited

structure ServiceDecl where
  name : String
  methods : List MethodDecl
  options : Record
deriving Repr, Inhabited

structure FileDecl where
  name : String
  package : String
  syntaxName : String
  messages : List MessageDecl
  enums : List EnumDecl
  services : List ServiceDecl
  extensions : List FieldDecl
  locations : List Location
  options : Record
deriving Repr, Inhabited

/-- Whether a file is written in the syntax whose fields have no label unless they need one. -/
def FileDecl.isProto3 (f : FileDecl) : Bool := f.syntaxName == "proto3"

end ProtoCatalog
