import ProtoCatalog.Datum.Projection
import ProtoCatalog.Options.Http
import ProtoCatalog.Text.Blank

/-!
# The options of a declaration

A declaration's options come from three sources: the flags that are built in, the options
message itself, and the transforms registered for its extensions.
-/

namespace ProtoCatalog

/-- The kinds of declarations that have options. -/
inductive DeclKind where
  | file
  | message
  | field
  | enumeration
  | enumValue
  | service
  | method
  | ext
deriving DecidableEq, Repr

/-- The type of the options messages of a kind of declaration. -/
def DeclKind.optionsType : DeclKind → MessageType
  | .file => .fileOptions
  | .message => .messageOptions
  | .field => .fieldOptions
  | .enumeration => .enumOptions
  | .enumValue => .enumValueOptions
  | .service => .serviceOptions
  | .method => .methodOptions
  | .ext => .fieldOptions

/-- Why an options message gives no options. -/
inductive OptionFault where
  /-- A field that the kind of declaration needs is not one of the message's type. -/
  | noField (type : MessageType) (name : String)
  /-- A packed message is of a type that is not known. -/
  | unknownType (url : String)
  /-- The bytes of a packed message are no message of its type. -/
  | undecodable (type : MessageType) (fault : Wire.Fault)
  /-- A transform refuses the value of its extension. -/
  | refused (fault : TransformFault)
deriving DecidableEq, Repr

namespace Options

/-- The name of the flag that every declaration can carry. -/
def deprecatedName : String := "deprecated"

/-- The name of the option that only methods have built in. -/
def levelName : String := "idempotency_level"

variable [DescriptorPool]

/-- The deprecated flag, if it is true. -/
def deprecated (t : MessageType) (options : Record) : List (String × Json) :=
  if (t.fieldNamed? deprecatedName).any fun f => options.flag f.number then
    [(deprecatedName, .bool true)]
  else []

/-- The idempotency level by its symbolic name, if it is set. -/
def level (t : MessageType) (options : Record) : Except OptionFault (List (String × Json)) :=
  match t.fieldNamed? levelName with
  | none => .error (.noField t levelName)
  | some f =>
    .ok <| match options.int? f.number with
      | none => []
      | some n => [(levelName, .str ((EnumType.idempotencyLevel.name? n).getD ""))]

/-- The options that are built in. -/
def builtin (kind : DeclKind) (t : MessageType) (options : Record) :
    Except OptionFault OptionMap := do
  let own ← if kind = .method then level t options else .ok []
  return Table.ofList (deprecated t options ++ own)

/-- Brackets, which mark the keys of extensions. -/
def isBracket (c : Char) : Bool := c = '[' || c = ']'

/-- A key without the brackets of an extension. -/
def plainKey (key : String) : String :=
  String.ofList (Text.stripBoth isBracket key.toList)

/-- The options message itself, extensions under their full names.  A message with a number that
JSON has not gives no options. -/
def raw (t : MessageType) (options : Record) : Except OptionFault OptionMap :=
  match options.project t with
  -- Without its brackets an extension can have the key of a field, and then the later one counts.
  | .ok members => .ok (Table.ofList (members.map fun (k, v) => (plainKey k, v)))
  | .error (.nonFinite _ _) => .ok Table.empty
  | .error (.unknownType url) => .error (.unknownType url)
  | .error (.undecodable type fault) => .error (.undecodable type fault)

/-- The transformed values of registered extensions. -/
def transformed (registry : Option Registry) (t : MessageType) (options : Record) :
    Except OptionFault OptionMap :=
  match registry with
  | some g => (g.apply t options).mapError .refused
  | none => .ok Table.empty

/-- The options of a declaration whose options message is of a given type. -/
def gatherAs (registry : Option Registry) (kind : DeclKind) (t : MessageType)
    (options : Record) : Except OptionFault (Option OptionMap) := do
  -- A transform's refusal counts before any other fault.
  let transformed ← transformed registry t options
  let builtin ← builtin kind t options
  let raw ← raw t options
  return OptionMap.merge [some builtin, some raw, some transformed]

/-- The options of a declaration. -/
def gather (registry : Option Registry) (kind : DeclKind) (options : Record) :
    Except OptionFault (Option OptionMap) :=
  gatherAs registry kind kind.optionsType options

end Options
end ProtoCatalog
