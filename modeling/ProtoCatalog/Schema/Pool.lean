import ProtoCatalog.Schema.Layout
import ProtoCatalog.Table

/-!
# Descriptor pools

What a process knows beside the standard message types: message types that others declare, and
extensions.  The fields of a message type are those that it declares and the extensions that the pool
has for it.
-/

namespace ProtoCatalog

/-- An extension of a message type, in the scope of the package or of the message that declares
it. -/
structure Extension where
  extendee : MessageType
  number : Nat
  scope : String
  name : String
  kind : FieldKind
  repeated : Bool
deriving DecidableEq, Repr

namespace Extension

def fullName (e : Extension) : String := inScope e.scope e.name

/-- The field that an extension is of a message. -/
def field (e : Extension) : FieldSpec :=
  { FieldSpec.one e.number e.name e.kind with
    cardinality := if e.repeated then .repeated else .single
    scope := some e.scope }

end Extension

/-- The message types and the extensions that a process knows beside the standard types.  Every
function that reads a message by its type has the pool for a parameter. -/
class DescriptorPool where
  /-- The fields of the message types that others declare, by full name. -/
  messages : Table (List FieldSpec)
  extensions : List Extension
  /-- The values of a map field are entry messages. -/
  entries_of_map : ∀ m ∈ messages.entries, ∀ f ∈ m.2, f.cardinality = .map → f.kind.isMessage
  /-- A pool has each full name once. -/
  distinct_names : (extensions.map Extension.fullName).Nodup
  /-- A full name consists of identifiers and dots. -/
  no_brackets : ∀ e ∈ extensions, ∀ c ∈ e.fullName.toList, c ≠ '[' ∧ c ≠ ']'
  /-- A message type has each of its numbers once. -/
  distinct_numbers : (extensions.map fun e => (e.extendee, e.number)).Nodup
  /-- The numbers that a standard type leaves to extensions are greater than those of its fields. -/
  above_own : ∀ e ∈ extensions, ∀ f ∈ e.extendee.standardFields, f.number < e.number

namespace MessageType

variable [DescriptorPool]

/-- The fields that a type declares. -/
def ownFields : MessageType → List FieldSpec
  | .declared name => (DescriptorPool.messages.find? name).getD []
  | t => t.standardFields

/-- The extensions of a type. -/
def extensions (t : MessageType) : List Extension :=
  DescriptorPool.extensions.filter (·.extendee = t)

/-- The fields of a type: those that it declares, then its extensions. -/
def fields (t : MessageType) : List FieldSpec := t.ownFields ++ t.extensions.map Extension.field

def field? (t : MessageType) (number : Nat) : Option FieldSpec :=
  t.fields.find? (·.number == number)

def fieldNamed? (t : MessageType) (name : String) : Option FieldSpec :=
  t.fields.find? fun f => f.scope.isNone && f.name == name

/-- The extension with a fully-qualified name. -/
def extensionNamed? (t : MessageType) (name : String) : Option FieldSpec :=
  t.fields.find? fun f => f.fullName? == some name

/-- The type with a fully-qualified name. -/
def ofFullName? (name : String) : Option MessageType :=
  (standard.find? (·.fullName == name)).or
    (if DescriptorPool.messages.contains name then some (.declared name) else none)

end MessageType

/-- The last part of a type's name. -/
def MessageType.shortName (t : MessageType) : String := lastSegment t.fullName

end ProtoCatalog
