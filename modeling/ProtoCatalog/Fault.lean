import ProtoCatalog.Doc.OfDeclaration

/-!
# Faults in words

Each fault has one text, and the text says all there is to know of the fault.
-/

namespace ProtoCatalog

def Wire.Fault.message : Wire.Fault → String
  | .corrupt => "Wire format was corrupt"
  | .tooDeep => "Exceeded upb_DecodeOptions_MaxDepth"

/-- That bytes are no message of a type. -/
def undecodableMessage (t : MessageType) (fault : Wire.Fault) : String :=
  "Error parsing message with type '" ++ t.fullName ++ "': " ++ fault.message

/-- That a packed message's type is not known. -/
def unknownTypeMessage (url : String) : String :=
  "Can not find message descriptor by type_url: " ++ url

def ProjectionFault.message : ProjectionFault → String
  | .nonFinite field isNaN =>
    (field.map fun f => "Failed to serialize " ++ f ++ " field: ").getD "" ++
      "Fail to serialize " ++ (if isNaN then "NaN" else "Infinity") ++
      " for Value.number_value, which would parse as string_value."
  | .unknownType url => unknownTypeMessage url
  | .undecodable t fault => undecodableMessage t fault

/-- That messages of a type have no field, and no oneof, of a name. -/
def noFieldMessage (t : MessageType) (name : String) : String :=
  "Protocol message " ++ t.shortName ++ " has no \"" ++ name ++ "\" field."

def TransformFault.message : TransformFault → String
  | .noOneof t name => noFieldMessage t name
  | .unsuited complaint => complaint

def OptionFault.message : OptionFault → String
  | .noField t name => noFieldMessage t name
  | .unknownType url => unknownTypeMessage url
  | .undecodable t fault => undecodableMessage t fault
  | .refused fault => fault.message

def DeclFault.message : DeclFault → String
  | .options fault => fault.message
  | .oneofIndex => "list index out of range"
  | .noType n => "Enum Type has no name defined for value " ++ toString n

end ProtoCatalog
