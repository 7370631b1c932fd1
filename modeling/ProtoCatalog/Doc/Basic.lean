import ProtoCatalog.Naming
import ProtoCatalog.Options.Map
import ProtoCatalog.Source

/-!
# Documented declarations

What a catalog shows of each declaration: its names, its description, its options, and where it
stands.  Messages, enumerations, services and oneofs have their whole source, and all others the
address that their comments were found at.
-/

namespace ProtoCatalog

structure EnumValueDoc where
  address : Address
  name : String
  number : Int
  description : String
  options : Option OptionMap
deriving DecidableEq, Repr

structure EnumDoc where
  names : Naming
  description : String
  values : List EnumValueDoc
  options : Option OptionMap
  source : Source
deriving DecidableEq, Repr

/-- A field of a message.  The label is left out where the file's syntax has none to show.  A
member of a oneof has the oneof's name, empty if no oneof is declared for it.  A map field whose
entries are known has the full names of their key and value types. -/
structure FieldDoc where
  address : Address
  number : Int
  name : String
  description : String
  label : Option Label
  type : Naming
  isMap : Bool
  mapKey : String
  mapValue : String
  oneof : Option String
  defaultValue : String
  options : Option OptionMap
deriving DecidableEq, Repr

/-- A oneof of a message with its members. -/
structure OneofDoc where
  name : String
  description : String
  fields : List FieldDoc
  source : Source
deriving DecidableEq, Repr

/-- An extension.  One that is declared inside a message has that message as its scope. -/
structure ExtensionDoc where
  address : Address
  names : Naming
  description : String
  label : Option Label
  type : Naming
  number : Int
  defaultValue : String
  containing : Naming
  scope : Option Naming
  options : Option OptionMap
deriving DecidableEq, Repr

/-- A message.  Its plain fields stand apart from the members of its oneofs.  An internal message
is one that only stands for the entries of a map. -/
structure MessageDoc where
  names : Naming
  description : String
  hasExtensions : Bool
  hasFields : Bool
  hasOneofs : Bool
  extensions : List ExtensionDoc
  fields : List FieldDoc
  oneofs : List OneofDoc
  options : Option OptionMap
  source : Source
  internal : Bool
deriving DecidableEq, Repr

structure MethodDoc where
  address : Address
  name : String
  description : String
  request : Naming
  requestStreaming : Bool
  response : Naming
  responseStreaming : Bool
  options : Option OptionMap
deriving DecidableEq, Repr

structure ServiceDoc where
  names : Naming
  description : String
  methods : List MethodDoc
  options : Option OptionMap
  source : Source
deriving DecidableEq, Repr

/-- A file with all its declarations, those inside messages included, by their long names.  The
flags tell which kinds of declarations the file itself has. -/
structure FileDoc where
  name : String
  package : String
  description : String
  hasEnums : Bool
  hasExtensions : Bool
  hasMessages : Bool
  hasServices : Bool
  enums : List EnumDoc
  extensions : List ExtensionDoc
  messages : List MessageDoc
  services : List ServiceDoc
  options : Option OptionMap
deriving DecidableEq, Repr

/-- All fields of a message: the plain ones, then the members of each oneof. -/
def MessageDoc.allFields (m : MessageDoc) : List FieldDoc :=
  m.fields ++ m.oneofs.flatMap (·.fields)

end ProtoCatalog
