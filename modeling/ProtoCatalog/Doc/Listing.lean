import ProtoCatalog.Doc.Basic

/-!
# Listings

Documented declarations as JSON, with the keys that templates read.  Options are listed where a
declaration has any.
-/

namespace ProtoCatalog

/-- The member for options, if there are any. -/
def optionsMember (options : Option OptionMap) : List (String × Json) :=
  match options with
  | some m => if m.isEmpty then [] else [("options", .obj m.entries)]
  | none => []

/-- A label as text, empty where there is none to show. -/
def labelText (label : Option Label) : String := (label.map Label.text).getD ""

/-- The members for three names under three keys. -/
def Naming.members (n : Naming) (short long full : String) : List (String × Json) :=
  [(short, .str n.short), (long, .str n.long), (full, .str n.full)]

def Naming.ownMembers (n : Naming) : List (String × Json) := n.members "name" "longName" "fullName"

def EnumValueDoc.toJson (v : EnumValueDoc) : Json :=
  .obj ([("name", .str v.name), ("number", .str (toString v.number)),
    ("description", .str v.description)] ++ optionsMember v.options)

def EnumDoc.toJson (e : EnumDoc) : Json :=
  .obj (e.names.ownMembers ++ [("description", .str e.description),
    ("values", .arr (e.values.map EnumValueDoc.toJson))] ++ optionsMember e.options)

def FieldDoc.toJson (f : FieldDoc) : Json :=
  .obj ([("name", .str f.name), ("description", .str f.description),
    ("label", .str (labelText f.label))] ++ f.type.members "type" "longType" "fullType" ++
    [("ismap", .bool f.isMap), ("mapKeyType", .str f.mapKey), ("mapValueType", .str f.mapValue),
     ("isoneof", .bool f.oneof.isSome), ("oneofdecl", .str (f.oneof.getD "")),
     ("defaultValue", .str f.defaultValue)] ++ optionsMember f.options)

def OneofDoc.toJson (o : OneofDoc) : Json :=
  .obj [("name", .str o.name), ("description", .str o.description),
    ("fields", .arr (o.fields.map FieldDoc.toJson))]

def ExtensionDoc.toJson (e : ExtensionDoc) : Json :=
  .obj (e.names.ownMembers ++ [("description", .str e.description),
    ("label", .str (labelText e.label))] ++ e.type.members "type" "longType" "fullType" ++
    [("number", .int e.number), ("defaultValue", .str e.defaultValue)] ++
    e.containing.members "containingType" "containingLongType" "containingFullType" ++
    -- The scope stands behind the options, which close every other listing.
    optionsMember e.options ++
    ((e.scope.map fun s => s.members "scopeType" "scopeLongType" "scopeFullType").getD []))

def MessageDoc.toJson (m : MessageDoc) : Json :=
  .obj (m.names.ownMembers ++ [("description", .str m.description),
    ("hasExtensions", .bool m.hasExtensions), ("hasFields", .bool m.hasFields),
    ("hasOneofs", .bool m.hasOneofs), ("extensions", .arr (m.extensions.map ExtensionDoc.toJson)),
    ("fields", .arr (m.fields.map FieldDoc.toJson)),
    ("oneofs", .arr (m.oneofs.map OneofDoc.toJson))] ++ optionsMember m.options)

def MethodDoc.toJson (m : MethodDoc) : Json :=
  .obj ([("name", .str m.name), ("description", .str m.description)] ++
    m.request.members "requestType" "requestLongType" "requestFullType" ++
    [("requestStreaming", .bool m.requestStreaming)] ++
    m.response.members "responseType" "responseLongType" "responseFullType" ++
    [("responseStreaming", .bool m.responseStreaming)] ++ optionsMember m.options)

def ServiceDoc.toJson (s : ServiceDoc) : Json :=
  .obj (s.names.ownMembers ++ [("description", .str s.description),
    ("methods", .arr (s.methods.map MethodDoc.toJson))] ++ optionsMember s.options)

def FileDoc.toJson (f : FileDoc) : Json :=
  .obj ([("name", .str f.name), ("description", .str f.description), ("package", .str f.package),
    ("hasEnums", .bool f.hasEnums), ("hasExtensions", .bool f.hasExtensions),
    ("hasMessages", .bool f.hasMessages), ("hasServices", .bool f.hasServices),
    ("enums", .arr (f.enums.map EnumDoc.toJson)),
    ("extensions", .arr (f.extensions.map ExtensionDoc.toJson)),
    ("messages", .arr (f.messages.map MessageDoc.toJson)),
    ("services", .arr (f.services.map ServiceDoc.toJson))] ++ optionsMember f.options)

end ProtoCatalog
