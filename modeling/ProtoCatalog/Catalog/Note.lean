import ProtoCatalog.Catalog.Build
import ProtoCatalog.Fault

/-!
# Notes on a build

What a build passes over in silence, for those who want to know: options that have no JSON form,
and map fields whose entries are not known.
-/

namespace ProtoCatalog

variable [DescriptorPool]

/-- A note on a build. -/
inductive Note where
  /-- An options message was left out of a declaration's options. -/
  | optionsIgnored (type : MessageType) (fault : ProjectionFault)
  /-- A file was documented, with so many messages, enumerations and services. -/
  | fileDocumented (name : String) (messages enums services : Nat)
  /-- The entries of a field that looks like a map are not known. -/
  | entryNotFound (entry message field : String)
deriving DecidableEq, Repr

namespace Note

/-- A note as text. -/
def message : Note → String
  | .optionsIgnored t fault =>
    "Ignoring undecodable options on " ++ t.fullName ++ ": " ++ fault.message
  | .fileDocumented name messages enums services =>
    "Parsed " ++ name ++ ": " ++ toString messages ++ " message(s), " ++ toString enums ++
      " enum(s), " ++ toString services ++ " service(s)"
  | .entryNotFound entry message field =>
    "Map entry " ++ entry ++ " of " ++ message ++ "." ++ field ++ " not found"

/-- The note on an options message, if it is left out. -/
def ofOptions? (site : DeclKind × Record) : Option Note :=
  match site.2.project site.1.optionsType with
  | .error fault => some (.optionsIgnored site.1.optionsType fault)
  | .ok _ => none

end Note

/-! ## Options messages in the order of documentation -/

def EnumDecl.optionSites (e : EnumDecl) : List (DeclKind × Record) :=
  (.enumeration, e.options) :: e.values.map fun v => (.enumValue, v.options)

/-- The options messages of a message, those of declarations inside it left out. -/
def MessageDecl.optionSites (m : MessageDecl) : List (DeclKind × Record) :=
  (.message, m.options) :: m.extensions.map (fun e => (.ext, e.options)) ++
    m.fields.map fun f => (.field, f.options)

def ServiceDecl.optionSites (s : ServiceDecl) : List (DeclKind × Record) :=
  (.service, s.options) :: s.methods.map fun m => (.method, m.options)

def FileDecl.optionSites (f : FileDecl) : List (DeclKind × Record) :=
  (.file, f.options) :: f.allEnums.flatMap (·.decl.optionSites) ++
    f.allMessages.flatMap (·.decl.optionSites) ++ f.extensions.map (fun e => (.ext, e.options)) ++
    f.services.flatMap ServiceDecl.optionSites

namespace Catalog

def fileNotes (f : FileDecl) : List Note :=
  f.optionSites.filterMap Note.ofOptions? ++
    [.fileDocumented f.name f.allMessages.length f.allEnums.length f.services.length]

/-- The notes on the map fields of a message. -/
def mapNotes (table : Table MessageDoc) (m : MessageDoc) : List Note :=
  (m.allFields.filter fun f => f.isMap && !table.contains f.type.full).map fun f =>
    .entryNotFound f.type.full m.names.full f.name

/-- The notes on a build: those on each file, then those on the map fields of each package. -/
def notes (registry : Option Registry) (files : List FileDecl) : Except DeclFault (List Note) := do
  let docs ← files.mapM (FileDecl.document registry)
  let packages := (packageNames docs).map (gather docs)
  return files.flatMap fileNotes ++
    packages.flatMap fun p => p.messages.flatMap (mapNotes (messageTable docs))

end Catalog
end ProtoCatalog
