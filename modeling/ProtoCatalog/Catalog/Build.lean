import ProtoCatalog.Catalog.Basic
import ProtoCatalog.Doc.OfDeclaration

/-!
# Building a catalog

Files are documented one by one.  Then map fields are resolved through the table of all messages,
the messages that only stand for entries of maps are marked and taken off the listings, and the
declarations are gathered by package.
-/

namespace ProtoCatalog
namespace Catalog

/-! ## Map fields -/

/-- The name of the field that holds the key of a map's entry. -/
def keyName : String := "key"

/-- The name of the field that holds the value of a map's entry. -/
def valueName : String := "value"

/-- The messages of some files by full name; of several with one name the last counts. -/
def messageTable (files : List FileDoc) : Table MessageDoc :=
  Table.ofList (files.flatMap fun f => f.messages.map fun m => (m.names.full, m))

/-- The full name of the type of an entry's plain field; of several with one name the last
counts, and without any it is empty. -/
def entryType (entry : MessageDoc) (name : String) : String :=
  ((entry.fields.filter (·.name == name)).getLast?.map (·.type.full)).getD ""

/-- A field with its key and value types, if it is a map field whose entries are known. -/
def resolveField (table : Table MessageDoc) (f : FieldDoc) : FieldDoc :=
  if f.isMap then
    match table.find? f.type.full with
    -- The entry may be any message: only its name made the field look like a map.
    | some entry =>
      { f with mapKey := entryType entry keyName, mapValue := entryType entry valueName }
    | none => f
  else f

def resolveMessage (table : Table MessageDoc) (m : MessageDoc) : MessageDoc :=
  { m with
    fields := m.fields.map (resolveField table)
    oneofs := m.oneofs.map fun o => { o with fields := o.fields.map (resolveField table) } }

/-- The full names of the types of all map fields. -/
def mapTypes (files : List FileDoc) : List String :=
  files.flatMap fun f => f.messages.flatMap fun m =>
    (m.allFields.filter (·.isMap)).map (·.type.full)

def fullNames (messages : List MessageDoc) : List String := messages.map (·.names.full)

/-- Messages with those marked that stand for entries of maps.  Of several messages with one
name only the last can be marked, so the names that come later count too. -/
def markInternal (entries later : List String) : List MessageDoc → List MessageDoc
  | [] => []
  | m :: rest =>
    -- The table of messages has the last of a name, and only what it has stands for entries.
    let internal := entries.contains m.names.full &&
      !(fullNames rest).contains m.names.full && !later.contains m.names.full
    { m with internal := internal } :: markInternal entries later rest

/-- Files with their messages resolved and marked. -/
def settleFiles (table : Table MessageDoc) (entries : List String) : List FileDoc → List FileDoc
  | [] => []
  | f :: rest =>
    let later := rest.flatMap fun g => fullNames g.messages
    { f with messages := markInternal entries later (f.messages.map (resolveMessage table)) } ::
      settleFiles table entries rest

/-- Documented files with their map fields resolved and their internal messages marked. -/
def settle (files : List FileDoc) : List FileDoc :=
  settleFiles (messageTable files) (mapTypes files) files

/-! ## Packages and links -/

/-- What the files of a package say of it. -/
def packageNotes (files : List FileDoc) : List PackageNote :=
  files.filterMap fun f =>
    let description := Text.trim f.description
    if description = "" then none else some ⟨f.name, description⟩

/-- The declarations of a package, gathered from all files, internal messages included. -/
def gather (files : List FileDoc) (name : String) : PackageDoc :=
  let own := files.filter (·.package == name)
  { name := name
    services := sortByName (·.names.full) (own.flatMap (·.services))
    messages := sortByName (·.names.full) (own.flatMap (·.messages))
    enums := sortByName (·.names.full) (own.flatMap (·.enums))
    notes := packageNotes own }

/-- The names of the packages of some files, in ascending order. -/
def packageNames (files : List FileDoc) : List String :=
  (files.map (·.package)).eraseDups.mergeSort nameOrder

def packageLinks (p : PackageDoc) : List (String × Link) :=
  (p.messages.map (·.names.full) ++ p.enums.map (·.names.full)).map fun name =>
    (name, .declared p.name name)

def listed (messages : List MessageDoc) : List MessageDoc := messages.filter (!·.internal)

/-- The catalog of some settled files. -/
def assemble (files : List FileDoc) : Catalog :=
  let packages := (packageNames files).map (gather files)
  { files := files.map fun f => { f with messages := listed f.messages }
    packages := packages.map fun p => { p with messages := listed p.messages }
    links := Table.ofList (packages.flatMap packageLinks)
    messages := messageTable files }

/-- The catalog of some files, with transforms for their options. -/
def build [DescriptorPool] (registry : Option Registry) (files : List FileDecl) :
    Except DeclFault Catalog := do
  return assemble (settle (← files.mapM (FileDecl.document registry)))

end Catalog
end ProtoCatalog
