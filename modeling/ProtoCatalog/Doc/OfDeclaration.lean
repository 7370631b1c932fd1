import ProtoCatalog.Declaration.Walk
import ProtoCatalog.Doc.Basic
import ProtoCatalog.Options.Gather

/-!
# Documenting declarations

The documentation of each declaration of a file: names from the scopes it is in, descriptions
from the comments at its address, and options from its options message.
-/

namespace ProtoCatalog

variable [DescriptorPool]

/-- Why a declaration cannot be documented. -/
inductive DeclFault where
  /-- Its options message gives no options. -/
  | options (fault : OptionFault)
  /-- A field counts its oneof from the end of the oneofs, and past their beginning. -/
  | oneofIndex
  /-- A number stands for no type. -/
  | noType (number : Int)
deriving DecidableEq, Repr

/-- A file whose declarations are documented, and the transforms for their options. -/
structure DocContext where
  file : FileDecl
  registry : Option Registry

namespace DocContext

variable (ctx : DocContext)

def optionsOf (kind : DeclKind) (options : Record) : Except DeclFault (Option OptionMap) :=
  (Options.gather ctx.registry kind options).mapError .options

def descriptionAt (path : Address) : String := (ctx.file.sourceAt path).description

def names (short long : String) : Naming := .declared ctx.file.package short long

/-- The names of a type that the file refers to. -/
def typeNames (reference : String) : Naming := .ofReference reference ctx.file.package

end DocContext

/-! ## Enumerations -/

def EnumValueDecl.document (ctx : DocContext) (path : Address) (v : EnumValueDecl) :
    Except DeclFault EnumValueDoc := do
  return {
    address := path
    name := v.name
    number := v.number
    description := ctx.descriptionAt path
    options := ← ctx.optionsOf .enumValue v.options }

/-- The documentation of the members of a collection, in order. -/
def documentAll {α β : Type} (path : Address) (collection : Collection)
    (document : Address → α → Except DeclFault β) (decls : List α) : Except DeclFault (List β) :=
  (decls.mapIdx fun i d => (path.child collection i, d)).mapM fun (path, d) => document path d

def EnumDecl.document (ctx : DocContext) (e : Placed EnumDecl) : Except DeclFault EnumDoc := do
  let source := ctx.file.sourceAt e.address
  let options ← ctx.optionsOf .enumeration e.decl.options
  let values ← documentAll e.address .enumValues (EnumValueDecl.document ctx) e.decl.values
  return {
    names := ctx.names e.decl.name e.longName
    description := source.description
    values := values
    options := options
    source := source }

/-! ## Fields -/

namespace FieldDecl

def typeWord (number : Int) : Except DeclFault String :=
  match FieldType.ofWideNumber? number with
  | some t => .ok t.text
  | none => .error (.noType number)

/-- The names of a field's type: of the one it refers to, or else of its scalar type. -/
def typeNames (package : String) (f : FieldDecl) : Naming :=
  if f.typeName = "" then .simple f.type.text else .ofReference f.typeName package

/-- The label that is shown.  In a proto3 file this is only that of a repeated field or of one
that is declared optional. -/
def shownLabel (proto3 : Bool) (f : FieldDecl) : Option Label :=
  if proto3 && !f.proto3Optional && f.label != .repeated then none else some f.label

/-- Whether a field is a member of a oneof.  An optional field of a proto3 file has a oneof for
itself alone, which does not count. -/
def isOneofMember (f : FieldDecl) : Bool := f.oneofIndex.isSome && !f.proto3Optional

/-- The name of the oneof at an index.  A negative index counts from the end; an index past the
end has no name. -/
def oneofName (oneofs : List OneofDecl) (index : Int) : Except DeclFault String :=
  let position := if index < 0 then index + oneofs.length else index
  if position < 0 then .error .oneofIndex
  else .ok ((oneofs[position.toNat]?.map (·.name)).getD "")

/-- The oneof that a field is a member of, if it is one. -/
def oneof? (oneofs : List OneofDecl) (f : FieldDecl) : Except DeclFault (Option String) :=
  match f.oneofIndex with
  | some index => if f.proto3Optional then .ok none else some <$> oneofName oneofs index
  | none => .ok none

end FieldDecl

/-- The end of the name of a message that stands for the entries of a map. -/
def entrySuffix : String := "Entry"

/-- Whether a field looks like a map: it is repeated, and its type is declared inside a message
(as far as the type's name relative to the package tells) under the name of an entry. -/
def looksLikeMap (label : Option Label) (type : Naming) : Bool :=
  label == some .repeated && type.long.toList.contains '.' && hasEnd entrySuffix type.short &&
    hasEnd entrySuffix type.long && hasEnd entrySuffix type.full

/-- The documentation of a field, among the oneofs of its message. -/
def FieldDecl.document (ctx : DocContext) (oneofs : List OneofDecl) (path : Address)
    (f : FieldDecl) : Except DeclFault FieldDoc := do
  let label := f.shownLabel ctx.file.isProto3
  let type := f.typeNames ctx.file.package
  let options ← ctx.optionsOf .field f.options
  let oneof ← f.oneof? oneofs
  return {
    address := path
    number := f.number
    name := f.name
    description := ctx.descriptionAt path
    label := label
    type := type
    isMap := looksLikeMap label type
    mapKey := ""
    mapValue := ""
    oneof := oneof
    defaultValue := f.defaultValue
    options := options }

/-- The documentation of an extension with a given long name, inside a message if it has a
scope. -/
def FieldDecl.documentExtension (ctx : DocContext) (long : String) (scope : Option Naming)
    (path : Address) (f : FieldDecl) : Except DeclFault ExtensionDoc := do
  return {
    address := path
    names := ctx.names f.name long
    description := ctx.descriptionAt path
    label := f.shownLabel ctx.file.isProto3
    type := f.typeNames ctx.file.package
    number := f.number
    defaultValue := f.defaultValue
    containing := ctx.typeNames f.extendee
    scope := scope
    options := ← ctx.optionsOf .ext f.options }

/-! ## Messages -/

/-- Members of oneofs by the index of their oneof, in the order of the first member of each. -/
def groupByIndex {α : Type} (members : List (Int × α)) : List (Int × List α) :=
  (members.map (·.1)).eraseDups.map fun index =>
    (index, (members.filter (·.1 == index)).map (·.2))

/-- The documentation of a oneof with its members.  Its comments are joined as they are. -/
def OneofDoc.ofMembers (ctx : DocContext) (path : Address) (index : Int)
    (members : List FieldDoc) : OneofDoc :=
  let source := ctx.file.sourceAt (path.child .messageOneofs index)
  { name := (members.head?.bind (·.oneof)).getD ""
    description := Comment.join [source.leading, source.trailing]
    fields := members
    source := source }

def MessageDecl.document (ctx : DocContext) (m : Placed MessageDecl) :
    Except DeclFault MessageDoc := do
  let source := ctx.file.sourceAt m.address
  let names := ctx.names m.decl.name m.longName
  let options ← ctx.optionsOf .message m.decl.options
  let extensions ← documentAll m.address .messageExtensions
    (fun path f => f.documentExtension ctx (inScope m.longName f.name) (some names) path)
    m.decl.extensions
  let fields ← documentAll m.address .messageFields
    (FieldDecl.document ctx m.decl.oneofs) m.decl.fields
  -- The index of a oneof, and not its name, tells which fields belong together.
  let pairs := m.decl.fields.zip fields
  let members := pairs.filterMap fun (decl, doc) =>
    if decl.isOneofMember then decl.oneofIndex.map fun index => (index, doc) else none
  let oneofs := (groupByIndex members).map fun (index, docs) =>
    OneofDoc.ofMembers ctx m.address index docs
  return {
    names := names
    description := source.description
    hasExtensions := !m.decl.extensions.isEmpty
    hasFields := !m.decl.fields.isEmpty
    hasOneofs := !oneofs.isEmpty
    extensions := extensions
    fields := fields.filter (·.oneof.isNone)
    oneofs := oneofs
    options := options
    source := source
    internal := false }

/-! ## Services -/

def MethodDecl.document (ctx : DocContext) (path : Address) (m : MethodDecl) :
    Except DeclFault MethodDoc := do
  return {
    address := path
    name := m.name
    description := ctx.descriptionAt path
    request := ctx.typeNames m.input
    requestStreaming := m.clientStreaming
    response := ctx.typeNames m.output
    responseStreaming := m.serverStreaming
    options := ← ctx.optionsOf .method m.options }

def ServiceDecl.document (ctx : DocContext) (path : Address) (s : ServiceDecl) :
    Except DeclFault ServiceDoc := do
  let source := ctx.file.sourceAt path
  let options ← ctx.optionsOf .service s.options
  let methods ← documentAll path .serviceMethods (MethodDecl.document ctx) s.methods
  return {
    names := ctx.names s.name s.name
    description := source.description
    methods := methods
    options := options
    source := source }

/-! ## Files -/

/-- Documented declarations in ascending order of a name; those of one name stay in order. -/
def sortByName {α : Type} (name : α → String) (docs : List α) : List α :=
  docs.mergeSort fun a b => nameOrder (name a) (name b)

def FileDecl.document (registry : Option Registry) (f : FileDecl) : Except DeclFault FileDoc := do
  let ctx : DocContext := ⟨f, registry⟩
  let options ← ctx.optionsOf .file f.options
  let enums ← f.allEnums.mapM (EnumDecl.document ctx)
  let messages ← f.allMessages.mapM (MessageDecl.document ctx)
  let extensions ← documentAll Address.file .fileExtensions
    (fun path e => e.documentExtension ctx e.name none path) f.extensions
  let services ← documentAll Address.file .fileServices (ServiceDecl.document ctx) f.services
  return {
    name := f.name
    package := f.package
    description := Comment.clean (f.sourceAt Address.syntaxStatement).leading
    hasEnums := !f.enums.isEmpty
    hasExtensions := !f.extensions.isEmpty
    hasMessages := !f.messages.isEmpty
    hasServices := !f.services.isEmpty
    enums := sortByName (·.names.long) enums
    extensions := sortByName (·.names.long) extensions
    messages := sortByName (·.names.long) messages
    services := sortByName (·.names.long) services
    options := options }

end ProtoCatalog
