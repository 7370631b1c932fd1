import ProtoCatalog.Doc.Basic

/-!
# Members by their options

Which options the members of a declaration have, and which members have a given option.
-/

namespace ProtoCatalog

namespace OptionMap

/-- Names in ascending order, each once; none if there are none. -/
def indexNames (names : List String) : Option (List String) :=
  if names.isEmpty then none else some (names.eraseDups.mergeSort nameOrder)

/-- The names of the options that some maps have; none if they have none. -/
def names? (maps : List (Option OptionMap)) : Option (List String) :=
  indexNames (maps.flatMap fun m => (m.map Table.keys).getD [])

def has (m : Option OptionMap) (name : String) : Bool := m.any (Table.contains · name)

/-- The members that have an option; none if there are none. -/
def holders? {α : Type} (options : α → Option OptionMap) (members : List α) (name : String) :
    Option (List α) :=
  let found := members.filter fun x => has (options x) name
  if found.isEmpty then none else some found

end OptionMap

/-- The options that plain fields of a message have. -/
def MessageDoc.fieldOptions? (m : MessageDoc) : Option (List String) :=
  OptionMap.names? (m.fields.map (·.options))

/-- The plain fields of a message that have an option. -/
def MessageDoc.fieldsWithOption? (m : MessageDoc) (name : String) : Option (List FieldDoc) :=
  OptionMap.holders? (·.options) m.fields name

def EnumDoc.valueOptions? (e : EnumDoc) : Option (List String) :=
  OptionMap.names? (e.values.map (·.options))

def EnumDoc.valuesWithOption? (e : EnumDoc) (name : String) : Option (List EnumValueDoc) :=
  OptionMap.holders? (·.options) e.values name

def ServiceDoc.methodOptions? (s : ServiceDoc) : Option (List String) :=
  OptionMap.names? (s.methods.map (·.options))

def ServiceDoc.methodsWithOption? (s : ServiceDoc) (name : String) : Option (List MethodDoc) :=
  OptionMap.holders? (·.options) s.methods name

end ProtoCatalog
