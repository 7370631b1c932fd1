import ProtoCatalog.Json.Basic
import ProtoCatalog.Table

/-!
# Option maps

The options of a declaration as values by name, and their merging: the first map to have a name
gives its value, and names keep the order in which they first come.
-/

namespace ProtoCatalog

/-- Option values by name. -/
abbrev OptionMap := Table Json

namespace OptionMap

/-- An option map, or none if it would be empty. -/
def nonempty? (m : OptionMap) : Option OptionMap := if m.isEmpty then none else some m

/-- Option maps merged, those in front first. -/
def merge (sources : List (Option OptionMap)) : Option OptionMap :=
  nonempty? (sources.foldl (fun m s => m.union (s.getD Table.empty)) Table.empty)

/-- The value of an option, if there are options and it is one of them. -/
def find? (m : Option OptionMap) (name : String) : Option Json := m.bind (Table.find? · name)

end OptionMap
end ProtoCatalog
