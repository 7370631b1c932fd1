/-!
# Names

Dotted names, and the three names under which a type is shown: its own, the one relative to its
package, and the fully-qualified one.
-/

namespace ProtoCatalog

/-- A name inside a scope; the empty scope adds nothing. -/
def inScope (scope name : String) : String :=
  if scope = "" then name else scope ++ "." ++ name

def lastSegment (name : String) : String :=
  String.ofList (name.toList.reverse.takeWhile (· ≠ '.')).reverse

def dropLead (lead text : String) : String :=
  if lead.toList.isPrefixOf text.toList then String.ofList (text.toList.drop lead.toList.length)
  else text

def hasEnd (ending text : String) : Bool := ending.toList.isSuffixOf text.toList

/-- The order of names: by code points. -/
def nameOrder (a b : String) : Bool := decide (a ≤ b)

/-- The names of a type: its own, the one relative to a package, and the fully-qualified one. -/
structure Naming where
  short : String
  long : String
  full : String
deriving DecidableEq, Repr, Inhabited

namespace Naming

/-- The names of a declaration with a given name relative to its package. -/
def declared (package short long : String) : Naming := ⟨short, long, inScope package long⟩

/-- The names of a type that is referred to from inside a package.  A dot in front marks a
reference as fully-qualified, and what is left of it is the full name either way. -/
def ofReference (reference package : String) : Naming :=
  let full := dropLead "." reference
  ⟨lastSegment full, dropLead (package ++ ".") full, full⟩

/-- A type with just one name, such as a scalar type. -/
def simple (name : String) : Naming := ⟨name, name, name⟩

end Naming
end ProtoCatalog
