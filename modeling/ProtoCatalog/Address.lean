/-!
# Addresses of declarations

A declaration is addressed from its file by steps, each a collection of the declaration it is in
and an index in that collection.
-/

namespace ProtoCatalog

/-- A collection of declarations inside a file or inside another declaration. -/
inductive Collection where
  | fileMessages
  | fileEnums
  | fileServices
  | fileExtensions
  | fileSyntax
  | messageFields
  | nestedMessages
  | nestedEnums
  | messageExtensions
  | messageOneofs
  | enumValues
  | serviceMethods
deriving DecidableEq, Repr

/-- The number of a collection: that of the descriptor field that holds it. -/
def Collection.number : Collection → Int
  | .fileMessages => 4
  | .fileEnums => 5
  | .fileServices => 6
  | .fileExtensions => 7
  | .fileSyntax => 12
  | .messageFields => 2
  | .nestedMessages => 3
  | .nestedEnums => 4
  | .messageExtensions => 6
  | .messageOneofs => 8
  | .enumValues => 2
  | .serviceMethods => 2

/-- An address: the numbers of its steps, two for each. -/
abbrev Address := List Int

namespace Address

/-- The address of the file itself. -/
def file : Address := []

/-- The address of a file's syntax statement, which carries the comment on the file.  A file has
just one, so there is no index. -/
def syntaxStatement : Address := [Collection.fileSyntax.number]

/-- The address one step further, into a collection at an index. -/
def child (a : Address) (c : Collection) (index : Int) : Address := a ++ [c.number, index]

end Address
end ProtoCatalog
