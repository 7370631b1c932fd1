import ProtoCatalog.Doc.Basic

/-!
# Catalogs

A catalog of interface files: their documentation, their declarations gathered by package, and
the tables by which references are followed.
-/

namespace ProtoCatalog

/-- Where a mention of a type leads: to a declaration in a package, or out of the catalog. -/
inductive Link where
  | declared (package fullName : String)
  | external (href : String)
deriving DecidableEq, Repr

/-- What one file says of its package. -/
structure PackageNote where
  file : String
  description : String
deriving DecidableEq, Repr

/-- The declarations of all files of one package, by their full names. -/
structure PackageDoc where
  name : String
  services : List ServiceDoc
  messages : List MessageDoc
  enums : List EnumDoc
  notes : List PackageNote
deriving DecidableEq, Repr

/-- A catalog.  Messages that only stand for the entries of a map are in its tables and not in
its listings. -/
structure Catalog where
  files : List FileDoc
  packages : List PackageDoc
  links : Table Link
  messages : Table MessageDoc
deriving DecidableEq, Repr

namespace Catalog

def withoutDots (name : String) : String := String.ofList (name.toList.dropWhile (· = '.'))

def link? (c : Catalog) (name : String) : Option Link := c.links.find? (withoutDots name)

def message? (c : Catalog) (name : String) : Option MessageDoc :=
  c.messages.find? (withoutDots name)

/-- The first enumeration with a full name, package by package. -/
def enum? (c : Catalog) (name : String) : Option EnumDoc :=
  (c.packages.flatMap (·.enums)).find? (·.names.full == name)

/-- The first service with a full name, package by package. -/
def service? (c : Catalog) (name : String) : Option ServiceDoc :=
  (c.packages.flatMap (·.services)).find? (·.names.full == name)

def file? (c : Catalog) (name : String) : Option FileDoc := c.files.find? (·.name == name)

def package? (c : Catalog) (name : String) : Option PackageDoc :=
  c.packages.find? (·.name == name)

end Catalog
end ProtoCatalog
