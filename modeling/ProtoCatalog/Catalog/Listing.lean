import ProtoCatalog.Catalog.Basic
import ProtoCatalog.Doc.Listing
import ProtoCatalog.Json.Printer
import ProtoCatalog.Scalar

/-!
# The listing of a catalog

A whole catalog as JSON: files in full, packages by the names of their declarations.
-/

namespace ProtoCatalog

def PackageDoc.toJson (p : PackageDoc) : Json :=
  .obj [("name", .str p.name),
    ("services", .arr (p.services.map fun s => .str s.names.full)),
    ("messages", .arr (p.messages.map fun m => .str m.names.full)),
    ("enums", .arr (p.enums.map fun e => .str e.names.full)),
    ("descriptions", .arr (p.notes.map fun n =>
      .obj [("file", .str n.file), ("description", .str n.description)]))]

namespace Catalog

def toJson (c : Catalog) : Json :=
  .obj [("files", .arr (c.files.map FileDoc.toJson)),
    ("scalarValueTypes", .arr (ScalarType.all.map ScalarType.toJson)),
    ("packages", .arr (c.packages.map PackageDoc.toJson))]

/-- The listing of a catalog as text. -/
def render (layout : Json.Layout) (c : Catalog) : String := c.toJson.render layout

end Catalog
end ProtoCatalog
