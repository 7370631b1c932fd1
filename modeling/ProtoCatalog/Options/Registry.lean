import ProtoCatalog.Datum
import ProtoCatalog.Options.Map

/-!
# Option transforms

A registry of transforms, by the full names of the option extensions whose values they turn into
plain data.  A transform may refuse a value.
-/

namespace ProtoCatalog

/-- Why a transform refuses a value. -/
inductive TransformFault where
  /-- The value is a message of a type that does not have the oneof looked for. -/
  | noOneof (type : MessageType) (name : String)
  /-- The value is of another kind than the transform takes. -/
  | unsuited (complaint : String)
deriving DecidableEq, Repr

/-- What becomes of an extension's value, or of its values, of a kind. -/
abbrev Transform := FieldKind → Datum → Except TransformFault Json

/-- Transforms by the full names of extensions. -/
structure Registry where
  transforms : Table Transform

namespace Registry

def empty : Registry := ⟨Table.empty⟩

/-- A registry with a transform for an extension, in place of an earlier one. -/
def register (g : Registry) (name : String) (transform : Transform) : Registry :=
  ⟨g.transforms.insert name transform⟩

def contains (g : Registry) (name : String) : Bool := g.transforms.contains name

/-- The names of the extensions with a transform, in ascending order. -/
def names (g : Registry) : List String := g.transforms.sortedKeys

variable [DescriptorPool]

/-- The transformed value of a field, if it is an extension with a transform. -/
def entry? (g : Registry) (t : MessageType) (field : Nat × Datum) :
    Option (String × Except TransformFault Json) := do
  let spec ← t.field? field.1
  let name ← spec.fullName?
  let transform ← g.transforms.find? name
  return (name, transform spec.kind field.2)

/-- The transformed values of the extensions set on an options message, if none is refused. -/
def apply (g : Registry) (t : MessageType) (options : Record) :
    Except TransformFault OptionMap := do
  let entries ← (options.filterMap (g.entry? t)).mapM fun (name, result) => do
    return (name, ← result)
  return Table.ofList entries

end Registry
end ProtoCatalog
