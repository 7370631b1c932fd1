import ProtoCatalog.Json.Basic
import ProtoCatalog.Number.Shortest
import ProtoCatalog.Text.Base64
import ProtoCatalog.Wire.Decode

/-!
# The JSON projection of messages

A message as a JSON object of its set fields.  Four message types have a form of their own: a
dynamic value is the value it holds, a struct and a list are an object and an array of such
values, and a packed message of any type stands with its type's name beside its fields.
-/

namespace ProtoCatalog

variable [DescriptorPool]

/-- Why a message has no projection. -/
inductive ProjectionFault where
  /-- A dynamic value holds a number that JSON has not, in a field if its name is known. -/
  | nonFinite (field : Option String) (isNaN : Bool)
  /-- A packed message is of a type that is not known. -/
  | unknownType (url : String)
  /-- The bytes of a packed message are no message of its type. -/
  | undecodable (type : MessageType) (fault : Wire.Fault)
deriving DecidableEq, Repr

/-- A field's name goes into a fault that has none yet. -/
def ProjectionFault.within (name : String) : ProjectionFault → ProjectionFault
  | .nonFinite none isNaN => .nonFinite (some name) isNaN
  | fault => fault

namespace Projection

/-- Whether messages of a type are projected as objects of their fields. -/
def isRegular : MessageType → Bool
  | .value => false
  | .struct => false
  | .listValue => false
  | .any => false
  | _ => true

/-- The number in a floating-point field; a string stands for what is no finite number. -/
def float (value : FloatValue) (digits : Option Decimal) : Json :=
  match value with
  | .nan => .str "NaN"
  | .infinite true => .str "-Infinity"
  | .infinite false => .str "Infinity"
  | .finite _ _ _ => (digits.map Json.decimal).getD .null

/-- Whether integers of a type are written as strings, being too wide for a JSON number. -/
def isWide : FieldKind → Bool
  | .scalar .int64 => true
  | .scalar .uint64 => true
  | .scalar .sint64 => true
  | .scalar .fixed64 => true
  | .scalar .sfixed64 => true
  | _ => false

/-- An integer of a kind of field; the number of an enumeration is written by its name. -/
def integer (kind : FieldKind) (n : Int) : Json :=
  match kind with
  -- The one value of this enumeration is what JSON calls null.
  | .enumeration .nullValue => .null
  | .enumeration e => ((e.name? n).map Json.str).getD (.int n)
  | _ => if isWide kind then .str (toString n) else .int n

/-- A value that holds no message.  In a dynamic value, numbers must be finite. -/
def leaf (t : MessageType) (kind : FieldKind) : Datum → Except ProjectionFault Json
  | .bool b => .ok (.bool b)
  | .int n => .ok (integer kind n)
  | .float x => .ok (float x.value x.brief?)
  | .double x =>
    match t, x.value with
    | .value, .nan => .error (.nonFinite none true)
    | .value, .infinite _ => .error (.nonFinite none false)
    | _, v => .ok (float v x.shortest?)
  | .text s => .ok (.str s)
  | .bytes b => .ok (.str (String.ofList (Text.Base64.encode b)))
  | .list _ => .ok .null
  | .record _ => .ok .null

/-- The projection of a packed message: the members beside its type. -/
abbrev Unpacking := String → List UInt8 → Except ProjectionFault (List (String × Json))

/-- The projection of a message with the given fields. -/
def assemble (unpack : Unpacking) (t : MessageType) (fields : Record)
    (members : List (FieldSpec × Json)) : Except ProjectionFault Json :=
  match t with
  -- These three have at most one field set.
  | .value => .ok ((members.getLast?.map (·.2)).getD .null)
  | .struct => .ok ((members.getLast?.map (·.2)).getD (.obj []))
  | .listValue => .ok ((members.getLast?.map (·.2)).getD (.arr []))
  | .any =>
    if fields.isEmpty then .ok (.obj [])
    else do
      let url := fields.text 1
      return .obj (("@type", .str url) :: (← unpack url (fields.bytes 2)))
  | _ => .ok (.obj (members.map fun (f, j) => (f.key, j)))

/-- The member of an object that a map's entry is. -/
def entryMember : Json → String × Json
  | .obj [(_, .str key), (_, value)] => (key, value)
  | j => ("", j)

mutual

def datum (unpack : Unpacking) (t : MessageType) (f : FieldSpec) :
    Datum → Except ProjectionFault Json
  | .list items => do
    let items ← datums unpack t f items
    return if f.cardinality = .map then .obj (items.map entryMember) else .arr items
  | .record fields =>
    match f.kind with
    | .message m => do
      assemble unpack m fields (← members unpack m (isRegular m && f.cardinality != .map) fields)
    | _ => .ok .null
  | d => leaf t f.kind d

def datums (unpack : Unpacking) (t : MessageType) (f : FieldSpec) :
    List Datum → Except ProjectionFault (List Json)
  | [] => .ok []
  | d :: rest => do return (← datum unpack t f d) :: (← datums unpack t f rest)

/-- The projections of a message's fields.  A fault in a regular message tells its field. -/
def members (unpack : Unpacking) (t : MessageType) (regular : Bool) :
    List (Nat × Datum) → Except ProjectionFault (List (FieldSpec × Json))
  | [] => .ok []
  | (number, d) :: rest =>
    match t.field? number with
    | none => members unpack t regular rest
    | some f => do
      let j ← (datum unpack t f d).mapError
        (if regular then ProjectionFault.within f.name else id)
      return (f, j) :: (← members unpack t regular rest)

end

/-- The type named by a type URL: what follows its last slash. -/
def typeOfUrl? (url : String) : Option MessageType :=
  MessageType.ofFullName? (String.ofList (url.toList.reverse.takeWhile (· ≠ '/')).reverse)

/-- The members of a packed message, packed messages inside it being unpacked `depth` deep.
Types with a form of their own stand under one key. -/
def unpack : Nat → Unpacking
  | 0, _, _ => .ok []
  | depth + 1, url, bytes => do
    let some t := typeOfUrl? url | throw (.unknownType url)
    let fields ← (Wire.decode t bytes).mapError (.undecodable t)
    let inner := unpack depth
    let ms ← members inner t (isRegular t) fields
    -- A regular message lends its members; any other is itself a member.
    if isRegular t then return ms.map fun (f, j) => (f.key, j)
    else return [("value", ← assemble inner t fields ms)]

/-- The members of a packed message.  A message packed inside it has fewer bytes than it. -/
def unpackAll : Unpacking := fun url bytes => unpack (bytes.length + 1) url bytes

end Projection

/-- The projection of a message as the members of a JSON object, by ascending field number. -/
def Record.project (t : MessageType) (r : Record) :
    Except ProjectionFault (List (String × Json)) := do
  return (← Projection.members Projection.unpackAll t true r).map fun (f, j) => (f.key, j)

end ProtoCatalog
