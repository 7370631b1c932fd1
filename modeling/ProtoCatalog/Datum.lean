import ProtoCatalog.Number.Binary
import ProtoCatalog.Schema.Pool

/-!
# Message values

The value of a message as its fields that are set, by ascending number.  A field that is not set
is not there: what stands for it then is up to its reader.
-/

namespace ProtoCatalog

/-- The value of a field. -/
inductive Datum where
  | bool (b : Bool)
  | int (n : Int)
  | float (x : Single)
  | double (x : Double)
  | text (s : String)
  | bytes (b : List UInt8)
  | list (items : List Datum)
  | record (fields : List (Nat × Datum))
deriving Repr, Inhabited

/-- The fields of a message that are set, by ascending number. -/
abbrev Record := List (Nat × Datum)

namespace Datum

def isDefault : Datum → Bool
  | .bool b => !b
  | .int n => n == 0
  | .float x => x.bits == 0
  | .double x => x.bits == 0
  | .text s => s == ""
  | .bytes b => b.isEmpty
  | .list _ => false
  | .record _ => false

def default : FieldKind → Datum
  | .scalar .double => .double ⟨0⟩
  | .scalar .float => .float ⟨0⟩
  | .scalar .bool => .bool false
  | .scalar .string => .text ""
  | .scalar .bytes => .bytes []
  | .scalar _ => .int 0
  | .enumeration _ => .int 0
  | .message _ => .record []

def items : Datum → List Datum
  | .list items => items
  | _ => []

def fields : Datum → Record
  | .record fields => fields
  | _ => []

end Datum

namespace Record

def find? (r : Record) (number : Nat) : Option Datum :=
  (List.find? (·.1 == number) r).map (·.2)

def set (r : Record) (number : Nat) (d : Datum) : Record :=
  match r with
  | [] => [(number, d)]
  | (n, e) :: rest =>
    if n < number then (n, e) :: set rest number d
    else if n = number then (number, d) :: rest
    else (number, d) :: (n, e) :: rest

def unset (r : Record) (p : Nat → Bool) : Record := r.filter fun (n, _) => !p n

/-! ## Reading fields, absent ones by their defaults -/

def text (r : Record) (number : Nat) : String :=
  match r.find? number with
  | some (.text s) => s
  | _ => ""

def int? (r : Record) (number : Nat) : Option Int :=
  match r.find? number with
  | some (.int n) => some n
  | _ => none

def flag (r : Record) (number : Nat) : Bool :=
  match r.find? number with
  | some (.bool b) => b
  | _ => false

def bytes (r : Record) (number : Nat) : List UInt8 :=
  match r.find? number with
  | some (.bytes b) => b
  | _ => []

def record (r : Record) (number : Nat) : Record :=
  match r.find? number with
  | some (.record fields) => fields
  | _ => []

def items (r : Record) (number : Nat) : List Datum :=
  match r.find? number with
  | some (.list items) => items
  | _ => []

def records (r : Record) (number : Nat) : List Record := (r.items number).map Datum.fields

def texts (r : Record) (number : Nat) : List String :=
  (r.items number).map fun
    | .text s => s
    | _ => ""

def ints (r : Record) (number : Nat) : List Int :=
  (r.items number).map fun
    | .int n => n
    | _ => 0

/-! ## Setting fields of a message type -/

variable [DescriptorPool]

/-- The numbers of the members of a oneof that setting a field unsets. -/
def rivals (t : MessageType) (f : FieldSpec) (number : Nat) : Bool :=
  match f.oneof with
  | none => false
  | some oneof => number != f.number && (t.field? number).any fun g => g.oneof == some oneof

/-- A record with a singular field set: of a oneof the last member counts, and a field without
presence is unset by its default. -/
def assign (r : Record) (t : MessageType) (f : FieldSpec) (d : Datum) : Record :=
  -- Setting a member to its default still takes the place of the others.
  let r := r.unset (rivals t f)
  if !f.hasPresence && d.isDefault then r.unset (· == f.number) else r.set f.number d

/-- A record with values added to a repeated field. -/
def append (r : Record) (f : FieldSpec) (ds : List Datum) : Record :=
  r.set f.number (.list (r.items f.number ++ ds))

/-- A map's entry with its key and its value, absent ones by their defaults. -/
def entry (t : MessageType) (r : Record) : Record :=
  t.fields.filterMap fun f =>
    if f.number = 1 || f.number = 2 then
      some (f.number, (r.find? f.number).getD (Datum.default f.kind))
    else none

/-- A list of entries with one more; of two entries with one key the later stays, at the
earlier one's place. -/
def insertEntry (entry : Record) : List Datum → List Datum
  | [] => [.record entry]
  | d :: rest =>
    if text d.fields 1 = text entry 1 then .record entry :: rest else d :: insertEntry entry rest

/-- A record with an entry put into a map. -/
def putEntry (r : Record) (f : FieldSpec) (entry : Record) : Record :=
  r.set f.number (.list (insertEntry entry (r.items f.number)))

end Record
end ProtoCatalog
