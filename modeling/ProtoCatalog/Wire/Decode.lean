import ProtoCatalog.Datum
import ProtoCatalog.Text.Utf8
import ProtoCatalog.Wire.Scan

/-!
# Reading messages from bytes

Messages are read by their types.  Fields that a type does not know, and fields whose bytes are
of another shape than their type has, are passed over.
-/

namespace ProtoCatalog.Wire

/-- Why bytes are no message of a type. -/
inductive Fault where
  | corrupt
  | tooDeep
deriving DecidableEq, Repr

/-- The signed number with the given lowest bits. -/
def signed (bits n : Nat) : Int := (n : Int).bmod (twoTo bits)

/-- The signed number behind an unsigned one that counts away from zero, `0, -1, 1, -2, …`. -/
def zigzag (n : Nat) : Int := if n % 2 = 0 then n / 2 else -((n / 2 : Nat) : Int) - 1

/-- The value of a varint as a number of a type. -/
def ofVarint? : FieldKind → Nat → Option Datum
  | .scalar .int32, n => some (.int (signed 32 n))
  | .scalar .int64, n => some (.int (signed 64 n))
  | .scalar .uint32, n => some (.int (n % twoTo 32 : Nat))
  | .scalar .uint64, n => some (.int n)
  | .scalar .sint32, n => some (.int (zigzag (n % twoTo 32)))
  | .scalar .sint64, n => some (.int (zigzag n))
  | .scalar .bool, n => some (.bool (n != 0))
  -- A number without a name is no value, so an earlier value stays.
  | .enumeration e, n => if e.accepts (signed 32 n) then some (.int (signed 32 n)) else none
  | _, _ => none

def ofFixed32? : FieldKind → Nat → Option Datum
  | .scalar .fixed32, n => some (.int n)
  | .scalar .sfixed32, n => some (.int (signed 32 n))
  | .scalar .float, n => some (.float ⟨n.toUInt32⟩)
  | _, _ => none

def ofFixed64? : FieldKind → Nat → Option Datum
  | .scalar .fixed64, n => some (.int n)
  | .scalar .sfixed64, n => some (.int (signed 64 n))
  | .scalar .double, n => some (.double ⟨n.toUInt64⟩)
  | _, _ => none

def scalar? (kind : FieldKind) : Payload → Option Datum
  | .varint n => ofVarint? kind n
  | .fixed32 n => ofFixed32? kind n
  | .fixed64 n => ofFixed64? kind n
  | .bytes b =>
    match kind with
    | .scalar .string => some (.text (Text.Utf8.decode b))
    | .scalar .bytes => some (.bytes b)
    | _ => none

/-- The values in the bytes of a packed field: none if the type cannot be packed, no list if the
bytes are not whole numbers. -/
def packed? (kind : FieldKind) (bytes : List UInt8) : Option (Option (List Datum)) :=
  match kind with
  | .message _ => none
  | .scalar .string => none
  | .scalar .bytes => none
  | .scalar .float => some ((packedBlocks? 4 bytes).map (·.filterMap (ofFixed32? kind)))
  | .scalar .fixed32 => some ((packedBlocks? 4 bytes).map (·.filterMap (ofFixed32? kind)))
  | .scalar .sfixed32 => some ((packedBlocks? 4 bytes).map (·.filterMap (ofFixed32? kind)))
  | .scalar .double => some ((packedBlocks? 8 bytes).map (·.filterMap (ofFixed64? kind)))
  | .scalar .fixed64 => some ((packedBlocks? 8 bytes).map (·.filterMap (ofFixed64? kind)))
  | .scalar .sfixed64 => some ((packedBlocks? 8 bytes).map (·.filterMap (ofFixed64? kind)))
  | _ => some ((packedVarints? bytes).map (·.filterMap (ofVarint? kind)))

variable [DescriptorPool]

/-- Whether a field of a map's entry is one of the entry's own. -/
def belongs (t : MessageType) (field : Field) : Bool :=
  (t.field? field.number).any fun f =>
    match f.kind, field.payload with
    | .message _, .bytes _ => true
    | kind, payload => (scalar? kind payload).isSome

/-- Whether the bytes of a map's entry hold its key and its value and nothing else.  Entries
that hold more are passed over whole. -/
def isPlainEntry (t : MessageType) (bytes : List UInt8) : Bool :=
  let scan := Scan.ofBytes bytes.length bytes
  !scan.leftOut && scan.fields.all (belongs t)

/-- How messages inside a message are read: onto what is already there. -/
abbrev Reading := MessageType → Record → List UInt8 → Except Fault Record

/-- A record with one field of a message stored. -/
def store (inner : Reading) (t : MessageType) (r : Record) (field : Field) :
    Except Fault Record :=
  match t.field? field.number with
  | none => .ok r
  | some f =>
    match f.kind, f.cardinality, field.payload with
    -- A message that comes in parts is read part by part onto what is there.
    | .message m, .single, .bytes b => do
      return r.assign t f (.record (← inner m (r.record f.number) b))
    | .message m, .repeated, .bytes b => do
      return r.append f [.record (← inner m [] b)]
    | .message m, .map, .bytes b => do
      let entry ← inner m [] b
      return if isPlainEntry m b then r.putEntry f (Record.entry m entry) else r
    | .message _, _, _ => .ok r
    -- Packed and single values of one field may come mixed.
    | kind, .repeated, payload =>
      match payload with
      | .bytes b =>
        match packed? kind b with
        -- A field without values is not set.
        | some (some []) => .ok r
        | some (some ds) => .ok (r.append f ds)
        | some none => .error .corrupt
        | none => .ok ((scalar? kind payload).elim r fun d => r.append f [d])
      | _ => .ok ((scalar? kind payload).elim r fun d => r.append f [d])
    | kind, _, payload => .ok ((scalar? kind payload).elim r fun d => r.assign t f d)

/-- A message read with a given reading of the messages inside it, groups at most `levels`
deep.  A fault in the bytes counts after the fields in front of it. -/
def decodeLayer (inner : Reading) (levels : Nat) : Reading := fun t r bytes => do
  let scan := Scan.ofBytes levels bytes
  let r ← scan.fields.foldlM (store inner t) r
  if scan.sound then .ok r else .error .corrupt

/-- A message read onto a record, with messages nested at most `levels` deep. -/
def decodeInto : Nat → Reading
  | 0 => decodeLayer (fun _ _ _ => .error .tooDeep) 0
  | levels + 1 => decodeLayer (decodeInto levels) (levels + 1)

/-- The levels of messages allowed below the outermost one. -/
def maxLevels : Nat := 100

/-- The message of a type in some bytes. -/
def decode (t : MessageType) (bytes : List UInt8) : Except Fault Record :=
  decodeInto maxLevels t [] bytes

end ProtoCatalog.Wire
