import ProtoCatalog.Proofs.Records

/-!
# Values of the right kind

A field that is set has a value of its kind: of what its bytes can be, values of another shape are
passed over, and so are numbers that a closed enumeration has no name for.
-/

namespace ProtoCatalog

/-! ## Values and kinds -/

def ScalarType.isInteger : ScalarType → Bool
  | .double | .float | .bool | .string | .bytes => false
  | _ => true

/-- Whether a value is one of a kind of field. -/
def FieldKind.allows : FieldKind → Datum → Bool
  | .scalar .bool, .bool _ => true
  | .scalar .float, .float _ => true
  | .scalar .double, .double _ => true
  | .scalar .string, .text _ => true
  | .scalar .bytes, .bytes _ => true
  | .scalar s, .int _ => s.isInteger
  | .enumeration e, .int n => e.accepts n
  | .message _, .record _ => true
  | _, _ => false

/-- Whether a value is one of a field, which for a repeated field and for a map is a list. -/
def FieldSpec.allows (f : FieldSpec) : Datum → Bool
  | .list items => f.cardinality != .single && items.all f.kind.allows
  | d => f.cardinality == .single && f.kind.allows d

theorem FieldSpec.allows_list {f : FieldSpec} {items : List Datum} :
    f.allows (.list items) = true ↔ f.cardinality ≠ .single ∧ ∀ d ∈ items, f.kind.allows d := by
  rw [allows, Bool.and_eq_true, bne_iff_ne, List.all_eq_true]

-- A kind has no lists, so a field that is not repeated has what its kind has.
theorem FieldSpec.allows_single {f : FieldSpec} (hf : f.cardinality = .single) (d : Datum) :
    f.allows d = f.kind.allows d := by
  unfold allows
  split
  · rw [hf]
    cases f.kind with
    | scalar s => cases s <;> rfl
    | _ => rfl
  · rw [hf]
    rfl

theorem Wire.allows_scalar? {kind : FieldKind} {p : Payload} {d : Datum}
    (h : scalar? kind p = some d) : kind.allows d = true := by
  cases kind with
  | scalar s => cases s <;> cases p <;> cases h <;> rfl
  | message m => cases p <;> cases h
  | enumeration e =>
    cases p with
    | varint n =>
      rw [scalar?, ofVarint?] at h
      split at h
      · rename_i haccepts
        cases h
        exact haccepts
      · cases h
    | _ => cases h

theorem Wire.scalar?_message (m : MessageType) (p : Payload) : scalar? (.message m) p = none := by
  cases p <;> rfl

/-! ## Messages with values of the right kind -/

variable [DescriptorPool]

/-- The values of the fields that a type knows are theirs. -/
def Record.Typed (t : MessageType) (r : Record) : Prop :=
  ∀ e ∈ r, ∀ f ∈ t.field? e.1, f.allows e.2 = true

instance (t : MessageType) (r : Record) : Decidable (r.Typed t) := by
  unfold Record.Typed
  infer_instance

namespace Record

variable {t : MessageType} {r : Record} {f : FieldSpec}

theorem Typed.items (h : r.Typed t) (hf : t.field? f.number = some f) :
    ∀ d ∈ r.items f.number, f.kind.allows d := by
  unfold Record.items
  split
  · rename_i items hi
    exact (FieldSpec.allows_list.mp (h _ (mem_of_find? hi) f hf)).2
  · exact List.forall_mem_nil _

end Record
end ProtoCatalog
