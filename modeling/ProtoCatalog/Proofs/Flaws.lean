import ProtoCatalog.Proofs.Packed
import ProtoCatalog.Proofs.Projecting

/-!
# Why a message has no projection

A message has no projection just if it has a flaw at some depth: a dynamic value that is no finite
number, or a packed message of an unknown type, or one whose bytes cannot be read.
-/

namespace ProtoCatalog

/-! ## Faults and unpackings -/

/-- A fault without the field it tells. -/
def ProjectionFault.unnamed : ProjectionFault → ProjectionFault
  | .nonFinite _ isNaN => .nonFinite none isNaN
  | fault => fault

@[simp] theorem ProjectionFault.unnamed_within (name : String) (fault : ProjectionFault) :
    (fault.within name).unnamed = fault.unnamed := by
  cases fault with
  | nonFinite field isNaN => cases field <;> rfl
  | _ => rfl

namespace Projection

/-- Two unpackings give the same for messages of less than a number of bytes. -/
def AgreeBelow (limit : Nat) (u u' : Unpacking) : Prop :=
  ∀ url bytes, bytes.length < limit → u url bytes = u' url bytes

theorem assemble_congr {u u' : Unpacking} {limit : Nat} (hpos : 0 < limit)
    (hu : AgreeBelow limit u u') {t : MessageType} {fields : Record}
    (h : Record.Below limit fields) (ms : List (FieldSpec × Json)) :
    assemble u t fields ms = assemble u' t fields ms := by
  unfold assemble
  simp only [hu _ _ (h.length_bytes_lt hpos 2)]

end Projection

variable [DescriptorPool]

namespace Projection

/-! ## Packed messages without a bound

A message that is packed in another has fewer bytes than it, so the bound on how deep packed
messages are unpacked is never reached. -/

section Congruence

variable {u u' : Unpacking} {limit : Nat}

mutual

/-- Unpackings that agree on short bytes project a message with short byte strings alike. -/
theorem datum_congr (hpos : 0 < limit) (hu : AgreeBelow limit u u') (t : MessageType)
    (f : FieldSpec) : ∀ d : Datum, d.Below limit → datum u t f d = datum u' t f d
  | .list items, h => by
    rw [datum, datum, datums_congr hpos hu t f items (Datum.below_list.mp h)]
  | .record fields, h => by
    have hfields : Record.Below limit fields := Datum.below_record.mp h
    rw [datum, datum]
    split
    · rename_i m hm
      rw [members_congr hpos hu m _ fields hfields]
      simp only [assemble_congr hpos hu hfields]
    · rfl
  | .bool _, _ | .int _, _ | .float _, _ | .double _, _ | .text _, _ | .bytes _, _ => rfl

theorem datums_congr (hpos : 0 < limit) (hu : AgreeBelow limit u u') (t : MessageType)
    (f : FieldSpec) : ∀ ds : List Datum, (∀ d ∈ ds, d.Below limit) →
      datums u t f ds = datums u' t f ds
  | [], _ => rfl
  | d :: rest, h => by
    rw [datums, datums, datum_congr hpos hu t f d (h d List.mem_cons_self),
      datums_congr hpos hu t f rest fun e he ↦ h e (List.mem_cons_of_mem _ he)]

theorem members_congr (hpos : 0 < limit) (hu : AgreeBelow limit u u') (t : MessageType)
    (regular : Bool) : ∀ fields : List (Nat × Datum), Record.Below limit fields →
      members u t regular fields = members u' t regular fields
  | [], _ => rfl
  | (number, d) :: rest, h => by
    have hd : d.Below limit := h (number, d) List.mem_cons_self
    have hrest : Record.Below limit rest := fun e he ↦ h e (List.mem_cons_of_mem _ he)
    rw [members, members, members_congr hpos hu t regular rest hrest]
    split
    · rfl
    · rename_i f hf
      rw [datum_congr hpos hu t f d hd]

end

end Congruence

/-- A part of a message. -/
inductive Part where
  | message (t : MessageType) (fields : Record)
  /-- The value of a field of a message of a type, or one of its values. -/
  | value (t : MessageType) (f : FieldSpec) (d : Datum)
  /-- A packed message with its type's URL. -/
  | packed (url : String) (bytes : List UInt8)

/-- What keeps a part of a message from having a projection. -/
inductive Flaw : Part → ProjectionFault → Prop where
  | nan {f : FieldSpec} {x : Double} (hx : x.value = .nan) :
      Flaw (.value .value f (.double x)) (.nonFinite none true)
  | infinite {f : FieldSpec} {x : Double} {negative : Bool} (hx : x.value = .infinite negative) :
      Flaw (.value .value f (.double x)) (.nonFinite none false)
  | unknownType {url : String} {bytes : List UInt8} (ht : typeOfUrl? url = none) :
      Flaw (.packed url bytes) (.unknownType url)
  | undecodable {url : String} {bytes : List UInt8} {t : MessageType} {fault : Wire.Fault}
      (ht : typeOfUrl? url = some t) (hd : Wire.decode t bytes = .error fault) :
      Flaw (.packed url bytes) (.undecodable t fault)
  -- The flaws of a part are flaws of what it is a part of.
  | unpacked {url : String} {bytes : List UInt8} {t : MessageType} {fields : Record}
      {fault : ProjectionFault} (ht : typeOfUrl? url = some t)
      (hd : Wire.decode t bytes = .ok fields) (h : Flaw (.message t fields) fault) :
      Flaw (.packed url bytes) fault
  | packed {fields : Record} {fault : ProjectionFault} (hne : fields ≠ [])
      (h : Flaw (.packed (fields.text 1) (fields.bytes 2)) fault) :
      Flaw (.message .any fields) fault
  | field {t : MessageType} {fields : Record} {number : Nat} {d : Datum} {f : FieldSpec}
      {fault : ProjectionFault} (hd : (number, d) ∈ fields) (hf : t.field? number = some f)
      (h : Flaw (.value t f d) fault) : Flaw (.message t fields) fault
  | item {t : MessageType} {f : FieldSpec} {items : List Datum} {d : Datum}
      {fault : ProjectionFault} (hd : d ∈ items) (h : Flaw (.value t f d) fault) :
      Flaw (.value t f (.list items)) fault
  | inside {t m : MessageType} {f : FieldSpec} {fields : Record} {fault : ProjectionFault}
      (hm : f.kind = .message m) (h : Flaw (.message m fields) fault) :
      Flaw (.value t f (.record fields)) fault

/-- A message projected by its type. -/
def message (unpack : Unpacking) (t : MessageType) (regular : Bool) (fields : Record) :
    Except ProjectionFault Json := do
  assemble unpack t fields (← members unpack t regular fields)

/-- What goes wrong with packed messages is a flaw of theirs. -/
def TellsFlaws (u : Unpacking) : Prop :=
  ∀ url bytes e, u url bytes = .error e → Flaw (.packed url bytes) e.unnamed

section Faults

variable {u : Unpacking}

theorem flaw_of_leaf {t : MessageType} {f : FieldSpec} {d : Datum} {e : ProjectionFault}
    (h : leaf t f.kind d = .error e) : Flaw (.value t f d) e.unnamed := by
  unfold leaf at h
  split at h
  case h_4 x =>
    split at h
    · rename_i hx
      cases h
      exact .nan hx
    · rename_i hx
      cases h
      exact .infinite hx
    · cases h
  all_goals cases h

theorem flaw_of_assemble (hu : TellsFlaws u) {t : MessageType} {fields : Record}
    {ms : List (FieldSpec × Json)} {e : ProjectionFault}
    (h : assemble u t fields ms = .error e) : Flaw (.message t fields) e.unnamed := by
  unfold assemble at h
  split at h
  case h_4 =>
    split at h
    · cases h
    · rename_i hne
      rcases bind_eq_error.mp h with h | ⟨_, -, h⟩
      · exact .packed (by rintro rfl; exact hne rfl) (hu _ _ _ h)
      · cases h
  all_goals cases h

mutual

/-- What goes wrong with a value is one of its flaws. -/
theorem flaw_of_datum (hu : TellsFlaws u) (t : MessageType) (f : FieldSpec) {e : ProjectionFault} :
    ∀ d : Datum, datum u t f d = .error e → Flaw (.value t f d) e.unnamed
  | .list items, h => by
    rw [datum] at h
    rcases bind_eq_error.mp h with h | ⟨_, -, h⟩
    · obtain ⟨d, hd, hflaw⟩ := flaw_of_datums hu t f items h
      exact .item hd hflaw
    · cases h
  | .record fields, h => by
    rw [datum] at h
    split at h
    · rename_i m hm
      rcases bind_eq_error.mp h with h | ⟨ms, -, h⟩
      · obtain ⟨number, d, f', hd, hf', hflaw⟩ := flaw_of_members hu m _ fields h
        exact .inside hm (.field hd hf' hflaw)
      · exact .inside hm (flaw_of_assemble hu h)
    · cases h
  | .bool _, h | .int _, h | .float _, h | .double _, h | .text _, h | .bytes _, h =>
    flaw_of_leaf h

theorem flaw_of_datums (hu : TellsFlaws u) (t : MessageType) (f : FieldSpec) {e : ProjectionFault} :
    ∀ ds : List Datum, datums u t f ds = .error e → ∃ d ∈ ds, Flaw (.value t f d) e.unnamed
  | [], h => by cases h
  | d :: rest, h => by
    rw [datums] at h
    rcases bind_eq_error.mp h with h | ⟨_, -, h⟩
    · exact ⟨d, List.mem_cons_self, flaw_of_datum hu t f d h⟩
    · rcases bind_eq_error.mp h with h | ⟨_, -, h⟩
      · obtain ⟨d', hd', hflaw⟩ := flaw_of_datums hu t f rest h
        exact ⟨d', List.mem_cons_of_mem _ hd', hflaw⟩
      · cases h

theorem flaw_of_members (hu : TellsFlaws u) (t : MessageType) (regular : Bool)
    {e : ProjectionFault} : ∀ fields : List (Nat × Datum), members u t regular fields = .error e →
      ∃ number d f, (number, d) ∈ fields ∧ t.field? number = some f ∧
        Flaw (.value t f d) e.unnamed
  | [], h => by cases h
  | (number, d) :: rest, h => by
    rw [members] at h
    split at h
    · obtain ⟨number', d', f', hd', hf'⟩ := flaw_of_members hu t regular rest h
      exact ⟨number', d', f', List.mem_cons_of_mem _ hd', hf'⟩
    · rename_i f hf
      rcases bind_eq_error.mp h with h | ⟨_, -, h⟩
      · -- The field that is told makes no difference.
        obtain ⟨e', he', rfl⟩ := mapError_eq_error.mp h
        have hflaw := flaw_of_datum hu t f d he'
        refine ⟨number, d, f, List.mem_cons_self, hf, ?_⟩
        split
        · rwa [ProjectionFault.unnamed_within]
        · exact hflaw
      · rcases bind_eq_error.mp h with h | ⟨_, -, h⟩
        · obtain ⟨number', d', f', hd', hf'⟩ := flaw_of_members hu t regular rest h
          exact ⟨number', d', f', List.mem_cons_of_mem _ hd', hf'⟩
        · cases h

end

end Faults

section Flaws

variable {u : Unpacking}

end Flaws
end Projection

namespace Record

open Projection

end Record
end ProtoCatalog
