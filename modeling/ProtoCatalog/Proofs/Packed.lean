import ProtoCatalog.Proofs.Records

/-!
# Bytes inside a message

Every byte string in a message that is read from bytes is shorter than these, as a tag and a length
stand in front of it.  So messages packed in packed messages become shorter and shorter.
-/

namespace ProtoCatalog

/-! ## Values with short byte strings -/

namespace Datum

mutual

/-- All byte strings in a value, however deep, are shorter than a limit. -/
def Below (limit : Nat) : Datum → Prop
  | .bytes b => b.length < limit
  | .list items => AllBelow limit items
  | .record fields => FieldsBelow limit fields
  | _ => True

def AllBelow (limit : Nat) : List Datum → Prop
  | [] => True
  | d :: rest => d.Below limit ∧ AllBelow limit rest

def FieldsBelow (limit : Nat) : List (Nat × Datum) → Prop
  | [] => True
  | (_, d) :: rest => d.Below limit ∧ FieldsBelow limit rest

end

end Datum

/-- All byte strings in a message are shorter than a limit. -/
def Record.Below (limit : Nat) (r : Record) : Prop := ∀ e ∈ r, e.2.Below limit

namespace Datum

variable {limit : Nat}

theorem below_list {items : List Datum} :
    (Datum.list items).Below limit ↔ ∀ d ∈ items, d.Below limit := by
  rw [Below]
  induction items with
  | nil => simp [AllBelow]
  | cons d rest ih => rw [AllBelow, ih, List.forall_mem_cons]

theorem below_record {fields : Record} :
    (Datum.record fields).Below limit ↔ Record.Below limit fields := by
  rw [Below, Record.Below]
  induction fields with
  | nil => simp [FieldsBelow]
  | cons e rest ih =>
    obtain ⟨n, d⟩ := e
    rw [FieldsBelow, ih, List.forall_mem_cons]

theorem below_default (hpos : 0 < limit) (kind : FieldKind) : (Datum.default kind).Below limit := by
  cases kind with
  | scalar s =>
    cases s with
    | bytes => exact hpos
    | _ => trivial
  | enumeration e => trivial
  | message m => trivial

end Datum

namespace Record

variable {limit : Nat} {r : Record}

theorem Below.find? (h : Below limit r) {number : Nat} {d : Datum}
    (hd : r.find? number = some d) : d.Below limit := h _ (mem_of_find? hd)

theorem Below.record (h : Below limit r) (number : Nat) : Below limit (r.record number) := by
  unfold Record.record
  split
  · rename_i fields hf
    exact Datum.below_record.mp (h.find? hf)
  · exact List.forall_mem_nil _

theorem Below.length_bytes_lt (h : Below limit r) (hpos : 0 < limit) (number : Nat) :
    (r.bytes number).length < limit := by
  unfold Record.bytes
  split
  · rename_i b hb
    exact h.find? hb
  · exact hpos

theorem Below.items (h : Below limit r) (number : Nat) : ∀ d ∈ r.items number, d.Below limit := by
  unfold Record.items
  split
  · rename_i items hi
    exact Datum.below_list.mp (h.find? hi)
  · exact List.forall_mem_nil _

theorem Below.append (h : Below limit r) (f : FieldSpec) {ds : List Datum}
    (hds : ∀ d ∈ ds, d.Below limit) : Below limit (r.append f ds) := by
  apply forall_mem_set h
  rw [Datum.below_list]
  exact List.forall_mem_append.mpr ⟨h.items _, hds⟩

theorem Below.entry [DescriptorPool] (hpos : 0 < limit) (h : Below limit r) (t : MessageType) :
    Below limit (Record.entry t r) := by
  intro e he
  obtain ⟨f, -, hf⟩ := List.mem_filterMap.mp he
  split at hf
  · cases hf
    show ((r.find? f.number).getD (Datum.default f.kind)).Below limit
    cases hd : r.find? f.number with
    | none => exact Datum.below_default hpos _
    | some d => exact h.find? hd
  · cases hf

theorem Below.putEntry (h : Below limit r) (f : FieldSpec) {entry : Record}
    (he : Below limit entry) : Below limit (r.putEntry f entry) := by
  apply forall_mem_set h
  rw [Datum.below_list]
  exact forall_mem_insertEntry (Datum.below_record.mpr he) (h.items _)

end Record

/-! ## Fields with short payloads -/

namespace Wire

/-- A payload holds less than a number of bytes. -/
def Payload.Below (limit : Nat) : Payload → Prop
  | .bytes b => b.length < limit
  | _ => True

/-- A field among the tokens of a message holds less than a number of bytes. -/
def Token.Below (limit : Nat) : Token → Prop
  | .field f => f.payload.Below limit
  | _ => True

theorem Payload.Below.mono {p : Payload} {m n : Nat} (h : p.Below m) (hmn : m ≤ n) : p.Below n := by
  cases p with
  | bytes b => exact Nat.lt_of_lt_of_le h hmn
  | _ => trivial

theorem Token.Below.mono {t : Token} {m n : Nat} (h : t.Below m) (hmn : m ≤ n) : t.Below n := by
  cases t with
  | field f => exact Payload.Below.mono h hmn
  | _ => trivial

namespace Lexer

/-- What the machine holds after a number of bytes is less than these. -/
structure Holds (read : Nat) (l : Lexer) : Prop where
  tokens : ∀ t ∈ l.tokens, t.Below read
  taken : ∀ number block left taken, l.phase = .block number block left taken → taken.length < read

theorem Holds.later {read : Nat} {l : Lexer} (h : l.Holds read) :
    ∀ t ∈ l.tokens, t.Below (read + 1) := fun t ht ↦ (h.tokens t ht).mono (Nat.le_succ read)

end Lexer

section Values

variable {limit : Nat} {kind : FieldKind} {d : Datum}

-- Numbers hold no bytes.
theorem below_ofVarint? {n : Nat} (h : ofVarint? kind n = some d) : d.Below limit := by
  unfold ofVarint? at h
  split at h
  case h_8 =>
    split at h
    · cases h
      trivial
    · cases h
  all_goals
    cases h
    try trivial

theorem below_ofFixed32? {n : Nat} (h : ofFixed32? kind n = some d) : d.Below limit := by
  unfold ofFixed32? at h
  split at h <;> cases h <;> trivial

theorem below_ofFixed64? {n : Nat} (h : ofFixed64? kind n = some d) : d.Below limit := by
  unfold ofFixed64? at h
  split at h <;> cases h <;> trivial

theorem below_scalar? {p : Payload} (hp : p.Below limit) (h : scalar? kind p = some d) :
    d.Below limit := by
  cases p with
  | varint n => exact below_ofVarint? h
  | fixed32 n => exact below_ofFixed32? h
  | fixed64 n => exact below_ofFixed64? h
  | bytes b =>
    unfold scalar? at h
    simp only at h
    split at h
    · cases h
      trivial
    · cases h
      exact hp
    · cases h

end Values

variable [DescriptorPool]

/-- A reading keeps byte strings below the length of the bytes it is given. -/
def Reading.KeepsBelow (inner : Reading) : Prop :=
  ∀ limit t r bytes r', inner t r bytes = .ok r' → Record.Below limit r → bytes.length ≤ limit →
    Record.Below limit r'

/-- Storing a field whose payload is short keeps byte strings short. -/
theorem Stored.below {inner : Reading} (hinner : inner.KeepsBelow) {limit : Nat} {t : MessageType}
    {r r' : Record} {field : Field} (hs : Stored inner t r field r')
    (hf : field.payload.Below limit) (h : Record.Below limit r) : Record.Below limit r' := by
  have hnil : Record.Below limit [] := List.forall_mem_nil _
  cases hs with
  | ignored => exact h
  | part _ _ _ hpayload hr =>
    rw [hpayload] at hf
    have hr := hinner _ _ _ _ _ hr (h.record _) (Nat.le_of_lt hf)
    exact Record.forall_mem_assign h t (Datum.below_record.mpr hr)
  | item _ _ _ hpayload hr =>
    rw [hpayload] at hf
    have hr := hinner _ _ _ _ _ hr hnil (Nat.le_of_lt hf)
    exact h.append _ (List.forall_mem_singleton.mpr (Datum.below_record.mpr hr))
  | entry _ _ _ hpayload hr =>
    rw [hpayload] at hf
    have hr := hinner _ _ _ _ _ hr hnil (Nat.le_of_lt hf)
    exact h.putEntry _ (hr.entry (Nat.zero_lt_of_lt hf) _)
  | value _ _ hd => exact Record.forall_mem_assign h t (below_scalar? hf hd)
  | values _ _ hds =>
    apply h.append
    intro d hd
    obtain ⟨p, rfl | hnumber, hp⟩ := hds d hd
    · exact below_scalar? hf hp
    · have hbelow : p.Below limit := by
        cases p with
        | bytes b => cases hnumber b rfl
        | _ => trivial
      exact below_scalar? hbelow hp

end Wire
end ProtoCatalog
