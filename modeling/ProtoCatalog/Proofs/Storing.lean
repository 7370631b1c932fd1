import ProtoCatalog.Proofs.Documenting
import ProtoCatalog.Proofs.Fields

/-!
# What storing a field does

The ways in which a field of a message changes the record that is read, told once: what is kept by
each of them is kept by reading a message.
-/

namespace ProtoCatalog
namespace Wire

-- A value in the bytes of a packed field is one that a number alone has too.
theorem exists_payload_of_mem_packed? {kind : FieldKind} {bytes : List UInt8} {ds : List Datum}
    (h : packed? kind bytes = some (some ds)) {d : Datum} (hd : d ∈ ds) :
    ∃ p : Payload, (∀ b, p ≠ .bytes b) ∧ scalar? kind p = some d := by
  have hone : ∀ (payload : Nat → Payload) (ns : Option (List Nat)),
      (∀ n b, payload n ≠ .bytes b) →
      ns.map (·.filterMap fun n ↦ scalar? kind (payload n)) = some ds →
      ∃ p : Payload, (∀ b, p ≠ .bytes b) ∧ scalar? kind p = some d := by
    intro payload ns hpayload hds
    obtain ⟨l, -, rfl⟩ := Option.map_eq_some_iff.mp hds
    obtain ⟨n, -, hn⟩ := List.mem_filterMap.mp hd
    exact ⟨payload n, hpayload n, hn⟩
  unfold packed? at h
  split at h
  any_goals cases h
  all_goals
    have hds := Option.some.inj h
    first
    | exact hone .fixed32 _ (fun _ _ ↦ nofun) hds
    | exact hone .fixed64 _ (fun _ _ ↦ nofun) hds
    | exact hone .varint _ (fun _ _ ↦ nofun) hds

variable [DescriptorPool] {inner : Reading} {t : MessageType} {r r' : Record} {field : Field}

/-- What storing a field makes of a record. -/
inductive Stored (inner : Reading) (t : MessageType) (r : Record) (field : Field) : Record → Prop
  /-- The field is not known, or it is of another shape than its type has. -/
  | ignored : Stored inner t r field r
  /-- A message is read onto what is there. -/
  | part {f : FieldSpec} {m : MessageType} {bytes : List UInt8} {s : Record}
    (hf : t.field? field.number = some f) (hkind : f.kind = .message m)
    (hone : f.cardinality = .single) (hpayload : field.payload = .bytes bytes)
    (hs : inner m (r.record f.number) bytes = .ok s) :
    Stored inner t r field (r.assign t f (.record s))
  /-- One more message is read. -/
  | item {f : FieldSpec} {m : MessageType} {bytes : List UInt8} {s : Record}
    (hf : t.field? field.number = some f) (hkind : f.kind = .message m)
    (hmany : f.cardinality = .repeated) (hpayload : field.payload = .bytes bytes)
    (hs : inner m [] bytes = .ok s) : Stored inner t r field (r.append f [.record s])
  | entry {f : FieldSpec} {m : MessageType} {bytes : List UInt8} {s : Record}
    (hf : t.field? field.number = some f) (hkind : f.kind = .message m) (hmap : f.cardinality = .map)
    (hpayload : field.payload = .bytes bytes) (hs : inner m [] bytes = .ok s) :
    Stored inner t r field (r.putEntry f (Record.entry m s))
  | value {f : FieldSpec} {d : Datum} (hf : t.field? field.number = some f)
    (hone : f.cardinality = .single) (hd : scalar? f.kind field.payload = some d) :
    Stored inner t r field (r.assign t f d)
  /-- Values come alone or packed. -/
  | values {f : FieldSpec} {ds : List Datum} (hf : t.field? field.number = some f)
    (hmany : f.cardinality = .repeated)
    (hds : ∀ d ∈ ds, ∃ p : Payload, (p = field.payload ∨ ∀ b, p ≠ .bytes b) ∧
      scalar? f.kind p = some d) :
    Stored inner t r field (r.append f ds)

/-- Storing a field has one of these outcomes. -/
theorem stored_of_store (h : store inner t r field = .ok r') : Stored inner t r field r' := by
  unfold store at h
  split at h
  · cases h
    exact .ignored
  · rename_i f hf
    -- A value that is there is the only one of its payload.
    have hsingle : f.cardinality = .repeated →
        Stored inner t r field ((scalar? f.kind field.payload).elim r fun d ↦ r.append f [d]) := by
      intro hmany
      cases hd : scalar? f.kind field.payload with
      | none => exact .ignored
      | some d => exact .values hf hmany (List.forall_mem_singleton.mpr ⟨_, .inl rfl, hd⟩)
    split at h
    · rename_i hkind hone hpayload
      obtain ⟨s, hs, h⟩ := bind_eq_ok.mp h
      cases h
      exact .part hf hkind hone hpayload hs
    · rename_i hkind hmany hpayload
      obtain ⟨s, hs, h⟩ := bind_eq_ok.mp h
      cases h
      exact .item hf hkind hmany hpayload hs
    · rename_i hkind hmap hpayload
      obtain ⟨s, hs, h⟩ := bind_eq_ok.mp h
      cases h
      split
      · exact .entry hf hkind hmap hpayload hs
      · exact .ignored
    · cases h
      exact .ignored
    · rename_i hmany _ _
      split at h
      · split at h
        · cases h
          exact .ignored
        · rename_i hds
          cases h
          refine .values hf hmany fun d hd ↦ ?_
          obtain ⟨p, hp, hone⟩ := exists_payload_of_mem_packed? hds hd
          exact ⟨p, .inr hp, hone⟩
        · cases h
        · cases h
          exact hsingle hmany
      · cases h
        exact hsingle hmany
    · rename_i hmessage hnotRepeated _ _ _
      cases h
      cases hd : scalar? f.kind field.payload with
      | none => exact .ignored
      | some d =>
        refine .value hf ?_ hd
        cases hc : f.cardinality with
        | single => rfl
        | repeated => exact absurd hc hnotRepeated
        | map =>
          obtain ⟨m, hm⟩ := MessageType.exists_entryType f (MessageType.field?_eq_some hf).1 hc
          exact absurd hm (hmessage m)

/-- What storing any field keeps holds of what some fields are read onto. -/
theorem foldlM_store_keeps {P : Record → Prop} {fields : List Field}
    (hstep : ∀ field ∈ fields, ∀ r r', P r → Stored inner t r field r' → P r') (h : P r)
    (hs : fields.foldlM (store inner t) r = .ok r') : P r' := by
  induction fields generalizing r with
  | nil =>
    cases hs
    exact h
  | cons field rest ih =>
    obtain ⟨hfirst, hrest⟩ := List.forall_mem_cons.mp hstep
    rw [List.foldlM_cons] at hs
    obtain ⟨r₁, hr, hs⟩ := bind_eq_ok.mp hs
    exact ih hrest (hfirst _ _ h (stored_of_store hr)) hs

theorem decodeLayer_eq_ok {levels : Nat} {bytes : List UInt8} :
    decodeLayer inner levels t r bytes = .ok r' ↔
      (Scan.ofBytes levels bytes).fields.foldlM (store inner t) r = .ok r' ∧
        (Scan.ofBytes levels bytes).sound = true := by
  constructor
  · intro h
    obtain ⟨r₁, hr₁, h⟩ := bind_eq_ok.mp h
    split at h
    · rename_i hsound
      cases h
      exact ⟨hr₁, hsound⟩
    · cases h
  · rintro ⟨hr, hsound⟩
    exact bind_eq_ok.mpr ⟨r', hr, if_pos hsound⟩

/-- What one layer keeps, given that the layer below keeps it, holds of readings of any depth. -/
theorem decodeInto_keeps {Q : Reading → Prop} (hnone : ∀ fault, Q fun _ _ _ ↦ .error fault)
    (hlayer : ∀ inner levels, Q inner → Q (decodeLayer inner levels)) (levels : Nat) :
    Q (decodeInto levels) := by
  induction levels with
  | zero => exact hlayer _ 0 (hnone .tooDeep)
  | succ levels ih => exact hlayer _ (levels + 1) ih

end Wire
end ProtoCatalog
