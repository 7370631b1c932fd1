import ProtoCatalog.Proofs.Records
import ProtoCatalog.Proofs.Table

/-!
# What a projection shows

The projection of a message has the projected value of each known field that is set, in the order of
their numbers.  Under the name of an extension this is the last one, so it is the extension's.
-/

namespace ProtoCatalog

/-! ## Members of a projection -/

variable [DescriptorPool]

namespace Projection

/-- The set fields that a type knows, with their values. -/
def known (t : MessageType) (fields : Record) : List (FieldSpec × Datum) :=
  fields.filterMap fun e ↦ (t.field? e.1).map fun f ↦ (f, e.2)

-- Known fields are projected one by one.
theorem forall₂_members {unpack : Unpacking} {t : MessageType} {regular : Bool} {fields : Record}
    {ms : List (FieldSpec × Json)} (h : members unpack t regular fields = .ok ms) :
    List.Forall₂ (fun p m ↦ m.1 = p.1 ∧ datum unpack t p.1 p.2 = .ok m.2) (known t fields) ms := by
  induction fields generalizing ms with
  | nil =>
    rw [members] at h
    cases h
    exact .nil
  | cons e rest ih =>
    obtain ⟨number, d⟩ := e
    rw [members] at h
    rw [known, List.filterMap_cons]
    -- A field that the type does not know is passed over on both sides.
    cases hf : t.field? number with
    | none =>
      rw [hf] at h
      simp only [Option.map_none]
      exact ih h
    | some f =>
      rw [hf] at h
      obtain ⟨j, hj, h⟩ := bind_eq_ok.mp h
      obtain ⟨ms', hms, h⟩ := bind_eq_ok.mp h
      cases h
      simp only [Option.map_some]
      exact .cons ⟨rfl, mapError_eq_ok.mp hj⟩ (ih hms)

theorem mem_members {unpack : Unpacking} {t : MessageType} {regular : Bool} {fields : Record}
    {ms : List (FieldSpec × Json)} (h : members unpack t regular fields = .ok ms) {number : Nat}
    {d : Datum} {f : FieldSpec} (hd : (number, d) ∈ fields) (hf : t.field? number = some f) :
    ∃ j, datum unpack t f d = .ok j ∧ (f, j) ∈ ms := by
  have hknown : (f, d) ∈ known t fields := by
    apply List.mem_filterMap.mpr
    exact ⟨(number, d), hd, by rw [hf]; rfl⟩
  obtain ⟨⟨_, j⟩, hm, rfl, hj⟩ := exists_of_mem_left (forall₂_members h) hknown
  exact ⟨j, hj, hm⟩

theorem exists_of_mem_members {unpack : Unpacking} {t : MessageType} {regular : Bool}
    {fields : Record} {ms : List (FieldSpec × Json)}
    (h : members unpack t regular fields = .ok ms) {m : FieldSpec × Json} (hm : m ∈ ms) :
    ∃ e ∈ fields, t.field? e.1 = some m.1 ∧ datum unpack t m.1 e.2 = .ok m.2 := by
  obtain ⟨p, hp, hspec, hj⟩ := exists_of_mem_right (forall₂_members h) hm
  obtain ⟨e, he, hpe⟩ := List.mem_filterMap.mp hp
  obtain ⟨f, hf, rfl⟩ := Option.map_eq_some_iff.mp hpe
  rw [hspec]
  exact ⟨e, he, hf, hj⟩

/-- Every member is a field of the type, and their numbers ascend. -/
theorem members_ordered {unpack : Unpacking} {t : MessageType} {regular : Bool} {fields : Record}
    {ms : List (FieldSpec × Json)} (h : members unpack t regular fields = .ok ms)
    (ho : fields.Ordered) :
    (∀ m ∈ ms, m.1 ∈ t.fields) ∧ ms.Pairwise fun a b ↦ a.1.number < b.1.number := by
  have hspecs : ms.map (·.1) = (known t fields).map (·.1) :=
    map_eq_map_of_forall₂ (forall₂_members h) fun _ _ hm ↦ hm.1
  constructor
  · intro m hm
    obtain ⟨e, -, hf, -⟩ := exists_of_mem_members h hm
    exact (MessageType.field?_eq_some hf).1
  · have hpair : (known t fields).Pairwise fun a b ↦ a.1.number < b.1.number := by
      apply List.Pairwise.filterMap _ _ ho
      intro a b hab p hp q hq
      obtain ⟨f, hf, rfl⟩ := Option.map_eq_some_iff.mp hp
      obtain ⟨g, hg, rfl⟩ := Option.map_eq_some_iff.mp hq
      rw [(MessageType.field?_eq_some hf).2, (MessageType.field?_eq_some hg).2]
      exact hab
    have hnumbers : ms.map (·.1.number) = (known t fields).map (·.1.number) := by
      have he := congrArg (List.map FieldSpec.number) hspecs
      rwa [List.map_map, List.map_map] at he
    apply List.pairwise_map.mp
    rw [hnumbers]
    exact List.pairwise_map.mpr hpair

end Projection

/-! ## The options message itself -/

namespace Options

variable {kind : DeclKind} {options : Record}

/-- Of the set fields with one key the options message shows the last one, by its projection. -/
theorem find?_raw_last (ho : options.Ordered) {number : Nat} {d : Datum}
    (hd : (number, d) ∈ options) {spec : FieldSpec}
    (hspec : kind.optionsType.field? number = some spec) {key : String}
    (hkey : plainKey spec.key = key)
    (hlater : ∀ e ∈ options, ∀ f ∈ kind.optionsType.field? e.1, spec.number < f.number →
      plainKey f.key ≠ key) {ms : List (String × Json)}
    (hp : options.project kind.optionsType = .ok ms) :
    ∃ r j, raw kind.optionsType options = .ok r ∧
      Projection.datum Projection.unpackAll kind.optionsType spec d = .ok j ∧
      Table.find? r key = some j := by
  obtain ⟨shown, hshown, h⟩ := bind_eq_ok.mp hp
  cases h
  obtain ⟨j, hj, hin⟩ := Projection.mem_members hshown hd hspec
  have hpair := (Projection.members_ordered hshown ho).2
  -- Of the members with its key the last one counts, and no member behind it has the key.
  obtain ⟨front, rest, rfl⟩ := List.append_of_mem hin
  refine ⟨_, j, by rw [raw, hp], hj, ?_⟩
  simp only [List.map_append, List.map_cons, hkey]
  apply Table.find?_ofList_last
  intro e he
  obtain ⟨p, hp, rfl⟩ := List.mem_map.mp he
  obtain ⟨m, hm, rfl⟩ := List.mem_map.mp hp
  have hlt : spec.number < m.1.number :=
    (List.pairwise_cons.mp (List.pairwise_append.mp hpair).2.1).1 m hm
  obtain ⟨e, he, hf, -⟩ := Projection.exists_of_mem_members hshown
    (List.mem_append_right _ (List.mem_cons_of_mem _ hm))
  exact hlater e he m.1 hf hlt

/-- The options message shows an extension by its projection. -/
theorem find?_raw (ho : options.Ordered) {number : Nat} {d : Datum} (hd : (number, d) ∈ options)
    {spec : FieldSpec} (hspec : kind.optionsType.field? number = some spec) {name : String}
    (hname : spec.fullName? = some name) {ms : List (String × Json)}
    (hp : options.project kind.optionsType = .ok ms) :
    ∃ r j, raw kind.optionsType options = .ok r ∧
      Projection.datum Projection.unpackAll kind.optionsType spec d = .ok j ∧
      Table.find? r name = some j := by
  have hin := (MessageType.field?_eq_some hspec).1
  apply find?_raw_last ho hd hspec (DeclKind.plainKey_extension hin hname) ?_ hp
  intro e _ f hf hlt
  exact DeclKind.plainKey_ne_of_lt hin hname (MessageType.field?_eq_some hf).1 hlt

/-- The options message shows nothing under a key that no set field has. -/
theorem find?_raw_eq_none {key : String}
    (hkey : ∀ e ∈ options, ∀ f ∈ kind.optionsType.field? e.1, plainKey f.key ≠ key)
    {r : OptionMap} (hr : raw kind.optionsType options = .ok r) : Table.find? r key = none := by
  cases hp : options.project kind.optionsType with
  | ok ms =>
    obtain ⟨shown, hshown, h⟩ := bind_eq_ok.mp hp
    cases h
    rw [raw, hp] at hr
    cases hr
    rw [Table.find?_eq_none_iff, Table.mem_keys_ofList]
    intro hin
    obtain ⟨p, hp, hpkey⟩ := List.mem_map.mp hin
    obtain ⟨q, hq, rfl⟩ := List.mem_map.mp hp
    obtain ⟨m, hm, rfl⟩ := List.mem_map.mp hq
    obtain ⟨e, he, hf, -⟩ := Projection.exists_of_mem_members hshown hm
    exact hkey e he m.1 hf hpkey
  | error fault =>
    rw [raw, hp] at hr
    cases fault <;> cases hr
    rfl

end Options
end ProtoCatalog
