import ProtoCatalog.Catalog.Note
import ProtoCatalog.Loading.DescriptorSet
import ProtoCatalog.Proofs.Concatenation
import ProtoCatalog.Proofs.Typing
import ProtoCatalog.Proofs.Walk

/-!
# Messages as they are read

A message that is read from bytes is well-formed: its fields stand by ascending number, their values
are of the right kinds, and the messages in them are well-formed in turn.  So are the options of every
declaration, at any depth, of the files that are loaded.
-/

namespace ProtoCatalog

/-! ## Messages that descriptors describe -/

namespace MessageDecl

theorem ofData_eq_map (ds : List Datum) : ofData ds = ds.map ofDatum := by
  induction ds with
  | nil => rw [ofData, List.map_nil]
  | cons d rest ih => rw [ofData, ih, List.map_cons]

theorem nestedIn_eq (r : Record) : nestedIn r = (r.items 3).map ofDatum := by
  induction r with
  | nil =>
    rw [nestedIn]
    rfl
  | cons e rest ih =>
    obtain ⟨number, d⟩ := e
    rw [nestedIn, Record.items, Record.find?_cons]
    split
    · cases d <;> simp [ofItems, ofData_eq_map]
    · exact ih

end MessageDecl

/-! ## Well-formed messages -/

/-- A message is a value, or one of the values in a list. -/
inductive Datum.Holds (s : Record) : Datum → Prop
  | self : Holds s (.record s)
  | item {items : List Datum} (h : .record s ∈ items) : Holds s (.list items)

variable [DescriptorPool]

/-- The fields of a message ascend, and their values are of the right kinds.  The same holds of the
messages in it, the entries of maps aside. -/
inductive Record.WellFormed : MessageType → Record → Prop
  | intro {t : MessageType} {r : Record} (ordered : r.Ordered) (typed : r.Typed t)
    (inside : ∀ e ∈ r, ∀ f ∈ t.field? e.1, f.cardinality ≠ .map → ∀ m, f.kind = .message m →
      ∀ s, e.2.Holds s → WellFormed m s) : WellFormed t r

namespace Record.WellFormed

variable {t m : MessageType} {r : Record} {f : FieldSpec} {number : Nat} {d : Datum}

theorem ordered (h : WellFormed t r) : r.Ordered := by
  obtain ⟨ordered, -, -⟩ := h
  exact ordered

theorem typed (h : WellFormed t r) : r.Typed t := by
  obtain ⟨-, typed, -⟩ := h
  exact typed

theorem inside (h : WellFormed t r) : ∀ e ∈ r, ∀ f ∈ t.field? e.1, f.cardinality ≠ .map →
    ∀ m, f.kind = .message m → ∀ s, e.2.Holds s → WellFormed m s := by
  obtain ⟨-, -, inside⟩ := h
  exact inside

theorem nil (t : MessageType) : WellFormed t [] :=
  .intro List.Pairwise.nil (List.forall_mem_nil _) (List.forall_mem_nil _)

/-! ### Messages inside a message -/

theorem record (h : WellFormed t r) (number : Nat) (hf : t.field? number = some f)
    (hmap : f.cardinality ≠ .map) (hkind : f.kind = .message m) : WellFormed m (r.record number) := by
  unfold Record.record
  split
  · rename_i hs
    exact h.inside _ (mem_of_find? hs) f hf hmap m hkind _ .self
  · exact .nil m

theorem items (h : WellFormed t r) (number : Nat) (hf : t.field? number = some f)
    (hmap : f.cardinality ≠ .map) (hkind : f.kind = .message m) :
    ∀ d ∈ r.items number, ∃ s, d = .record s ∧ WellFormed m s := by
  unfold Record.items
  split
  · rename_i items hi
    intro d hd
    have hallows := (FieldSpec.allows_list.mp (h.typed _ (mem_of_find? hi) f hf)).2 d hd
    rw [hkind] at hallows
    cases d with
    | record s => exact ⟨s, rfl, h.inside _ (mem_of_find? hi) f hf hmap m hkind s (.item hd)⟩
    | _ => cases hallows
  · exact List.forall_mem_nil _

theorem records (h : WellFormed t r) (number : Nat) (hf : t.field? number = some f)
    (hmap : f.cardinality ≠ .map) (hkind : f.kind = .message m) :
    ∀ s ∈ r.records number, WellFormed m s := by
  rw [Record.records, List.forall_mem_map]
  intro d hd
  obtain ⟨s, rfl, hs⟩ := h.items number hf hmap hkind d hd
  exact hs

/-! ### Fields that are set -/

theorem unset (h : WellFormed t r) (p : Nat → Bool) : WellFormed t (r.unset p) :=
  .intro (h.ordered.unset p) (forall_mem_unset h.typed p) (forall_mem_unset h.inside p)

theorem set (h : WellFormed t r) (hf : t.field? f.number = some f) (hd : f.allows d = true)
    (hin : f.cardinality ≠ .map → ∀ m, f.kind = .message m → ∀ s, d.Holds s → WellFormed m s) :
    WellFormed t (r.set f.number d) := by
  have hone : ∀ g ∈ t.field? f.number, g = f := fun g hg ↦ Option.some.inj (hg.symm.trans hf)
  refine .intro (h.ordered.set _ _) (forall_mem_set h.typed ?_) (forall_mem_set h.inside ?_)
  · intro g hg
    rw [hone g hg]
    exact hd
  · intro g hg
    rw [hone g hg]
    exact hin

theorem assign (h : WellFormed t r) (hf : t.field? f.number = some f)
    (hone : f.cardinality = .single) (hd : f.kind.allows d = true)
    (hin : ∀ m, f.kind = .message m → ∀ s, d.Holds s → WellFormed m s) :
    WellFormed t (r.assign t f d) := by
  unfold Record.assign
  simp only
  split
  · exact (h.unset _).unset _
  · exact (h.unset _).set hf ((f.allows_single hone d).trans hd) fun _ ↦ hin

theorem append (h : WellFormed t r) (hf : t.field? f.number = some f)
    (hmany : f.cardinality = .repeated) {ds : List Datum} (hds : ∀ d ∈ ds, f.kind.allows d)
    (hin : ∀ m, f.kind = .message m → ∀ s, .record s ∈ ds → WellFormed m s) :
    WellFormed t (r.append f ds) := by
  have hall := List.forall_mem_append.mpr ⟨h.typed.items hf, hds⟩
  apply h.set hf (FieldSpec.allows_list.mpr ⟨hmany ▸ nofun, hall⟩)
  intro hmap m hkind s hs
  obtain _ | hs := hs
  rcases List.mem_append.mp hs with hs | hs
  · obtain ⟨s', he, hs'⟩ := h.items _ hf hmap hkind _ hs
    cases he
    exact hs'
  · exact hin m hkind s hs

theorem putEntry (h : WellFormed t r) (hf : t.field? f.number = some f)
    (hmap : f.cardinality = .map) (hkind : f.kind = .message m) (entry : Record) :
    WellFormed t (r.putEntry f entry) := by
  have hentry : f.kind.allows (.record entry) = true := hkind ▸ rfl
  have hall := forall_mem_insertEntry (p := (f.kind.allows ·)) hentry (h.typed.items hf)
  exact h.set hf (FieldSpec.allows_list.mpr ⟨hmap ▸ nofun, hall⟩) fun hne ↦ absurd hmap hne

end Record.WellFormed

/-! ## Messages that are read -/

namespace Wire

/-- A reading keeps messages well-formed. -/
def Reading.KeepsWellFormed (inner : Reading) : Prop :=
  ∀ t r bytes r', inner t r bytes = .ok r' → Record.WellFormed t r → Record.WellFormed t r'

/-- Storing a field keeps a message well-formed. -/
theorem Stored.wellFormed {inner : Reading} (hinner : inner.KeepsWellFormed) {t : MessageType}
    {r r' : Record} {field : Field} (hs : Stored inner t r field r') (h : r.WellFormed t) :
    r'.WellFormed t := by
  have hnumber : ∀ {f}, t.field? field.number = some f → t.field? f.number = some f := by
    intro f hf
    rwa [(MessageType.field?_eq_some hf).2]
  cases hs with
  | ignored => exact h
  | part hf hkind hone _ hs =>
    have hs := hinner _ _ _ _ hs (h.record _ (hnumber hf) (hone ▸ nofun) hkind)
    apply h.assign (hnumber hf) hone (hkind ▸ rfl)
    rintro m hm s ⟨⟩
    cases hkind.symm.trans hm
    exact hs
  | item hf hkind hmany _ hs =>
    have hs := hinner _ _ _ _ hs (.nil _)
    apply h.append (hnumber hf) hmany (List.forall_mem_singleton.mpr (hkind ▸ rfl))
    intro m hm s hin
    cases hkind.symm.trans hm
    cases List.mem_singleton.mp hin
    exact hs
  | entry hf hkind hmap => exact h.putEntry (hnumber hf) hmap hkind _
  | value hf hone hd =>
    apply h.assign (hnumber hf) hone (allows_scalar? hd)
    intro m hm
    rw [hm, scalar?_message] at hd
    cases hd
  | values hf hmany hds =>
    apply h.append (hnumber hf) hmany
    · intro d hd
      obtain ⟨p, -, hp⟩ := hds d hd
      exact allows_scalar? hp
    · intro m hm s hin
      obtain ⟨p, -, hp⟩ := hds _ hin
      rw [hm, scalar?_message] at hp
      cases hp

theorem keepsWellFormed_decodeInto (levels : Nat) : (decodeInto levels).KeepsWellFormed := by
  apply decodeInto_keeps
  · intro _ _ _ _ _ h
    cases h
  · intro inner levels hinner t r bytes r' h hr
    exact foldlM_store_keeps (fun _ _ _ _ hr hs ↦ hs.wellFormed hinner hr) hr
      (decodeLayer_eq_ok.mp h).1

/-- A message that is read is well-formed, with all that is in it. -/
theorem wellFormed_decode {t : MessageType} {bytes : List UInt8} {r : Record}
    (h : decode t bytes = .ok r) : r.WellFormed t :=
  keepsWellFormed_decodeInto maxLevels _ _ _ _ h (.nil t)

end Wire

/-! ## Options of declarations -/

/-- The options messages of some declarations are well-formed. -/
def Options.WellFormed (sites : List (DeclKind × Record)) : Prop :=
  ∀ site ∈ sites, site.2.WellFormed site.1.optionsType

section Declarations

variable {r : Record}

-- Fields and extensions have options messages of one type.
theorem FieldDecl.wellFormed_sites (kind : DeclKind) (hkind : kind.optionsType = .fieldOptions)
    {rs : List Record} (h : ∀ r ∈ rs, r.WellFormed .fieldDescriptor) :
    Options.WellFormed ((rs.map FieldDecl.ofRecord).map fun f ↦ (kind, f.options)) := by
  rw [Options.WellFormed, List.forall_mem_map, List.forall_mem_map]
  intro r hr
  rw [hkind]
  exact (h r hr).record 8 rfl nofun rfl

theorem EnumDecl.wellFormed_optionSites (h : r.WellFormed .enumDescriptor) :
    Options.WellFormed (EnumDecl.ofRecord r).optionSites := by
  have hvalues := h.records 2 rfl nofun rfl
  refine List.forall_mem_cons.mpr ⟨h.record 3 rfl nofun rfl, ?_⟩
  rw [List.forall_mem_map, EnumDecl.ofRecord, List.forall_mem_map]
  intro v hv
  exact (hvalues v hv).record 3 rfl nofun rfl

theorem ServiceDecl.wellFormed_optionSites (h : r.WellFormed .serviceDescriptor) :
    Options.WellFormed (ServiceDecl.ofRecord r).optionSites := by
  have hmethods := h.records 2 rfl nofun rfl
  refine List.forall_mem_cons.mpr ⟨h.record 3 rfl nofun rfl, ?_⟩
  rw [List.forall_mem_map, ServiceDecl.ofRecord, List.forall_mem_map]
  intro m hm
  exact (hmethods m hm).record 4 rfl nofun rfl

/-! ### Messages and those inside them -/

namespace MessageDecl

/-- A message that a well-formed descriptor describes. -/
def Described (m : MessageDecl) : Prop :=
  ∃ r : Record, r.WellFormed .messageDescriptor ∧ ofDatum (.record r) = m

theorem described_of_mem_items {t : MessageType} (h : r.WellFormed t) (number : Nat)
    {f : FieldSpec} (hf : t.field? number = some f) (hmap : f.cardinality ≠ .map)
    (hkind : f.kind = .message .messageDescriptor) :
    ∀ m ∈ (r.items number).map ofDatum, m.Described := by
  rw [List.forall_mem_map]
  intro d hd
  obtain ⟨s, rfl, hs⟩ := h.items number hf hmap hkind d hd
  exact ⟨s, hs, rfl⟩

theorem Described.nested {m : MessageDecl} (h : m.Described) : ∀ n ∈ m.nested, n.Described := by
  obtain ⟨r, hr, rfl⟩ := h
  rw [ofDatum, nestedIn_eq]
  exact described_of_mem_items hr 3 rfl nofun rfl

theorem Described.enums {m : MessageDecl} (h : m.Described) :
    ∀ e ∈ m.enums, Options.WellFormed e.optionSites := by
  obtain ⟨r, hr, rfl⟩ := h
  rw [ofDatum, List.forall_mem_map]
  intro e he
  exact EnumDecl.wellFormed_optionSites (hr.records 4 rfl nofun rfl e he)

theorem Described.optionSites {m : MessageDecl} (h : m.Described) :
    Options.WellFormed m.optionSites := by
  obtain ⟨r, hr, rfl⟩ := h
  rw [ofDatum, MessageDecl.optionSites]
  have hextensions := FieldDecl.wellFormed_sites .ext rfl (hr.records 6 rfl nofun rfl)
  have hfields := FieldDecl.wellFormed_sites .field rfl (hr.records 2 rfl nofun rfl)
  refine List.forall_mem_append.mpr ⟨List.forall_mem_cons.mpr ⟨?_, hextensions⟩, hfields⟩
  exact hr.record 7 rfl nofun rfl

end MessageDecl

/-! ### Files -/

namespace FileDecl

theorem described_allMessages (h : r.WellFormed .fileDescriptor) :
    ∀ m ∈ (FileDecl.ofRecord r).allMessages, m.decl.Described := by
  apply MessageDecl.visit_induction (P := fun m ↦ m.decl.Described)
  · intro m hm
    obtain ⟨i, d, hd, rfl⟩ := Placed.mem_inCollection.mp hm
    have hin := List.mem_of_getElem? hd
    rw [ofRecord, MessageDecl.ofData_eq_map] at hin
    exact MessageDecl.described_of_mem_items h 4 rfl nofun rfl d hin
  · intro m hm n hn
    obtain ⟨i, d, hd, rfl⟩ := Placed.mem_inCollection.mp hn
    exact hm.nested d (List.mem_of_getElem? hd)

theorem wellFormed_allEnums (h : r.WellFormed .fileDescriptor) :
    ∀ e ∈ (FileDecl.ofRecord r).allEnums, Options.WellFormed e.decl.optionSites := by
  intro e he
  rcases List.mem_append.mp he with he | he
  · obtain ⟨i, d, hd, rfl⟩ := Placed.mem_inCollection.mp he
    obtain ⟨x, hx, rfl⟩ := List.mem_map.mp (List.mem_of_getElem? hd)
    exact EnumDecl.wellFormed_optionSites (h.records 5 rfl nofun rfl x hx)
  · obtain ⟨m, hm, he⟩ := List.mem_flatMap.mp he
    obtain ⟨i, d, hd, rfl⟩ := Placed.mem_inCollection.mp he
    exact (described_allMessages h m hm).enums d (List.mem_of_getElem? hd)

/-- The options of all declarations of a file are well-formed, if its descriptor is. -/
theorem wellFormed_optionSites (h : r.WellFormed .fileDescriptor) :
    Options.WellFormed (FileDecl.ofRecord r).optionSites := by
  have hextensions := FieldDecl.wellFormed_sites .ext rfl (h.records 7 rfl nofun rfl)
  intro site hsite
  simp only [optionSites, List.cons_append, List.mem_cons, List.mem_append,
    List.mem_flatMap] at hsite
  rcases hsite with rfl | ((⟨e, he, hsite⟩ | ⟨m, hm, hsite⟩) | hsite) | ⟨s, hs, hsite⟩
  · exact h.record 8 rfl nofun rfl
  · exact wellFormed_allEnums h e he site hsite
  · exact (described_allMessages h m hm).optionSites site hsite
  · exact hextensions site hsite
  · obtain ⟨x, hx, rfl⟩ := List.mem_map.mp hs
    exact ServiceDecl.wellFormed_optionSites (h.records 6 rfl nofun rfl x hx) site hsite

end FileDecl

end Declarations

/-- Whatever the bytes of a descriptor set are, the options of all declarations of its files are
well-formed. -/
theorem DescriptorSet.wellFormed_load {path : String} {contents : Option (List UInt8)}
    {files : List FileDecl} (h : load path contents = .ok files) :
    ∀ f ∈ files, Options.WellFormed f.optionSites := by
  cases contents with
  | none => cases h
  | some bytes =>
    obtain ⟨set, hset, rfl⟩ := load_eq_ok.mp h
    have hfiles := (Wire.wellFormed_decode hset).records 1 rfl nofun rfl
    rw [DescriptorSet.files, List.forall_mem_map]
    intro r hr
    exact FileDecl.wellFormed_optionSites (hfiles r hr)

/-- So are those of the files that a request names. -/
theorem GenerationRequest.wellFormed_chosen {bytes : List UInt8} {r : Record}
    (h : Wire.decode .codeGeneratorRequest bytes = .ok r) :
    ∀ f ∈ (GenerationRequest.ofRecord r).chosen, Options.WellFormed f.optionSites := by
  have hfiles := (Wire.wellFormed_decode h).records 15 rfl nofun rfl
  intro f hf
  obtain ⟨name, -, hname⟩ := List.mem_filterMap.mp hf
  obtain ⟨x, hx, rfl⟩ := List.mem_map.mp (List.mem_reverse.mp (List.mem_of_find?_eq_some hname))
  exact FileDecl.wellFormed_optionSites (hfiles x hx)

end ProtoCatalog
