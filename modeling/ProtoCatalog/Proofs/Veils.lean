import ProtoCatalog.Proofs.Distinct

/-!
# Documents without what stands at an address

A veil over an address blanks the source and the description of the one node that has it.  It moves
no node, and it leaves a document alone that has no node there.
-/

namespace ProtoCatalog

/-! ## Veils -/

/-- A description, blank at one address. -/
def hide (p a : Address) (description : String) : String := if a = p then "" else description

/-- A source, blank at one address. -/
def Source.veil (p : Address) (s : Source) : Source :=
  if s.path = p then .unplaced s.file s.path else s

def EnumValueDoc.veil (p : Address) (d : EnumValueDoc) : EnumValueDoc :=
  { d with description := hide p d.address d.description }

def EnumDoc.veil (p : Address) (d : EnumDoc) : EnumDoc :=
  { d with
    description := hide p d.source.path d.description
    values := d.values.map (EnumValueDoc.veil p)
    source := d.source.veil p }

def FieldDoc.veil (p : Address) (d : FieldDoc) : FieldDoc :=
  { d with description := hide p d.address d.description }

def ExtensionDoc.veil (p : Address) (d : ExtensionDoc) : ExtensionDoc :=
  { d with description := hide p d.address d.description }

def OneofDoc.veil (p : Address) (d : OneofDoc) : OneofDoc :=
  { d with
    description := hide p d.source.path d.description
    fields := d.fields.map (FieldDoc.veil p)
    source := d.source.veil p }

def MessageDoc.veil (p : Address) (d : MessageDoc) : MessageDoc :=
  { d with
    description := hide p d.source.path d.description
    extensions := d.extensions.map (ExtensionDoc.veil p)
    fields := d.fields.map (FieldDoc.veil p)
    oneofs := d.oneofs.map (OneofDoc.veil p)
    source := d.source.veil p }

def MethodDoc.veil (p : Address) (d : MethodDoc) : MethodDoc :=
  { d with description := hide p d.address d.description }

def ServiceDoc.veil (p : Address) (d : ServiceDoc) : ServiceDoc :=
  { d with
    description := hide p d.source.path d.description
    methods := d.methods.map (MethodDoc.veil p)
    source := d.source.veil p }

/-- A documented file without the source and the description of the node at an address. -/
def FileDoc.veil (p : Address) (d : FileDoc) : FileDoc :=
  { d with
    description := hide p Address.syntaxStatement d.description
    enums := d.enums.map (EnumDoc.veil p)
    extensions := d.extensions.map (ExtensionDoc.veil p)
    messages := d.messages.map (MessageDoc.veil p)
    services := d.services.map (ServiceDoc.veil p) }

/-! ## What a veil leaves -/

section Veils

variable {p : Address}

theorem hide_eq_self {a : Address} (h : a ≠ p) (description : String) :
    hide p a description = description := if_neg h

theorem Source.veil_eq_self {s : Source} (h : s.path ≠ p) : s.veil p = s := if_neg h

theorem Source.path_veil (s : Source) : (s.veil p).path = s.path := by
  unfold veil
  split <;> rfl

theorem map_eq_self {α : Type} {v : α → α} {docs : List α} (h : ∀ d ∈ docs, v d = d) :
    docs.map v = docs := by
  rw [List.map_congr_left h, List.map_id']

theorem EnumDoc.veil_eq_self {d : EnumDoc} (h : ∀ node ∈ d.nodes, node.address ≠ p) :
    d.veil p = d := by
  have hpath : d.source.path ≠ p := h (.enumeration d) List.mem_cons_self
  have hvalues : d.values.map (EnumValueDoc.veil p) = d.values := by
    apply map_eq_self
    intro v hv
    have hne : v.address ≠ p := h (.enumValue v) (List.mem_cons_of_mem _ (List.mem_map_of_mem hv))
    rw [EnumValueDoc.veil, hide_eq_self hne]
  rw [veil, hide_eq_self hpath, hvalues, Source.veil_eq_self hpath]

theorem ServiceDoc.veil_eq_self {d : ServiceDoc} (h : ∀ node ∈ d.nodes, node.address ≠ p) :
    d.veil p = d := by
  have hpath : d.source.path ≠ p := h (.service d) List.mem_cons_self
  have hmethods : d.methods.map (MethodDoc.veil p) = d.methods := by
    apply map_eq_self
    intro m hm
    have hne : m.address ≠ p := h (.method m) (List.mem_cons_of_mem _ (List.mem_map_of_mem hm))
    rw [MethodDoc.veil, hide_eq_self hne]
  rw [veil, hide_eq_self hpath, hmethods, Source.veil_eq_self hpath]

theorem ExtensionDoc.map_veil_eq_self {docs : List ExtensionDoc} (h : ∀ d ∈ docs, d.address ≠ p) :
    docs.map (ExtensionDoc.veil p) = docs := by
  apply map_eq_self
  intro d hd
  rw [veil, hide_eq_self (h d hd)]

theorem FieldDoc.map_veil_eq_self {docs : List FieldDoc} (h : ∀ d ∈ docs, d.address ≠ p) :
    docs.map (FieldDoc.veil p) = docs := by
  apply map_eq_self
  intro d hd
  rw [veil, hide_eq_self (h d hd)]

theorem MessageDoc.veil_eq_self {d : MessageDoc} (h : ∀ node ∈ d.nodes, node.address ≠ p) :
    d.veil p = d := by
  have hpath : d.source.path ≠ p := h (.message d) List.mem_cons_self
  have hfield : ∀ x ∈ d.allFields, x.address ≠ p := fun x hx ↦
    h (.field x) (mem_nodes.mpr (.inr (.inr (.inl ⟨x, hx, rfl⟩))))
  have hext : ∀ x ∈ d.extensions, x.address ≠ p := fun x hx ↦
    h (.ext x) (mem_nodes.mpr (.inr (.inl ⟨x, hx, rfl⟩)))
  have honeofs : d.oneofs.map (OneofDoc.veil p) = d.oneofs := by
    apply map_eq_self
    intro o ho
    have hne : o.source.path ≠ p := h (.oneof o) (mem_nodes.mpr (.inr (.inr (.inr ⟨o, ho, rfl⟩))))
    -- A member of a oneof is a field of the message too.
    have hmembers : ∀ x ∈ o.fields, x.address ≠ p := fun x hx ↦
      hfield x (List.mem_append_right _ (List.mem_flatMap.mpr ⟨o, ho, hx⟩))
    rw [OneofDoc.veil, hide_eq_self hne, FieldDoc.map_veil_eq_self hmembers,
      Source.veil_eq_self hne]
  have hplain : ∀ x ∈ d.fields, x.address ≠ p := fun x hx ↦
    hfield x (List.mem_append_left _ hx)
  rw [veil, hide_eq_self hpath, ExtensionDoc.map_veil_eq_self hext,
    FieldDoc.map_veil_eq_self hplain, honeofs, Source.veil_eq_self hpath]

/-- Where no node has the address, nothing is hidden. -/
theorem FileDoc.veil_eq_self {d : FileDoc} (h : ∀ node ∈ d.nodes, node.address ≠ p) :
    d.veil p = d := by
  have hfile : Address.syntaxStatement ≠ p := h (.file d) List.mem_cons_self
  have henums : d.enums.map (EnumDoc.veil p) = d.enums := by
    apply map_eq_self
    intro e he
    exact EnumDoc.veil_eq_self fun node hn ↦
      h node (FileDecl.mem_nodes.mpr (.inr (.inl ⟨e, he, hn⟩)))
  have hext : ∀ x ∈ d.extensions, x.address ≠ p := fun x hx ↦
    h (.ext x) (FileDecl.mem_nodes.mpr (.inr (.inr (.inl ⟨x, hx, rfl⟩))))
  have hmessages : d.messages.map (MessageDoc.veil p) = d.messages := by
    apply map_eq_self
    intro m hm
    exact MessageDoc.veil_eq_self fun node hn ↦
      h node (FileDecl.mem_nodes.mpr (.inr (.inr (.inr (.inl ⟨m, hm, hn⟩)))))
  have hservices : d.services.map (ServiceDoc.veil p) = d.services := by
    apply map_eq_self
    intro x hx
    exact ServiceDoc.veil_eq_self fun node hn ↦
      h node (FileDecl.mem_nodes.mpr (.inr (.inr (.inr (.inr ⟨x, hx, hn⟩)))))
  rw [veil, hide_eq_self hfile, henums, ExtensionDoc.map_veil_eq_self hext, hmessages, hservices]

/-! ### Addresses stay -/

theorem EnumDoc.map_address_veil (d : EnumDoc) :
    (d.veil p).nodes.map Node.address = d.nodes.map Node.address := by
  rw [map_address_nodes, map_address_nodes, veil, Source.path_veil, List.map_map]
  rfl

theorem ServiceDoc.map_address_veil (d : ServiceDoc) :
    (d.veil p).nodes.map Node.address = d.nodes.map Node.address := by
  rw [map_address_nodes, map_address_nodes, veil, Source.path_veil, List.map_map]
  rfl

theorem MessageDoc.allFields_veil (d : MessageDoc) :
    (d.veil p).allFields = d.allFields.map (FieldDoc.veil p) := by
  simp only [allFields, veil, List.map_append, List.flatMap_map, List.map_flatMap, OneofDoc.veil]

theorem MessageDoc.map_address_veil (d : MessageDoc) :
    (d.veil p).nodes.map Node.address = d.nodes.map Node.address := by
  have honeofs : (d.oneofs.map (OneofDoc.veil p)).map (·.source.path) =
      d.oneofs.map (·.source.path) := by
    rw [List.map_map]
    apply List.map_congr_left
    intro o _
    exact Source.path_veil o.source
  rw [map_address_nodes, map_address_nodes, allFields_veil, veil, Source.path_veil, honeofs,
    List.map_map, List.map_map]
  rfl

/-- A veil moves no node. -/
theorem FileDoc.map_address_veil (d : FileDoc) :
    (d.veil p).nodes.map Node.address = d.nodes.map Node.address := by
  simp only [nodes, veil, List.map_cons, List.map_append, List.map_flatMap, List.flatMap_map,
    List.map_map, EnumDoc.map_address_veil, MessageDoc.map_address_veil,
    ServiceDoc.map_address_veil]
  rfl

end Veils

end ProtoCatalog
